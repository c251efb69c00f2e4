import ImpossibleVoice.Artifacts.Confinement

namespace ImpossibleVoice.Artifacts

open Lib

variable {platform : Platform} {root : Tree} {p q : List Component} {names : List OsString}

theorem WellFormed.child (h : WellFormed platform root) {x : Component} {child : Tree}
    (hx : root.entries.lookup x = some child) : WellFormed platform child :=
  ⟨h.distinct.child hx,
    fun p node hfind => h.named (x :: p) node (by rw [Node.find_cons, hx]; exact hfind)⟩

theorem WellFormed.put (h : WellFormed platform root)
    (hplain : ∀ name ∈ names, Ordinary platform name) {v : Option Tree}
    (hv : ∀ n, v = some n → WellFormed platform n) :
    WellFormed platform (root.put v (names.map .normal)) := by
  induction names generalizing root with
  | nil => exact h
  | cons name names ih =>
      rw [List.map_cons, Node.put]
      by_cases hdir : root.isDir = true
      · have hnodup := h.distinct [] root rfl
        generalize hw : (if names.map Component.normal = [] then v
          else (root.entries.lookup (.normal name)).map (Node.put v (names.map .normal))) = w
        have hwell : ∀ n, w = some n → WellFormed platform n := by
          intro n hn
          rw [← hw] at hn
          split at hn
          case isTrue => exact hv n hn
          case isFalse =>
            obtain ⟨child, hchild, rfl⟩ := Option.map_eq_some_iff.mp hn
            exact ih (h.child hchild) fun name hname => hplain name (List.mem_cons_of_mem _ hname)
        refine WellFormed.of_entries (Node.entries_setEntries hdir _) ?_
          (fun e he => ?_) fun e he => ?_
        · rw [Node.assign, List.map_append]
          refine List.Nodup.append (hnodup.sublist (List.filter_sublist.map _)) ?_ ?_
          · cases w <;> simp
          · intro x hx hx'
            obtain ⟨e, he, rfl⟩ := List.mem_map.mp hx
            have hne := of_decide_eq_true (List.mem_filter.mp he).2
            cases w with
            | none => simp at hx'
            | some n => exact hne (by simpa using hx')
        · rw [Node.assign] at he
          rcases List.mem_append.mp he with he | he
          · exact h.named [] root rfl e (List.mem_filter.mp he).1
          · cases w with
            | none => simp at he
            | some n =>
                obtain rfl : e = (.normal name, n) := by simpa using he
                exact ⟨name, hplain name List.mem_cons_self, rfl⟩
        · rw [Node.assign] at he
          rcases List.mem_append.mp he with he | he
          · exact h.child ((Node.lookup_eq_some_of_nodup hnodup).mpr (List.mem_filter.mp he).1)
          · cases w with
            | none => simp at he
            | some n =>
                obtain rfl : e = (.normal name, n) := by simpa using he
                exact hwell n rfl
      · rw [Node.setEntries_of_not_isDir (Bool.eq_false_iff.mpr hdir)]
        exact h

def Solid (root : Tree) : Prop :=
  ∀ q node, root.find q = some node → (∃ es, node = .dir es) ∨ ∃ c, node = .file c

theorem find_put_cases (hsolid : Solid root) {n : Tree} (hleaf : n.IsLeaf) (hp : p ≠ [])
    (hdir : root.dirAt p.dropLast = true) (hwas : ∀ m, root.find p = some m → m.IsLeaf)
    (q : List Component) :
    q = p ∨ (root.put (some n) p).find q = root.find q ∨
    ∃ es es', root.find q = some (.dir es) ∧ (root.put (some n) p).find q = some (.dir es') := by
  by_cases hq : q <+: p
  · obtain ⟨rest, rfl⟩ := hq
    cases rest with
    | nil => exact .inl (List.append_nil _).symm
    | cons x rest =>
        have habove := Node.find_put_above (some n) root q (List.cons_ne_nil x rest)
        cases hfind : root.find q with
        | none =>
            rw [hfind] at habove
            exact .inr (.inl habove)
        | some node =>
            rw [hfind] at habove
            obtain ⟨es, rfl⟩ | ⟨c, rfl⟩ := hsolid q node hfind
            · exact .inr (.inr ⟨es, _, rfl, habove⟩)
            · exact .inr (.inl habove)
  · exact .inr (.inl (Node.find_put_leaf hleaf hp hdir hwas hq))

/-- A regular file of an archive: its path below the root, and its bytes. -/
structure Unpacked where
  path : List Component
  content : Bytes
deriving DecidableEq

variable {files : List Unpacked} {f : Unpacked}

structure Holds (platform : Platform) (root : Tree) (files : List Unpacked) : Prop where
  wellFormed : WellFormed platform root
  shape : ∀ p node, root.find p = some node →
    (∃ es, node = .dir es) ∨ ∃ f ∈ files, p = f.path ∧ node = .file f.content
  present : ∀ f ∈ files, root.find f.path = some (.file f.content)
  distinct : (files.map Unpacked.path).Nodup

namespace Holds

theorem solid (h : Holds platform root files) : Solid root := by
  intro q node hfind
  obtain hdir | ⟨f, -, -, rfl⟩ := h.shape q node hfind
  · exact .inl hdir
  · exact .inr ⟨_, rfl⟩

theorem file_iff (h : Holds platform root files) {c : Bytes} :
    root.find p = some (.file c) ↔ ∃ f ∈ files, f.path = p ∧ f.content = c := by
  constructor
  · intro hfind
    obtain ⟨es, hdir⟩ | ⟨f, hf, rfl, hcontent⟩ := h.shape p _ hfind
    · cases hdir
    · cases hcontent
      exact ⟨f, hf, rfl, rfl⟩
  · rintro ⟨f, hf, rfl, rfl⟩
    exact h.present f hf

structure Room (platform : Platform) (root : Tree) (names : List OsString) : Prop where
  ne_nil : names ≠ []
  plain : ∀ name ∈ names, Ordinary platform name
  dir : root.dirAt (names.map Component.normal).dropLast = true

theorem Room.path_ne_nil (hr : Room platform root names) : names.map Component.normal ≠ [] := by
  rw [Ne, List.map_eq_nil_iff]
  exact hr.ne_nil

theorem mkdir (h : Holds platform root files) (hr : Room platform root names)
    (hnone : root.find (names.map .normal) = none) :
    Holds platform (root.put (some (.dir [])) (names.map .normal)) files := by
  have hcases :=
    find_put_cases h.solid Node.isLeaf_emptyDir hr.path_ne_nil hr.dir
      (fun m hm => by rw [hnone] at hm; cases hm)
  refine ⟨h.wellFormed.put hr.plain fun n hn => ?_, fun q node hfind => ?_, fun f hf => ?_,
    h.distinct⟩
  · cases hn
    exact .of_leaf rfl
  · obtain rfl | hsame | ⟨es, es', -, hnow⟩ := hcases q
    · rw [Node.find_put _ hr.path_ne_nil hr.dir] at hfind
      cases hfind
      exact .inl ⟨[], rfl⟩
    · exact h.shape q node (hsame ▸ hfind)
    · rw [hnow] at hfind
      cases hfind
      exact .inl ⟨es', rfl⟩
  · have hbefore := h.present f hf
    obtain heq | hsame | ⟨es, es', hdir, -⟩ := hcases f.path
    · rw [heq, hnone] at hbefore
      cases hbefore
    · rw [hsame, hbefore]
    · rw [hbefore] at hdir
      cases hdir

theorem putFile (h : Holds platform root files) (hr : Room platform root names)
    (hwas : ∀ m, root.find (names.map .normal) = some m → m.IsLeaf) {kept : List Unpacked}
    (hsub : kept.Sublist files) (hfresh : ∀ f ∈ kept, f.path ≠ names.map .normal)
    (hrest : ∀ f ∈ files, f.path ≠ names.map .normal → f ∈ kept) (c : Bytes) :
    Holds platform (root.put (some (.file c)) (names.map .normal))
      (kept ++ [⟨names.map .normal, c⟩]) := by
  have hcases := find_put_cases h.solid (Node.isLeaf_file c) hr.path_ne_nil hr.dir hwas
  refine ⟨h.wellFormed.put hr.plain fun n hn => ?_, fun q node hfind => ?_, fun f hf => ?_, ?_⟩
  · cases hn
    exact .of_leaf rfl
  · by_cases hq : q = names.map .normal
    · subst hq
      rw [Node.find_put _ hr.path_ne_nil hr.dir] at hfind
      cases hfind
      exact .inr ⟨_, List.mem_append_right _ List.mem_cons_self, rfl, rfl⟩
    · obtain heq | hsame | ⟨es, es', -, hnow⟩ := hcases q
      · exact absurd heq hq
      · obtain hdir | ⟨f, hf, rfl, rfl⟩ := h.shape q node (hsame ▸ hfind)
        · exact .inl hdir
        · exact .inr ⟨f, List.mem_append_left _ (hrest f hf hq), rfl, rfl⟩
      · rw [hnow] at hfind
        cases hfind
        exact .inl ⟨es', rfl⟩
  · rcases List.mem_append.mp hf with hf | hf
    · have hbefore := h.present f (hsub.subset hf)
      obtain heq | hsame | ⟨es, es', hdir, -⟩ := hcases f.path
      · exact absurd heq (hfresh f hf)
      · rw [hsame, hbefore]
      · rw [hbefore] at hdir
        cases hdir
    · rw [List.mem_singleton.mp hf]
      exact Node.find_put _ hr.path_ne_nil hr.dir
  · rw [List.map_append]
    refine List.Nodup.append (h.distinct.sublist (hsub.map _)) (List.nodup_singleton _) ?_
    intro path hpath hlast
    obtain ⟨f, hf, rfl⟩ := List.mem_map.mp hpath
    exact hfresh f hf (List.mem_singleton.mp hlast)

theorem createNew (h : Holds platform root files) (hr : Room platform root names)
    (hnone : root.find (names.map .normal) = none) :
    Holds platform (root.put (some (.file [])) (names.map .normal))
      (files ++ [⟨names.map .normal, []⟩]) := by
  refine h.putFile hr (fun m hm => by rw [hnone] at hm; cases hm) (List.Sublist.refl _)
    (fun f hf heq => ?_) (fun f hf _ => hf) []
  have hbefore := h.present f hf
  rw [heq, hnone] at hbefore
  cases hbefore

theorem append {c : Bytes} (h : Holds platform root (files ++ [⟨names.map .normal, c⟩]))
    (hr : Room platform root names) (bytes : Bytes) :
    Holds platform (root.put (some (.file (c ++ bytes))) (names.map .normal))
      (files ++ [⟨names.map .normal, c ++ bytes⟩]) := by
  have hlast := h.present _ (List.mem_append_right files List.mem_cons_self)
  have hfresh : ∀ f ∈ files, f.path ≠ names.map .normal := by
    intro f hf heq
    have hdistinct := h.distinct
    rw [List.map_append, List.nodup_append] at hdistinct
    exact hdistinct.2.2 _ (List.mem_map_of_mem hf) _ List.mem_cons_self heq
  refine h.putFile hr (fun m hm => ?_) (List.sublist_append_left _ _) hfresh (fun f hf hne => ?_) _
  · rw [hlast] at hm
    cases hm
    exact Node.isLeaf_file c
  · rcases List.mem_append.mp hf with hf | hf
    · exact hf
    · rw [List.mem_singleton.mp hf] at hne
      exact absurd rfl hne

end Holds

variable {tree tree' : Tree} {staging path destination : List Component} {env : Environment}
  {lib : Libraries}
  {artifact : ArtifactSpec} {m : Machine}

def Installing (platform : Platform) (staging : List Component) (files : List Unpacked)
    (m : Machine) : Prop :=
  ∃ root, m.tree.find staging = some root ∧ root.isDir = true ∧ Holds platform root files

theorem room_of_dirAt (hroot : tree.find staging = some root) (hne : names ≠ [])
    (hplain : ∀ name ∈ names, Ordinary platform name)
    (hdir : tree.dirAt (staging ++ names.map Component.normal).dropLast = true) :
    Holds.Room platform root names := by
  refine ⟨hne, hplain, ?_⟩
  rw [List.dropLast_append_of_ne_nil (by rw [Ne, List.map_eq_nil_iff]; exact hne), Node.dirAt,
    Node.find_append_of_eq hroot] at hdir
  exact hdir

theorem find_put_staging (hroot : tree.find staging = some root) (hp : p ≠ []) (v : Option Tree) :
    (tree.put v (staging ++ p)).find staging = some (root.put v p) := by
  rw [Node.find_put_above v tree staging hp, hroot]
  rfl

theorem Installing.mkdir (h : Installing platform staging files m)
    (hbelow : Below platform staging path) (happly : (FileOp.mkdir path).apply m.tree = some tree) :
    Installing platform staging files (m.after (.mkdir path) tree) := by
  obtain ⟨root, hroot, hisDir, hholds⟩ := h
  obtain ⟨names, hne, hplain, rfl⟩ := hbelow
  obtain ⟨-, hdir, hnone, rfl⟩ := Node.create_eq_some happly
  have hroom :=
    room_of_dirAt hroot hne (fun name hname => ⟨(hplain name hname).1, (hplain name hname).2⟩) hdir
  rw [Node.find_append_of_eq hroot] at hnone
  exact ⟨_, find_put_staging hroot hroom.path_ne_nil _, (Node.isDir_put _ _ _).trans hisDir,
    hholds.mkdir hroom hnone⟩

theorem Installing.createNew (h : Installing platform staging files m) (hne : names ≠ [])
    (hplain : ∀ name ∈ names, Ordinary platform name) {op : Op}
    (happly : (FileOp.createNew (staging ++ names.map .normal)).apply m.tree = some tree) :
    Installing platform staging (files ++ [⟨names.map .normal, []⟩]) (m.after op tree) := by
  obtain ⟨root, hroot, hisDir, hholds⟩ := h
  obtain ⟨-, hdir, hnone, rfl⟩ := Node.create_eq_some happly
  have hroom := room_of_dirAt hroot hne hplain hdir
  rw [Node.find_append_of_eq hroot] at hnone
  exact ⟨_, find_put_staging hroot hroom.path_ne_nil _, (Node.isDir_put _ _ _).trans hisDir,
    hholds.createNew hroom hnone⟩

theorem Installing.append {c bytes : Bytes}
    (h : Installing platform staging (files ++ [⟨names.map .normal, c⟩]) m) (hne : names ≠ [])
    (hplain : ∀ name ∈ names, Ordinary platform name) {op : Op}
    (happly : (FileOp.append (staging ++ names.map .normal) bytes).apply m.tree = some tree) :
    Installing platform staging (files ++ [⟨names.map .normal, c ++ bytes⟩]) (m.after op tree) := by
  obtain ⟨root, hroot, hisDir, hholds⟩ := h
  obtain ⟨content, hfind, rfl⟩ := FileOp.append_eq_some happly
  have hdir : m.tree.dirAt (staging ++ names.map Component.normal).dropLast = true :=
    Node.dirAt_dropLast_of_find (by simp [hne]) (by rw [hfind]; exact Option.some_ne_none _)
  have hroom := room_of_dirAt hroot hne hplain hdir
  rw [Node.find_append_of_eq hroot,
    hholds.present _ (List.mem_append_right _ List.mem_cons_self)] at hfind
  cases hfind
  exact ⟨_, find_put_staging hroot hroom.path_ne_nil _, (Node.isDir_put _ _ _).trans hisDir,
    hholds.append hroom bytes⟩

def recordOf (platform : Platform) (lib : Libraries) (f : Unpacked) : Option InstalledFile :=
  (relativeText platform f.path).map fun text => ⟨text, f.content.length, lib.sha256 f.content⟩

def records (platform : Platform) (lib : Libraries) (files : List Unpacked) : List InstalledFile :=
  files.filterMap (recordOf platform lib)

structure Progress (platform : Platform) (lib : Libraries) (staging : List Component)
    (files : List Unpacked) (x : Extraction) (m : Machine) : Prop where
  installing : Installing platform staging files m
  installed : x.installed = records platform lib files
  recorded : ∀ f ∈ files, ∃ entry, recordOf platform lib f = some entry
  nodup : (x.installed.map InstalledFile.path).Nodup
  seen : ∀ entry ∈ x.installed, toAsciiLowercase entry.path ∈ x.seen

theorem Progress.snoc {x : Extraction} {m' : Machine} {entry : InstalledFile} {total : Nat}
    (h : Progress platform lib staging files x m)
    (hinstalling : Installing platform staging (files ++ [f]) m')
    (hrecord : recordOf platform lib f = some entry) (hnew : toAsciiLowercase entry.path ∉ x.seen) :
    Progress platform lib staging (files ++ [f])
      ⟨x.installed ++ [entry], insert (toAsciiLowercase entry.path) x.seen, total⟩ m' where
  installing := hinstalling
  installed := by
    rw [h.installed, records, records, List.filterMap_append, List.filterMap_cons_some hrecord,
      List.filterMap_nil]
  recorded := by
    intro g hg
    rcases List.mem_append.mp hg with hg | hg
    · exact h.recorded g hg
    · rw [List.mem_singleton.mp hg]
      exact ⟨entry, hrecord⟩
  nodup := by
    rw [List.map_append]
    refine List.Nodup.append h.nodup (List.nodup_singleton _) fun path hpath hlast => hnew ?_
    obtain ⟨e, he, rfl⟩ := List.mem_map.mp hpath
    have hsame : e.path = entry.path := List.mem_singleton.mp hlast
    exact hsame ▸ h.seen e he
  seen := by
    intro e he
    rcases List.mem_append.mp he with he | he
    · exact Finset.mem_insert_of_mem (h.seen e he)
    · rw [List.mem_singleton.mp he]
      exact Finset.mem_insert_self _ _

def markerOf (platform : Platform) (lib : Libraries) (artifact : ArtifactSpec)
    (files : List Unpacked) : Unpacked :=
  ⟨[.normal installationFile],
    lib.encode (installationManifest artifact (records platform lib files))⟩

theorem turned_eq_joined (h : Unslanted (names.map .normal)) :
    turned platform (names.map .normal) = [slash].intercalate names := by
  have hkept : names.map (List.map fun b => if b = backslash then slash else b) = names := by
    conv_rhs => rw [← List.map_id names]
    refine List.map_congr_left fun name hname => ?_
    conv_rhs => rw [id, ← List.map_id name]
    refine List.map_congr_left fun b hb => if_neg ?_
    rintro rfl
    exact h name (List.mem_map_of_mem hname) hb
  have hsep : (if platform.mainSeparator = backslash then slash else platform.mainSeparator) =
      slash := by
    cases platform <;> rfl
  rw [turned, render_normal, map_intercalate, hkept, List.map_singleton, hsep]

theorem isSeparator_slash : platform.isSeparator slash = true := by
  cases platform <;> decide

theorem components_turned (hne : names ≠ []) (hplain : ∀ name ∈ names, Ordinary platform name)
    (h : Unslanted (names.map .normal)) :
    platform.components (turned platform (names.map .normal)) = names.map .normal := by
  rw [turned_eq_joined h]
  exact components_joined isSeparator_slash hne hplain

theorem unslanted_windows (hplain : ∀ name ∈ names, Ordinary .windows name) :
    Unslanted (names.map .normal) := by
  intro name hname hback
  have hmem : name ∈ names := by simpa using hname
  exact absurd ((hplain name hmem).plain.unseparated backslash hback) (by decide)

theorem path_of_turned (hne : names ≠ []) (hplain : ∀ name ∈ names, Ordinary platform name)
    (h : turned platform (names.map .normal) = installationFile) :
    names.map Component.normal = [.normal installationFile] := by
  have hplainly : Unslanted (names.map .normal) := by
    cases platform with
    | windows => exact unslanted_windows hplain
    | linux =>
        intro name hname hback
        have hmem : backslash ∈ Platform.linux.render (names.map .normal) := by
          rw [render_normal]
          exact (backslash_mem_intercalate names).mpr ⟨name, by simpa using hname, hback⟩
        have hslash : slash ∈ turned .linux (names.map .normal) :=
          List.mem_map.mpr ⟨backslash, hmem, if_pos rfl⟩
        rw [h] at hslash
        exact absurd hslash (by decide)
  rw [← components_turned hne hplain hplainly, h]
  exact (plain_installationFile platform).1.components (plain_installationFile platform).2

theorem Holds.names_of_mem (h : Holds platform root files) (hdir : root.isDir = true)
    (hf : f ∈ files) :
    ∃ names : List OsString, f.path = names.map .normal ∧ names ≠ [] ∧
    ∀ name ∈ names, Ordinary platform name := by
  have hpresent := h.present f hf
  obtain ⟨names, hnames, hplain⟩ := h.wellFormed.exists_names hpresent
  refine ⟨names, hnames, ?_, hplain⟩
  rintro rfl
  rw [hnames] at hpresent
  cases hpresent
  cases hdir

theorem mem_records {entry : InstalledFile} :
    entry ∈ records platform lib files ↔ ∃ f ∈ files, recordOf platform lib f = some entry :=
  List.mem_filterMap

theorem recordOf_eq_some {entry : InstalledFile} :
    recordOf platform lib f = some entry ↔
      relativeText platform f.path = some entry.path ∧ f.content.length = entry.size ∧
    lib.sha256 f.content = entry.sha256 := by
  rw [recordOf, Option.map_eq_some_iff]
  constructor
  · rintro ⟨text, htext, rfl⟩
    exact ⟨htext, rfl, rfl⟩
  · rintro ⟨htext, hsize, hdigest⟩
    refine ⟨entry.path, htext, ?_⟩
    rw [hsize, hdigest]

theorem turned_marker : turned platform [.normal installationFile] = installationFile := by
  cases platform <;> decide

namespace Holds

variable (h : Holds platform root (files ++ [markerOf platform lib artifact files]))
  (hdir : root.isDir = true)

include h

theorem ne_marker (hf : f ∈ files) : f.path ≠ [.normal installationFile] := by
  have hdistinct := h.distinct
  rw [List.map_append, List.nodup_append] at hdistinct
  exact hdistinct.2.2 _ (List.mem_map_of_mem hf) _ List.mem_cons_self

include hdir

theorem turned_ne_marker (hf : f ∈ files) : turned platform f.path ≠ installationFile := by
  obtain ⟨names, hnames, hne, hplain⟩ := h.names_of_mem hdir (List.mem_append_left _ hf)
  intro hturned
  apply h.ne_marker hf
  rw [hnames] at hturned ⊢
  exact path_of_turned hne hplain hturned

theorem lists_iff (hrecorded : ∀ f ∈ files, ∃ entry, recordOf platform lib f = some entry)
    (x : Text) :
    x ∈ (records platform lib files).map InstalledFile.path ↔ Lists platform [] root x := by
  rw [h.wellFormed.lists_iff, List.mem_map]
  constructor
  · rintro ⟨entry, hentry, rfl⟩
    obtain ⟨f, hf, hrecord⟩ := mem_records.mp hentry
    obtain ⟨htext, -⟩ := recordOf_eq_some.mp hrecord
    have hmem : f ∈ files ++ [markerOf platform lib artifact files] := List.mem_append_left _ hf
    obtain ⟨names, hnames, hne, -⟩ := h.names_of_mem hdir hmem
    refine ⟨f.path, f.content, ?_, h.present f hmem, htext, ?_⟩
    · rw [hnames, Ne, List.map_eq_nil_iff]
      exact hne
    · rw [(relativeText_eq_some.mp htext).2]
      exact h.turned_ne_marker hdir hf
  · rintro ⟨p, content, -, hfile, htext, hmarker⟩
    obtain ⟨f, hf, rfl, -⟩ := h.file_iff.mp hfile
    rcases List.mem_append.mp hf with hf | hf
    · obtain ⟨entry, hrecord⟩ := hrecorded f hf
      obtain ⟨hpath, -⟩ := recordOf_eq_some.mp hrecord
      refine ⟨entry, mem_records.mpr ⟨f, hf, hrecord⟩, ?_⟩
      rw [hpath] at htext
      exact Option.some.inj htext
    · rw [List.mem_singleton.mp hf, relativeText_eq_some] at htext
      rw [htext.2] at hmarker
      exact absurd turned_marker hmarker

end Holds

end ImpossibleVoice.Artifacts

import ImpossibleVoice.Artifacts.Inventory

namespace ImpossibleVoice.Artifacts

open Lib

variable {platform : Platform} {lib : Libraries} {root tree : Tree} {artifact : ArtifactSpec}
  {installation : InstallationManifest}
  {p : List Component} {content : Bytes}

/-- A tree as a file system holds it: every directory lists distinct names. -/
structure WellFormed (platform : Platform) (root : Tree) : Prop where
  distinct : root.Distinct
  named : ∀ p node, root.find p = some node →
    ∀ e ∈ node.entries, ∃ name, Ordinary platform name ∧ e.1 = .normal name

theorem WellFormed.exists_names (h : WellFormed platform root) {p : List Component} {node : Tree}
    (hfind : root.find p = some node) :
    ∃ names : List OsString, p = names.map .normal ∧ ∀ name ∈ names, Ordinary platform name := by
  induction p using List.reverseRecOn generalizing node with
  | nil => exact ⟨[], rfl, fun _ hname => absurd hname List.not_mem_nil⟩
  | append_singleton p last ih =>
      rw [Node.find_append, Option.bind_eq_some_iff] at hfind
      obtain ⟨parent, hparent, hlast⟩ := hfind
      obtain ⟨names, rfl, hplain⟩ := ih hparent
      rw [Node.find_cons, Option.bind_eq_some_iff] at hlast
      obtain ⟨child, hchild, _⟩ := hlast
      have hmem := (Node.lookup_eq_some_of_nodup (h.distinct _ _ hparent)).mp hchild
      obtain ⟨name, hname, rfl⟩ := h.named _ _ hparent _ hmem
      refine ⟨names ++ [name], by simp, fun n hn => ?_⟩
      rcases List.mem_append.mp hn with hn | hn
      · exact hplain n hn
      · exact List.mem_singleton.mp hn ▸ hname

def turned (platform : Platform) (path : List Component) : OsString :=
  (platform.render path).map fun b => if b = backslash then slash else b

theorem relativeText_eq_some {text : Text} :
    relativeText platform p = some text ↔
      isUtf8 (platform.render p) = true ∧ text.bytes = turned platform p := by
  rw [relativeText, Option.map_eq_some_iff]
  constructor
  · rintro ⟨raw, hraw, rfl⟩
    rw [toStr_eq_some] at hraw
    exact ⟨hraw ▸ raw.utf8, by rw [turned, ← hraw]; rfl⟩
  · rintro ⟨hutf8, htext⟩
    refine ⟨⟨_, hutf8⟩, toStr_eq_some.mpr rfl, ?_⟩
    ext1
    exact htext.symm

def Unslanted (path : List Component) : Prop := ∀ name, .normal name ∈ path → backslash ∉ name

theorem backslash_mem_intercalate (names : List OsString) :
    backslash ∈ [slash].intercalate names ↔ ∃ name ∈ names, backslash ∈ name := by
  induction names with
  | nil => simp
  | cons name names ih =>
      cases names with
      | nil => simp
      | cons next names =>
          rw [List.intercalate_cons_cons, List.mem_append, List.mem_append, ih,
            List.exists_mem_cons_iff]
          have hslash : backslash ∉ [slash] := by decide
          simp only [hslash, or_false, List.exists_mem_cons_iff]

theorem turned_eq_render {names : List OsString} (h : Unslanted (names.map .normal)) :
    turned .linux (names.map .normal) = Platform.linux.render (names.map .normal) := by
  have hmem : backslash ∉ Platform.linux.render (names.map .normal) := by
    rw [render_normal]
    intro hmem
    obtain ⟨name, hname, hback⟩ := (backslash_mem_intercalate names).mp hmem
    exact h name (List.mem_map_of_mem hname) hback
  rw [turned]
  conv_rhs => rw [← List.map_id (Platform.linux.render _)]
  apply List.map_congr_left
  intro b hb
  rw [if_neg]
  · rfl
  · rintro rfl
    exact hmem hb

theorem backslash_notMem_turned (path : List Component) : backslash ∉ turned platform path := by
  intro h
  obtain ⟨b, _, hb⟩ := List.mem_map.mp h
  split at hb
  · exact absurd hb (by decide)
  · next hne => exact hne hb

theorem unslanted_components {text : OsString} (h : backslash ∉ text) :
    Unslanted (Platform.linux.components text) :=
  fun _ hname hback => h (mem_text_of_mem_components hname hback)

theorem WellFormed.lists_iff (h : WellFormed platform root) {x : Text} :
    Lists platform [] root x ↔
      ∃ p content, p ≠ [] ∧ root.find p = some (.file content) ∧ relativeText platform p = some x ∧
    x.bytes ≠ installationFile := by
  simp only [Lists, h.distinct.reaches_iff, List.nil_append]

theorem WellFormed.allReadable_iff (h : WellFormed platform root) :
    AllReadable platform [] root ↔
      ∀ p node, p ≠ [] → root.find p = some node → Readable platform p node := by
  simp only [AllReadable, h.distinct.reaches_iff, List.nil_append]

theorem statText_eq_file {text : OsString} :
    statText platform root text = some (.file content) ↔
      stat root (platform.components text) = some (.file content) ∧
    demandsDir platform text = false := by
  rw [statText, Option.filter_eq_some_iff]
  apply and_congr_right
  intro _
  simp [Node.isDir, Node.follow]

/-- Where nothing is a link, what is found is what is there. -/
theorem find_of_stat {node : Tree} (hreadable : Readable platform p node)
    (hfind : root.find p = some node) : stat root p = some node := by
  rw [stat, hfind]
  cases node with
  | file | dir => rfl
  | link | other => exact hreadable.elim

structure Verified (platform : Platform) (lib : Libraries) (root : Tree) (artifact : ArtifactSpec)
    (installation : InstallationManifest) : Prop where
  wellFormed : WellFormed platform root
  inventory : inventoryOf lib root = some installation
  intact : Intact platform lib root artifact installation

namespace Verified

theorem readable (h : Verified platform lib root artifact installation) {p : List Component}
    {node : Tree} (hp : p ≠ []) (hfind : root.find p = some node) : Readable platform p node :=
  h.wellFormed.allReadable_iff.mp h.intact.readable p node hp hfind

theorem marker (h : Verified platform lib root artifact installation) :
    ∃ content, root.find [.normal installationFile] = some (.file content) := by
  have hinventory := h.inventory
  rw [inventoryOf, Option.bind_eq_some_iff] at hinventory
  obtain ⟨content, hbytes, _⟩ := hinventory
  rw [Option.bind_eq_some_iff] at hbytes
  obtain ⟨node, hfind, hnode⟩ := hbytes
  have hreadable := h.readable (List.cons_ne_nil _ _) hfind
  cases node with
  | file content => exact ⟨content, hfind⟩
  | dir | other => cases hnode
  | link => exact hreadable.elim

theorem not_file (h : Verified platform lib root artifact installation) (content : Bytes) :
    root ≠ .file content := by
  rintro rfl
  obtain ⟨_, hmarker⟩ := h.marker
  cases hmarker

theorem find_eq_file (h : Verified platform lib root artifact installation) {text : OsString}
    (hfile : statText platform root text = some (.file content)) :
    platform.components text ≠ [] ∧
    root.find (platform.components text) = some (.file content) := by
  obtain ⟨hstat, _⟩ := statText_eq_file.mp hfile
  rw [stat, Option.bind_eq_some_iff] at hstat
  obtain ⟨node, hfind, hfollow⟩ := hstat
  have hne : platform.components text ≠ [] := by
    intro hnil
    rw [hnil] at hfind
    cases hfind
    obtain ⟨_, hmarker⟩ := h.marker
    cases root with
    | file content => exact h.not_file content rfl
    | dir | other => cases hfollow
    | link target =>
        rw [Node.follow] at hfollow
        rw [hfollow] at hmarker
        cases hmarker
  refine ⟨hne, ?_⟩
  have hreadable := h.readable hne hfind
  cases node with
  | file => rw [hfind]; exact hfollow
  | dir | other => cases hfollow
  | link => exact hreadable.elim

end Verified

/-- The only path whose text is the marker's name is the marker's. -/
theorem eq_marker_of_render {names : List OsString} (hne : names ≠ [])
    (hplain : ∀ name ∈ names, Ordinary platform name)
    (h : platform.render (names.map .normal) = installationFile) :
    names.map .normal = [Component.normal installationFile] := by
  have hcomponents := components_render hne hplain
  rw [h] at hcomponents
  rw [← hcomponents]
  cases platform <;> decide

def Spells (root : Tree) (spelling : OsString) : Prop :=
  ∃ p content, p ≠ [] ∧ root.find p = some (.file content) ∧ turned .linux p = spelling

namespace Verified

variable {artifact' : ArtifactSpec} (h : Verified .linux lib root artifact installation)
  (h' : Verified .linux lib tree artifact' installation)
  (hmarker : tree.find [.normal installationFile] = root.find [.normal installationFile])

include h

theorem listed_of_file (hp : p ≠ []) (hfile : root.find p = some (.file content))
    (hspelling : turned .linux p ≠ installationFile) :
    ∃ entry ∈ installation.files, relativeText .linux p = some entry.path := by
  obtain ⟨text, htext⟩ := h.readable hp hfile
  have hbytes := (relativeText_eq_some.mp htext).2
  obtain ⟨entry, hentry, hpath⟩ := List.mem_map.mp
    ((h.intact.listed text).mpr
      (h.wellFormed.lists_iff.mpr ⟨p, content, hp, hfile, htext, hbytes ▸ hspelling⟩))
  exact ⟨entry, hentry, hpath ▸ htext⟩

include h' hmarker

/-- Two trees under one inventory hold the same regular files on paths without a backslash. -/
theorem same_file (hinj : Function.Injective lib.sha256) (hp : p ≠ []) (hplain : Unslanted p)
    (hfile : root.find p = some (.file content)) : tree.find p = some (.file content) := by
  obtain ⟨names, rfl, hnames⟩ := h.wellFormed.exists_names hfile
  have hne : names ≠ [] := fun hnil => hp (hnil ▸ rfl)
  by_cases hspelling : turned .linux (names.map .normal) = installationFile
  · rw [turned_eq_render hplain] at hspelling
    rw [eq_marker_of_render hne hnames hspelling] at hfile ⊢
    rw [hmarker, hfile]
  · obtain ⟨entry, hentry, hpath⟩ := h.listed_of_file hp hfile hspelling
    have hbytes : entry.path.bytes = Platform.linux.render (names.map .normal) := by
      rw [(relativeText_eq_some.mp hpath).2, turned_eq_render hplain]
    have hcomponents : Platform.linux.components entry.path.bytes = names.map .normal := by
      rw [hbytes, components_render hne hnames]
    obtain ⟨_, mine, hmine, _, hdigest⟩ := h.intact.checks entry hentry
    obtain ⟨_, theirs, htheirs, _, hdigest'⟩ := h'.intact.checks entry hentry
    have hfound := (h.find_eq_file hmine).2
    have hfound' := (h'.find_eq_file htheirs).2
    rw [hcomponents] at hfound hfound'
    rw [hfile] at hfound
    cases hfound
    rw [hfound', hinj (hdigest'.trans hdigest.symm)]

theorem same_spellings {spelling : OsString} (hspells : Spells root spelling) :
    Spells tree spelling := by
  obtain ⟨p, content, hp, hfile, rfl⟩ := hspells
  by_cases hspelling : turned .linux p = installationFile
  · obtain ⟨marker, hfound⟩ := h.marker
    rw [← hmarker] at hfound
    refine ⟨_, marker, List.cons_ne_nil _ _, hfound, ?_⟩
    rw [hspelling]
    decide
  · obtain ⟨entry, hentry, hpath⟩ := h.listed_of_file hp hfile hspelling
    obtain ⟨q, found, hq, hfound, htext, _⟩ :=
      h'.wellFormed.lists_iff.mp ((h'.intact.listed entry.path).mp (List.mem_map_of_mem hentry))
    refine ⟨q, found, hq, hfound, ?_⟩
    rw [← (relativeText_eq_some.mp htext).2, (relativeText_eq_some.mp hpath).2]

end Verified

/-- What a tree must keep of a verified one to pass for it. Nothing is asked of the regular
files whose paths have a backslash but how they read with slashes. -/
structure PassesFor (root tree : Tree) (artifact : ArtifactSpec) : Prop where
  readable : ∀ p node, p ≠ [] → tree.find p = some node → Readable .linux p node
  plain : ∀ p, p ≠ [] → Unslanted p → ∀ content, root.find p = some (.file content) ↔
    tree.find p = some (.file content)
  spellings : ∀ spelling, Spells root spelling ↔ Spells tree spelling
  required : ∀ path ∈ artifact.requiredPaths, statText .linux tree path.bytes ≠ none

theorem verifies_iff_passes (hinj : Function.Injective lib.sha256)
    (hroot : WellFormed .linux root) (htree : WellFormed .linux tree)
    (hok : verifyObject .linux lib root artifact = .ok ())
    (hmarker : tree.find [.normal installationFile] = root.find [.normal installationFile]) :
    verifyObject .linux lib tree artifact = .ok () ↔ PassesFor root tree artifact := by
  obtain ⟨installation, hinventory, hintact⟩ := verifyObject_ok_iff.mp hok
  have hverified : Verified .linux lib root artifact installation := ⟨hroot, hinventory, hintact⟩
  have hinventory' : inventoryOf lib tree = some installation := by
    rw [← hinventory, inventoryOf, inventoryOf, hmarker]
  rw [verifyObject_ok_iff]
  constructor
  · rintro ⟨found, hfound, hintact'⟩
    rw [hinventory'] at hfound
    cases hfound
    have hverified' : Verified .linux lib tree artifact installation :=
      ⟨htree, hinventory', hintact'⟩
    refine ⟨fun p node => hverified'.readable, fun p hp hplain content => ?_, fun spelling => ?_,
      hintact'.required⟩
    · exact ⟨hverified.same_file hverified' hmarker hinj hp hplain,
        hverified'.same_file hverified hmarker.symm hinj hp hplain⟩
    · exact ⟨hverified.same_spellings hverified' hmarker,
        hverified'.same_spellings hverified hmarker.symm⟩
  · intro hpasses
    have hlisted (x : Text) : Lists .linux [] root x ↔ Lists .linux [] tree x := by
      rw [hroot.lists_iff, htree.lists_iff]
      constructor
      · rintro ⟨p, content, hp, hfile, htext, hne⟩
        obtain ⟨q, found, hq, hfound, hturned⟩ :=
          (hpasses.spellings x.bytes).mp
            ⟨p, content, hp, hfile, (relativeText_eq_some.mp htext).2.symm⟩
        obtain ⟨text, htext⟩ := hpasses.readable q _ hq hfound
        have heq : text = x := Text.ext ((relativeText_eq_some.mp htext).2.trans hturned)
        exact ⟨q, found, hq, hfound, heq ▸ htext, hne⟩
      · rintro ⟨p, content, hp, hfile, htext, hne⟩
        obtain ⟨q, found, hq, hfound, hturned⟩ :=
          (hpasses.spellings x.bytes).mpr
            ⟨p, content, hp, hfile, (relativeText_eq_some.mp htext).2.symm⟩
        obtain ⟨text, htext⟩ := hverified.readable hq hfound
        have heq : text = x := Text.ext ((relativeText_eq_some.mp htext).2.trans hturned)
        exact ⟨q, found, hq, hfound, heq ▸ htext, hne⟩
    refine ⟨installation, hinventory', hintact.identity, fun entry hentry => ?_, hintact.nodup,
      htree.allReadable_iff.mpr hpasses.readable, fun x => (hintact.listed x).trans (hlisted x),
        hpasses.required⟩
    obtain ⟨hsafe, content, hfile, hsize, hdigest⟩ := hintact.checks entry hentry
    obtain ⟨hne, hfind⟩ := hverified.find_eq_file hfile
    -- A listed name has no backslash, so its file is one of those that both trees share.
    have hunslanted : Unslanted (Platform.linux.components entry.path.bytes) := by
      obtain ⟨q, _, _, _, htext, _⟩ :=
        hroot.lists_iff.mp ((hintact.listed entry.path).mp (List.mem_map_of_mem hentry))
      apply unslanted_components
      rw [(relativeText_eq_some.mp htext).2]
      exact backslash_notMem_turned q
    have hfind' := (hpasses.plain _ hne hunslanted content).mp hfind
    refine ⟨hsafe, content, statText_eq_file.mpr ⟨?_, (statText_eq_file.mp hfile).2⟩, hsize,
      hdigest⟩
    exact find_of_stat (hpasses.readable _ _ hne hfind') hfind'

/-- Two trees differ in which regular files they hold, in the bytes of one, or by a link in the
second. -/
def Differs (root tree : Tree) : Prop :=
  (∃ p, p ≠ [] ∧
    ¬ ((∃ content, root.find p = some (.file content)) ↔
    ∃ content, tree.find p = some (.file content))) ∨
    (∃ p content content', p ≠ [] ∧ root.find p = some (.file content) ∧
      tree.find p = some (.file content') ∧
      content ≠ content') ∨
    ∃ p target, p ≠ [] ∧ tree.find p = some (.link target)

/-- A change to a verified object is noticed unless the changed tree passes for it. -/
theorem verification_detects_changes (hinj : Function.Injective lib.sha256)
    (hroot : WellFormed .linux root) (htree : WellFormed .linux tree)
    (hok : verifyObject .linux lib root artifact = .ok ())
    (hmarker : tree.find [.normal installationFile] = root.find [.normal installationFile]) :
    (Differs root tree → ∃ error, verifyObject .linux lib tree artifact = .error error) ↔
      (Differs root tree → ¬ PassesFor root tree artifact) := by
  apply imp_congr_right
  intro _
  rw [← verifies_iff_passes hinj hroot htree hok hmarker]
  cases verifyObject .linux lib tree artifact with
  | ok _ => simp
  | error error => simp

theorem WellFormed.of_entries {entries : List (Component × Tree)} (hroot : root.entries = entries)
    (hnodup : (entries.map Prod.fst).Nodup)
    (hnamed : ∀ e ∈ entries, ∃ name, Ordinary platform name ∧ e.1 = .normal name)
    (hbelow : ∀ e ∈ entries, WellFormed platform e.2) : WellFormed platform root := by
  subst hroot
  have hchild {x : Component} {p : List Component} {node : Tree}
      (hfind : root.find (x :: p) = some node) :
      ∃ child, WellFormed platform child ∧ child.find p = some node := by
    rw [Node.find_cons, Option.bind_eq_some_iff] at hfind
    obtain ⟨child, hchild, hfind⟩ := hfind
    exact ⟨child, hbelow _ ((Node.lookup_eq_some_of_nodup hnodup).mp hchild), hfind⟩
  constructor
  · intro p node hfind
    cases p with
    | nil => cases hfind; exact hnodup
    | cons x p =>
        obtain ⟨child, hwf, hfind⟩ := hchild hfind
        exact hwf.distinct p node hfind
  · intro p node hfind
    cases p with
    | nil => cases hfind; exact hnamed
    | cons x p =>
        obtain ⟨child, hwf, hfind⟩ := hchild hfind
        exact hwf.named p node hfind

theorem WellFormed.of_leaf (h : root.entries = []) : WellFormed platform root :=
  .of_entries h List.nodup_nil (fun _ he => absurd he List.not_mem_nil) fun _ he =>
    absurd he List.not_mem_nil

def nibble (n : Nat) : UInt8 := UInt8.ofNat (97 + n)

theorem nibble_toNat {n : Nat} (h : n < 16) : (nibble n).toNat = 97 + n :=
  UInt8.toNat_ofNat_of_lt' (by norm_num [UInt8.size]; omega)

def spelled (bytes : Bytes) : OsString :=
  bytes.flatMap fun b => [nibble (b.toNat / 16), nibble (b.toNat % 16)]

theorem isUtf8_spelled (bytes : Bytes) : isUtf8 (spelled bytes) = true := by
  have hletter {n : Nat} (hn : n < 16) : nibble n < 128 := by
    rw [UInt8.lt_iff_toNat_lt, nibble_toNat hn]
    exact Nat.lt_of_lt_of_eq (show 97 + n < 128 by omega) rfl
  induction bytes with
  | nil => rfl
  | cons b bytes ih =>
      have hb := b.toNat_lt
      rw [spelled, List.flatMap_cons, List.cons_append, List.cons_append, List.nil_append,
        isUtf8_ascii (hletter (by omega)), isUtf8_ascii (hletter (by omega))]
      exact ih

theorem spelled_injective :
    Function.Injective fun bytes => (⟨spelled bytes, isUtf8_spelled bytes⟩ : Text) := by
  intro first second h
  have hspelled : spelled first = spelled second := congrArg Text.bytes h
  clear h
  induction first generalizing second with
  | nil =>
      cases second with
      | nil => rfl
      | cons b second => cases hspelled
  | cons a first ih =>
      cases second with
      | nil => cases hspelled
      | cons b second =>
          simp only [spelled, List.flatMap_cons, List.cons_append, List.nil_append,
            List.cons.injEq] at hspelled
          obtain ⟨hhigh, hlow, hrest⟩ := hspelled
          have ha := a.toNat_lt
          have hb := b.toNat_lt
          have hhigh' := congrArg UInt8.toNat hhigh
          have hlow' := congrArg UInt8.toNat hlow
          rw [nibble_toNat (by omega), nibble_toNat (by omega)] at hhigh' hlow'
          have hnat : a.toNat = b.toNat := by omega
          rw [ih hrest, UInt8.toNat_inj.mp hnat]

def literal (s : String) (h : ((ascii s).all (· < 128)) = true := by decide) : Text :=
  ⟨ascii s, isUtf8_of_ascii h⟩

def spelledLibraries (encode : InstallationManifest → Bytes)
    (decode : Bytes → Option InstallationManifest)
    (entries : Bytes → Option (List (Option Entry))) : Libraries where
  sha256 := fun bytes => ⟨spelled bytes, isUtf8_spelled bytes⟩
  encode := encode
  decode := decode
  entries := entries
  parseUrl := fun _ => some ⟨literal "https", some (literal "github.com")⟩

def fixtureSpec (size : Nat) (sha256 : Text) (requiredPaths : List Text) : ArtifactSpec where
  id := literal "fixture"
  kind := "runtime"
  platforms := ["fixture"]
  url := literal "https://github.com/example/fixture"
  size := size
  sha256 := sha256
  archiveRoot := literal "fixture"
  maxUnpackedBytes := 1024
  requiredPaths := requiredPaths
  licenses := []

def namedDir (entries : List (String × Tree)) : Tree :=
  .dir (entries.map fun e => (.normal (ascii e.1), e.2))

def fixtureInventory : InstallationManifest :=
  ⟨1, literal "fixture", literal "digest", [⟨literal "a/b", 1, ⟨spelled [7], isUtf8_spelled [7]⟩⟩]⟩

def fixtureLibraries : Libraries :=
  spelledLibraries (fun _ => []) (fun _ => some fixtureInventory) fun _ => none

theorem wellFormed_namedDir {entries : List (String × Tree)} (names : List String)
    (hnames : entries.map Prod.fst = names) (hnodup : (names.map ascii).Nodup)
    (hplain : ∀ name ∈ names, Ordinary platform (ascii name))
    (hbelow : ∀ e ∈ entries, WellFormed platform e.2) : WellFormed platform (namedDir entries) := by
  subst hnames
  apply WellFormed.of_entries rfl
  · have hmap : (namedDir entries).entries.map Prod.fst =
        ((entries.map Prod.fst).map ascii).map Component.normal := by
      rw [List.map_map, List.map_map]
      exact List.map_map
    rw [hmap]
    exact hnodup.map fun _ _ heq => Component.normal.inj heq
  · intro e he
    obtain ⟨e', he', rfl⟩ := List.mem_map.mp he
    exact ⟨_, hplain _ (List.mem_map_of_mem he'), rfl⟩
  · intro e he
    obtain ⟨e', he', rfl⟩ := List.mem_map.mp he
    exact hbelow e' he'

def objectWith (content : Bytes) : Tree :=
  namedDir
    [(".impossible-voice-installation.json", .file []), ("a", namedDir [("b", .file content)])]

def objectBeside (content : Bytes) : Tree :=
  namedDir
    [(".impossible-voice-installation.json", .file []), ("a", namedDir [("b", .file [7])]),
    ("a\\b", .file content)]

theorem wellFormed_inner (content : Bytes) :
    WellFormed .linux (namedDir [("b", .file content)]) := by
  apply wellFormed_namedDir ["b"] rfl (by decide) (by decide)
  intro e he
  rw [List.mem_singleton.mp he]
  exact .of_leaf rfl

theorem wellFormed_objectWith (content : Bytes) : WellFormed .linux (objectWith content) := by
  apply wellFormed_namedDir [".impossible-voice-installation.json", "a"] rfl (by decide) (by decide)
  intro e he
  simp only [List.mem_cons, List.not_mem_nil, or_false] at he
  rcases he with rfl | rfl
  · exact .of_leaf rfl
  · exact wellFormed_inner content

theorem wellFormed_objectBeside (content : Bytes) : WellFormed .linux (objectBeside content) := by
  apply wellFormed_namedDir [".impossible-voice-installation.json", "a", "a\\b"] rfl
    (by decide) (by decide)
  intro e he
  simp only [List.mem_cons, List.not_mem_nil, or_false] at he
  rcases he with rfl | rfl | rfl
  · exact .of_leaf rfl
  · exact wellFormed_inner [7]
  · exact .of_leaf rfl

theorem differs_objectBeside (content : Bytes) :
    Differs (objectWith [7]) (objectBeside content) := by
  have hmarker :
      (Component.normal (ascii "a\\b") == .normal (ascii ".impossible-voice-installation.json")) =
      false := by decide
  have hdir : (Component.normal (ascii "a\\b") == .normal (ascii "a")) = false := by decide
  have hfile : (objectBeside content).find [.normal (ascii "a\\b")] = some (.file content) := by
    simp [Node.find, objectBeside, namedDir, Node.entries, Node.follow, List.lookup_cons, hmarker,
      hdir]
  refine Or.inl ⟨[.normal (ascii "a\\b")], List.cons_ne_nil _ _, fun h => ?_⟩
  obtain ⟨_, habsent⟩ := h.mpr ⟨content, hfile⟩
  cases habsent

/-- A file whose name reads as a recorded path can be added without being noticed. -/
theorem an_added_file_goes_unnoticed :
    Function.Injective fixtureLibraries.sha256 ∧ WellFormed .linux (objectWith [7]) ∧
    WellFormed .linux (objectBeside [8]) ∧
    verifyObject .linux fixtureLibraries (objectWith [7])
      (fixtureSpec 1 (literal "digest") [literal "a/b"]) = .ok () ∧
    (objectBeside [8]).find [.normal installationFile] =
      (objectWith [7]).find [.normal installationFile] ∧
    Differs (objectWith [7]) (objectBeside [8]) ∧
    verifyObject .linux fixtureLibraries (objectBeside [8])
      (fixtureSpec 1 (literal "digest") [literal "a/b"]) = .ok () :=
  ⟨spelled_injective, wellFormed_objectWith [7],
    wellFormed_objectBeside [8], by decide +kernel, rfl,
    differs_objectBeside [8], by decide +kernel⟩

/-- A changed byte is noticed. -/
theorem a_changed_byte_is_noticed :
    ∃ error,
      verifyObject .linux fixtureLibraries (objectWith [9])
      (fixtureSpec 1 (literal "digest") [literal "a/b"]) = .error error := by
  have hpath : ([.normal (ascii "a"), .normal (ascii "b")] : List Component) ≠ [] :=
    List.cons_ne_nil _ _
  refine (verification_detects_changes spelled_injective (wellFormed_objectWith [7])
    (wellFormed_objectWith [9])
    (by decide +kernel) rfl).mpr (fun _ hpasses => ?_) ?_
  · have hplain : Unslanted [.normal (ascii "a"), .normal (ascii "b")] := by
      intro name hname
      simp only [List.mem_cons, Component.normal.injEq, List.not_mem_nil, or_false] at hname
      rcases hname with rfl | rfl <;> decide
    have hfile := (hpasses.plain _ hpath hplain [7]).mp rfl
    cases hfile
  · exact Or.inr (Or.inl ⟨_, [7], [9], hpath, rfl, rfl, by decide⟩)

end ImpossibleVoice.Artifacts

import ImpossibleVoice.Artifacts.Verify

namespace ImpossibleVoice.Artifacts

open Lib

variable {platform : Platform} {lib : Libraries} {root node directory : Tree}
  {artifact : ArtifactSpec} {path p q : List Component}
  {pending pending' : Pending} {files files' : Finset Text} {x : Text}

def Readable (platform : Platform) (path : List Component) : Tree → Prop
  | .file _ => ∃ text, relativeText platform path = some text
  | .dir _ => True
  | .link _ | .other => False

/-- A regular file below a directory that the inventory lists, under the name `x`. -/
def Lists (platform : Platform) (path : List Component) (directory : Tree) (x : Text) : Prop :=
  ∃ p content, p ≠ [] ∧ directory.Reaches p (.file content) ∧
    relativeText platform (path ++ p) = some x ∧ x.bytes ≠ installationFile

def AllReadable (platform : Platform) (path : List Component) (directory : Tree) : Prop :=
  ∀ p node, p ≠ [] → directory.Reaches p node → Readable platform (path ++ p) node

def subdirectories (path : List Component) (entries : List (Component × Tree)) : Pending :=
  entries.filterMap fun e => match e.2 with
    | .dir _ => some (path ++ [e.1], e.2)
    | _ => none

theorem inventoryEntries_ok {entries : List (Component × Tree)}
    (h : inventoryEntries platform path entries pending files = .ok (pending', files')) :
    (∀ e ∈ entries, Readable platform (path ++ [e.1]) e.2) ∧
    pending' = (subdirectories path entries).reverse ++ pending ∧ ∀ x, x ∈ files' ↔
      x ∈ files ∨
    ∃ name content, (name, .file content) ∈ entries ∧
    relativeText platform (path ++ [name]) = some x ∧ x.bytes ≠ installationFile := by
  induction entries generalizing pending files with
  | nil =>
      cases h
      simp [subdirectories]
  | cons e entries ih =>
      obtain ⟨name, node⟩ := e
      cases node with
      | link target => cases h
      | other => cases h
      | dir es =>
          rw [inventoryEntries] at h
          obtain ⟨hreadable, hpending, hfiles⟩ := ih h
          refine ⟨?_, ?_, ?_⟩
          · intro e he
            rcases List.mem_cons.mp he with rfl | he
            · trivial
            · exact hreadable e he
          · rw [hpending, subdirectories, subdirectories, List.filterMap_cons]
            simp
          · intro x
            rw [hfiles]
            simp
      | file content =>
          rw [inventoryEntries] at h
          cases htext : relativeText platform (path ++ [name]) with
          | none => simp [htext] at h
          | some text =>
              simp only [htext] at h
              obtain ⟨hreadable, hpending, hfiles⟩ := ih h
              refine ⟨?_, ?_, ?_⟩
              · intro e he
                rcases List.mem_cons.mp he with rfl | he
                · exact ⟨text, htext⟩
                · exact hreadable e he
              · rw [hpending, subdirectories, subdirectories, List.filterMap_cons]
              · intro x
                rw [hfiles]
                constructor
                · rintro (hx | ⟨name', content', hmem, hname, hne⟩)
                  · split at hx
                    · exact Or.inl hx
                    · next hne =>
                        rcases Finset.mem_insert.mp hx with rfl | hx
                        · exact Or.inr ⟨name, content, List.mem_cons_self, htext, hne⟩
                        · exact Or.inl hx
                  · exact Or.inr ⟨name', content', List.mem_cons_of_mem _ hmem, hname, hne⟩
                · rintro (hx | ⟨name', content', hmem, hname, hne⟩)
                  · left
                    split
                    · exact hx
                    · exact Finset.mem_insert_of_mem hx
                  · rcases List.mem_cons.mp hmem with heq | hmem
                    · cases heq
                      rw [htext] at hname
                      cases hname
                      left
                      rw [if_neg hne]
                      exact Finset.mem_insert_self _ _
                    · exact Or.inr ⟨name', content', hmem, hname, hne⟩

theorem inventoryEntries_total {entries : List (Component × Tree)}
    (h : ∀ e ∈ entries, Readable platform (path ++ [e.1]) e.2) (pending : Pending)
    (files : Finset Text) :
    ∃ result, inventoryEntries platform path entries pending files = .ok result := by
  induction entries generalizing pending files with
  | nil => exact ⟨_, rfl⟩
  | cons e entries ih =>
      obtain ⟨name, node⟩ := e
      have hrest : ∀ e ∈ entries, Readable platform (path ++ [e.1]) e.2 :=
        fun e he => h e (List.mem_cons_of_mem _ he)
      have hnode := h _ List.mem_cons_self
      cases node with
      | link target => exact hnode.elim
      | other => exact hnode.elim
      | dir es => exact ih hrest _ _
      | file content =>
          obtain ⟨text, htext⟩ := hnode
          rw [inventoryEntries]
          simp only [htext]
          exact ih hrest _ _

theorem reaches_below (hentries : ∀ e ∈ directory.entries, Readable platform (path ++ [e.1]) e.2)
    (hp : p ≠ []) :
    directory.Reaches p node ↔
      (∃ name, p = [name] ∧ (name, node) ∈ directory.entries) ∨
    ∃ name child, (path ++ [name], child) ∈ subdirectories path directory.entries ∧
    (name, child) ∈ directory.entries ∧ ∃ rest, rest ≠ [] ∧ p = name :: rest ∧
    child.Reaches rest node := by
  cases p with
  | nil => exact absurd rfl hp
  | cons name rest =>
      constructor
      · rintro ⟨child, hchild, hreach⟩
        cases rest with
        | nil =>
            rw [Node.Reaches] at hreach
            exact Or.inl ⟨name, rfl, hreach ▸ hchild⟩
        | cons next rest =>
            refine Or.inr ⟨name, child, ?_, hchild, next :: rest, List.cons_ne_nil _ _, rfl, hreach⟩
            have hreadable := hentries _ hchild
            obtain ⟨grandchild, hgrandchild, _⟩ := hreach
            cases child with
            | dir es => exact List.mem_filterMap.mpr ⟨_, hchild, rfl⟩
            | file content => cases hgrandchild
            | link target => exact hreadable.elim
            | other => exact hreadable.elim
      · rintro (⟨name', hname, hmem⟩ | ⟨name', child, _, hmem, rest', _, hrest, hreach⟩)
        · cases hname
          exact ⟨node, hmem, rfl⟩
        · cases hrest
          exact ⟨child, hmem, hreach⟩

theorem mem_subdirectories {entries : List (Component × Tree)} {e : List Component × Tree} :
    e ∈ subdirectories path entries ↔
      ∃ name es, e = (path ++ [name], .dir es) ∧ (name, .dir es) ∈ entries := by
  rw [subdirectories, List.mem_filterMap]
  constructor
  · rintro ⟨⟨name, node⟩, hmem, hsome⟩
    cases node with
    | dir es =>
        cases hsome
        exact ⟨name, es, rfl, hmem⟩
    | file | link | other => cases hsome
  · rintro ⟨name, es, rfl, hmem⟩
    exact ⟨_, hmem, rfl⟩

theorem allReadable_iff :
    AllReadable platform path directory ↔
      (∀ e ∈ directory.entries, Readable platform (path ++ [e.1]) e.2) ∧
    ∀ e ∈ subdirectories path directory.entries, AllReadable platform e.1 e.2 := by
  constructor
  · intro h
    refine ⟨fun e he => h [e.1] e.2 (List.cons_ne_nil _ _) ⟨e.2, he, rfl⟩, ?_⟩
    intro e he p node hp hreach
    obtain ⟨name, es, rfl, hmem⟩ := mem_subdirectories.mp he
    have hnode := h (name :: p) node (List.cons_ne_nil _ _) ⟨_, hmem, hreach⟩
    rwa [List.append_cons] at hnode
  · rintro ⟨hentries, hbelow⟩ p node hp hreach
    rcases (reaches_below hentries hp).mp
      hreach with ⟨name, rfl, hmem⟩ | ⟨name, child, hsub, _, rest, hrest, rfl, hchild⟩
    · exact hentries _ hmem
    · rw [List.append_cons]
      exact hbelow _ hsub rest node hrest hchild

theorem lists_iff (hentries : ∀ e ∈ directory.entries, Readable platform (path ++ [e.1]) e.2) :
    Lists platform path directory x ↔ (∃ name content, (name, .file content) ∈ directory.entries ∧
      relativeText platform (path ++ [name]) = some x ∧ x.bytes ≠ installationFile) ∨
      ∃ e ∈ subdirectories path directory.entries, Lists platform e.1 e.2 x := by
  constructor
  · rintro ⟨p, content, hp, hreach, htext, hne⟩
    rcases (reaches_below hentries hp).mp
      hreach with ⟨name, rfl, hmem⟩ | ⟨name, child, hsub, _, rest, hrest, rfl, hchild⟩
    · exact Or.inl ⟨name, content, hmem, htext, hne⟩
    · rw [List.append_cons] at htext
      exact Or.inr ⟨_, hsub, rest, content, hrest, hchild, htext, hne⟩
  · rintro (⟨name, content, hmem, htext, hne⟩ | ⟨e, he, p, content, hp, hreach, htext, hne⟩)
    · exact ⟨[name], content, List.cons_ne_nil _ _, ⟨_, hmem, rfl⟩, htext, hne⟩
    · obtain ⟨name, es, rfl, hmem⟩ := mem_subdirectories.mp he
      refine ⟨name :: p, content, List.cons_ne_nil _ _, ⟨_, hmem, hreach⟩, ?_, hne⟩
      rwa [List.append_cons]

theorem inventoryLoop_ok {fuel : Nat} (h : inventoryLoop platform fuel pending files = .ok files') :
    (∀ e ∈ pending, AllReadable platform e.1 e.2) ∧ ∀ x, x ∈ files' ↔
      x ∈ files ∨ ∃ e ∈ pending, Lists platform e.1 e.2 x := by
  induction fuel generalizing pending files with
  | zero =>
      cases pending with
      | nil => cases h; simp
      | cons e pending => cases h
  | succ fuel ih =>
      cases pending with
      | nil => cases h; simp
      | cons e pending =>
          obtain ⟨path, directory⟩ := e
          rw [inventoryLoop] at h
          cases hentries : inventoryEntries platform path directory.entries pending files with
          | error error => rw [hentries] at h; cases h
          | ok result =>
              obtain ⟨pending', files''⟩ := result
              rw [hentries] at h
              obtain ⟨hreadable, rfl, hfiles⟩ := inventoryEntries_ok hentries
              obtain ⟨hbelow, hresult⟩ := ih h
              constructor
              · intro e he
                rcases List.mem_cons.mp he with rfl | he
                · refine allReadable_iff.mpr ⟨hreadable, fun e he => hbelow e ?_⟩
                  exact List.mem_append_left _ (List.mem_reverse.mpr he)
                · exact hbelow e (List.mem_append_right _ he)
              · intro x
                rw [hresult, hfiles, List.exists_mem_cons_iff, lists_iff hreadable]
                simp only [List.mem_append, List.mem_reverse, or_and_right, exists_or, or_assoc]

theorem directoriesOf_subdirectories (path : List Component) (entries : List (Component × Tree)) :
    ((subdirectories path entries).map fun e => Node.directoriesOf e.2.entries + 1).sum =
      Node.directoriesOf entries := by
  induction entries with
  | nil => rfl
  | cons e entries ih =>
      obtain ⟨name, node⟩ := e
      cases node with
      | dir es =>
          rw [Node.directoriesOf, Node.directories, ← ih]
          rfl
      | file | link | other =>
          rw [Node.directoriesOf, Node.directories, ← ih, Nat.zero_add]
          rfl

theorem inventoryLoop_total {fuel : Nat} (h : ∀ e ∈ pending, AllReadable platform e.1 e.2)
    (hfuel : (pending.map fun e => Node.directoriesOf e.2.entries + 1).sum ≤ fuel)
    (files : Finset Text) : ∃ files', inventoryLoop platform fuel pending files = .ok files' := by
  induction fuel generalizing pending files with
  | zero =>
      cases pending with
      | nil => exact ⟨_, rfl⟩
      | cons e pending => simp at hfuel
  | succ fuel ih =>
      cases pending with
      | nil => exact ⟨_, rfl⟩
      | cons e pending =>
          obtain ⟨path, directory⟩ := e
          obtain ⟨hentries, hbelow⟩ := allReadable_iff.mp (h _ List.mem_cons_self)
          obtain ⟨⟨pending', files'⟩, hresult⟩ := inventoryEntries_total hentries pending files
          obtain ⟨_, rfl, _⟩ := inventoryEntries_ok hresult
          rw [inventoryLoop, hresult]
          apply ih
          · intro e he
            rcases List.mem_append.mp he with he | he
            · exact hbelow e (List.mem_reverse.mp he)
            · exact h e (List.mem_cons_of_mem _ he)
          · rw [List.map_append, List.sum_append, List.map_reverse, List.sum_reverse,
              directoriesOf_subdirectories]
            rw [List.map_cons, List.sum_cons] at hfuel
            omega

/-- The inventory succeeds when all below the root is readable, and lists each regular file. -/
theorem inventoryFiles_ok_iff :
    inventoryFiles platform root = .ok files ↔ AllReadable platform [] root ∧ ∀ x, x ∈ files ↔
      Lists platform [] root x := by
  have hspec {found : Finset Text} (h : inventoryFiles platform root = .ok found) :
      AllReadable platform [] root ∧ ∀ x, x ∈ found ↔ Lists platform [] root x := by
    obtain ⟨hreadable, hfound⟩ := inventoryLoop_ok h
    refine ⟨hreadable _ List.mem_cons_self, fun x => ?_⟩
    rw [hfound]
    simp
  constructor
  · exact hspec
  · rintro ⟨hreadable, hfiles⟩
    obtain ⟨found, hfound⟩ : ∃ found, inventoryFiles platform root = .ok found := by
      apply inventoryLoop_total
      · intro e he
        rwa [List.mem_singleton.mp he]
      · simp
    rw [hfound, Except.ok.injEq]
    ext x
    rw [(hspec hfound).2, hfiles]

def Checks (platform : Platform) (lib : Libraries) (root : Tree) (entry : InstalledFile) : Prop :=
  safeRelativePath platform entry.path.bytes = .ok () ∧
    ∃ content, statText platform root entry.path.bytes = some (.file content) ∧
    content.length = entry.size ∧ lib.sha256 content = entry.sha256

theorem verifyArchiveFile_ok_iff {found : Option Tree} {size : Nat} {sha256 : Text} :
    verifyArchiveFile lib found size sha256 = .ok () ↔
      ∃ content, found = some (.file content) ∧ content.length = size ∧
    lib.sha256 content = sha256 := by
  constructor
  · intro h
    unfold verifyArchiveFile at h
    split at h
    · cases h
    · next content =>
        split at h
        · cases h
        · next hsize =>
            split at h
            · cases h
            · next hdigest => exact ⟨content, rfl, not_not.mp hsize, not_not.mp hdigest⟩
    · cases h
  · rintro ⟨content, rfl, hsize, hdigest⟩
    rw [verifyArchiveFile, if_neg (not_not.mpr hsize), if_neg (not_not.mpr hdigest)]

theorem verifyFiles_ok_iff {entries : List InstalledFile} :
    verifyFiles platform lib root entries files = .ok files' ↔
      (∀ entry ∈ entries, Checks platform lib root entry) ∧ (entries.map InstalledFile.path).Nodup ∧
    (∀ entry ∈ entries, entry.path ∉ files) ∧
    files' = files ∪ (entries.map InstalledFile.path).toFinset := by
  induction entries generalizing files with
  | nil => simp [verifyFiles, eq_comm]
  | cons entry entries ih =>
      rw [verifyFiles]
      cases hsafe : safeRelativePath platform entry.path.bytes with
      | error error =>
          simp only [bind, Except.bind, reduceCtorEq, false_iff]
          rintro ⟨hchecks, _⟩
          have hchecked := (hchecks entry List.mem_cons_self).1
          rw [hsafe] at hchecked
          cases hchecked
      | ok _ =>
          simp only [bind, Except.bind]
          by_cases hmem : entry.path ∈ files
          · rw [if_pos hmem]
            simp only [reduceCtorEq, false_iff]
            rintro ⟨_, _, hfresh, _⟩
            exact hfresh entry List.mem_cons_self hmem
          · rw [if_neg hmem]
            cases hfile :
              verifyArchiveFile lib (statText platform root entry.path.bytes) entry.size
              entry.sha256 with
            | error error =>
                simp only [reduceCtorEq, false_iff]
                rintro ⟨hchecks, _⟩
                have hchecked := verifyArchiveFile_ok_iff.mpr (hchecks entry List.mem_cons_self).2
                rw [hfile] at hchecked
                cases hchecked
            | ok _ =>
                have hentry : Checks platform lib root entry :=
                  ⟨hsafe, verifyArchiveFile_ok_iff.mp hfile⟩
                simp only [ih, List.map_cons, List.nodup_cons, List.toFinset_cons,
                  List.forall_mem_cons]
                constructor
                · rintro ⟨hchecks, hnodup, hfresh, rfl⟩
                  refine ⟨⟨hentry, hchecks⟩, ⟨?_, hnodup⟩, ⟨hmem, fun e he => ?_⟩, ?_⟩
                  · intro hin
                    obtain ⟨e, he, hpath⟩ := List.mem_map.mp hin
                    exact hfresh e he (hpath ▸ Finset.mem_insert_self _ _)
                  · exact fun hin => hfresh e he (Finset.mem_insert_of_mem hin)
                  · rw [Finset.insert_union, Finset.union_insert]
                · rintro ⟨⟨_, hchecks⟩, ⟨hnew, hnodup⟩, ⟨_, hfresh⟩, rfl⟩
                  refine ⟨hchecks, hnodup, fun e he hin => ?_, ?_⟩
                  · rcases Finset.mem_insert.mp hin with heq | hin
                    · exact hnew (heq ▸ List.mem_map_of_mem he)
                    · exact hfresh e he hin
                  · rw [Finset.insert_union, Finset.union_insert]

structure Identifies (artifact : ArtifactSpec) (installation : InstallationManifest) : Prop where
  schema : installation.schemaVersion = 1
  id : installation.artifactId = artifact.id
  archive : installation.archiveSha256 = artifact.sha256
  files : installation.files ≠ []

structure Intact (platform : Platform) (lib : Libraries) (root : Tree) (artifact : ArtifactSpec)
    (installation : InstallationManifest) : Prop where
  identity : Identifies artifact installation
  checks : ∀ entry ∈ installation.files, Checks platform lib root entry
  nodup : (installation.files.map InstalledFile.path).Nodup
  readable : AllReadable platform [] root
  listed : ∀ x, x ∈ installation.files.map InstalledFile.path ↔ Lists platform [] root x
  required : ∀ path ∈ artifact.requiredPaths, statText platform root path.bytes ≠ none

def inventoryOf (lib : Libraries) (root : Tree) : Option InstallationManifest :=
  ((root.find [.normal installationFile]).bind Node.bytes).bind lib.decode

theorem verifyObject_ok_iff :
    verifyObject platform lib root artifact = .ok () ↔
      ∃ installation, inventoryOf lib root = some installation ∧
    Intact platform lib root artifact installation := by
  rw [verifyObject, inventoryOf]
  cases (root.find [.normal installationFile]).bind Node.bytes with
  | none => simp
  | some marker =>
      simp only [Option.bind_some]
      cases lib.decode marker with
      | none => simp
      | some installation =>
          simp only [Option.some.injEq, exists_eq_left']
          constructor
          · intro h
            split at h
            · cases h
            · next hidentity =>
                simp only [not_or, not_not] at hidentity
                obtain ⟨hschema, hid, harchive, hfiles⟩ := hidentity
                cases hexpected : verifyFiles platform lib root installation.files ∅ with
                | error error => rw [hexpected] at h; cases h
                | ok expected =>
                    cases hactual : inventoryFiles platform root with
                    | error error => rw [hexpected, hactual] at h; cases h
                    | ok actual =>
                        rw [hexpected, hactual] at h
                        simp only [bind, Except.bind] at h
                        split at h
                        · cases h
                        · next heq =>
                            split at h
                            · cases h
                            · next hrequired =>
                                obtain ⟨hchecks, hnodup, _, hset⟩ := verifyFiles_ok_iff.mp hexpected
                                obtain ⟨hreadable, hlists⟩ := inventoryFiles_ok_iff.mp hactual
                                refine ⟨⟨hschema, hid, harchive, hfiles⟩, hchecks, hnodup,
                                  hreadable, fun x => ?_, ?_⟩
                                · rw [← hlists, not_not.mp heq, hset, Finset.empty_union,
                                    List.mem_toFinset]
                                · intro path hpath hnone
                                  have hall :=
                                    List.all_eq_true.mp
                                      (Bool.eq_true_of_not_eq_false hrequired) path hpath
                                  rw [hnone] at hall
                                  cases hall
          · intro h
            rw [if_neg]
            · rw [verifyFiles_ok_iff.mpr ⟨h.checks, h.nodup, fun _ _ => Finset.notMem_empty _, rfl⟩,
                inventoryFiles_ok_iff.mpr ⟨h.readable, fun x => ?_⟩]
              · simp only [bind, Except.bind]
                rw [if_neg (not_not.mpr rfl), if_neg]
                rw [Bool.not_eq_false, List.all_eq_true]
                exact fun path hpath => Option.isSome_iff_ne_none.mpr (h.required path hpath)
              · rw [Finset.empty_union, List.mem_toFinset, h.listed]
            · simp only [not_or, not_not]
              exact ⟨h.identity.schema, h.identity.id, h.identity.archive, h.identity.files⟩

end ImpossibleVoice.Artifacts

import ImpossibleVoice.Artifacts.Readiness

namespace ImpossibleVoice.Artifacts

open Lib

variable {platform : Platform} {lib : Libraries} {root : List Component} {artifact : ArtifactSpec}
  {manifest : CuratedManifest} {tree : Tree}

/-- No setup of a series looks at an entry that opens with a drive. -/
def AllAnchored (platform : Platform) (lib : Libraries) (root : List Component)
    (manifest : CuratedManifest) : Tree → List (Environment × Bool) → Prop
  | _, [] => True
  | tree, run :: runs => Anchors platform (setupFrom platform lib root manifest tree run.1 run.2) ∧
      AllAnchored platform lib root manifest
        (setupFrom platform lib root manifest tree run.1 run.2).tree runs

theorem published_afterSetups (hs : Selection (selection platform manifest))
    (ha : artifact ∈ selection platform manifest) {runs : List (Environment × Bool)}
    (hanchored : AllAnchored platform lib root manifest tree runs) :
    Published (VerifiesAs platform lib artifact) (objectPath platform root artifact) tree
      (afterSetups platform lib root manifest tree runs) := by
  suffices h : ∀ t, AllAnchored platform lib root manifest t runs →
      Published (VerifiesAs platform lib artifact) (objectPath platform root artifact) tree t →
      Published (VerifiesAs platform lib artifact) (objectPath platform root artifact) tree
        (afterSetups platform lib root manifest t runs) from h tree hanchored (Or.inr (Or.inl rfl))
  clear hanchored
  induction runs with
  | nil => exact fun _ _ ht => ht
  | cons run runs ih =>
      rintro t ⟨hrun, hruns⟩ ht
      exact ih _ hruns
        ((setupFrom_extends hrun).published (fun _ _ hop => hop.publishes_object hs ha) ht)

/-- What a setup of the store of `tree` in this environment does after these earlier ones. -/
structure AllOrNothing (platform : Platform) (lib : Libraries) (root : List Component)
    (manifest : CuratedManifest) (tree : Tree) (earlier : List (Environment × Bool))
    (env : Environment) (offline : Bool) : Prop where
  /-- An object comes to its path in one renaming of a staging tree that verifies, an archive to
  its name with the bytes of the manifest. -/
  activates : ∀ artifact ∈ selection platform manifest, ∀ before op, before ++ [op] <+:
      (setupFrom platform lib root manifest (afterSetups platform lib root manifest tree earlier)
        env offline).journal.ops →
    ∃ t t', run FileOp.apply (afterSetups platform lib root manifest tree earlier) before = some t ∧
      op.apply t = some t' ∧
      Activates platform env lib root artifact t op t'
  /-- At every point an object is absent, or what it was, or verifies. -/
  published : ∀ artifact ∈ selection platform manifest, ∀ before, before <+:
      (setupFrom platform lib root manifest (afterSetups platform lib root manifest tree earlier)
        env offline).journal.ops →
    ∃ t, run FileOp.apply (afterSetups platform lib root manifest tree earlier) before = some t ∧
      Published (VerifiesAs platform lib artifact) (objectPath platform root artifact)
        (afterSetups platform lib root manifest tree earlier) t ∧
      Published (VerifiesAs platform lib artifact) (objectPath platform root artifact) tree t
  verified : ∀ report m,
    (setup platform env lib root manifest offline).run
      (.start (afterSetups platform lib root manifest tree earlier)) = .ok report m →
      (∀ kind ∈ kinds, ∃ artifact ∈ selection platform manifest, artifact.kind = kind) ∧
      ∀ artifact ∈ selection platform manifest,
        verifyObjectAt platform lib m.tree (objectPath platform root artifact) artifact = .ok ()

/-- Whatever is in the store, the network delivers and cuts a setup off, and however many were
cut off before it: where no setup looks at an entry that opens with a drive, activation is all
or nothing. -/
theorem activation_is_all_or_nothing (platform : Platform) (lib : Libraries) (root : List Component)
    (manifest : CuratedManifest) (tree : Tree) (earlier : List (Environment × Bool))
    (env : Environment) (offline : Bool)
    (hearlier : AllAnchored platform lib root manifest tree earlier)
    (hanchors : Anchors platform
      (setupFrom platform lib root manifest (afterSetups platform lib root manifest tree earlier)
        env offline)) :
    AllOrNothing platform lib root manifest tree earlier env offline := by
  have hall := setupFrom_extends hanchors
  refine ⟨fun artifact ha before op hbefore => ?_, fun artifact ha before hbefore => ?_,
    fun report m hrun => ?_⟩
  · have hs := selection_of_mem ha
    obtain ⟨l, t, -, -, hrun, hop, happly⟩ := hall.next hbefore
    exact ⟨l.tree, t, hrun, happly, hop.activates hs ha happly⟩
  · have hs := selection_of_mem ha
    obtain ⟨t, hreach, hrun⟩ := hall.point hbefore
    refine ⟨t, hrun, ?_, ?_⟩
    · exact hreach.published (fun _ _ hop => hop.publishes_object hs ha) (Or.inr (Or.inl rfl))
    · exact hreach.published (fun _ _ hop => hop.publishes_object hs ha)
        (published_afterSetups hs ha hearlier)
  · obtain ⟨hs, hverified⟩ :=
      (does_setup manifest offline).ends_of_ok trivial hrun (leaves_of_ok hrun ▸ hanchors)
    refine ⟨fun kind hkind => ?_, hverified⟩
    obtain ⟨artifact, ha, hfind⟩ := hs.complete kind hkind
    exact ⟨artifact, ha, beq_iff_eq.mp (List.find?_some hfind :)⟩

theorem anchored_of_confined {archiveRoot text : OsString} {entry : Entry}
    (hpath : entry.path = some text)
    (hall : ∀ component ∈ platform.components text, ∀ name, component = .normal name →
      Confined platform name) :
    Anchored platform archiveRoot entry := by
  intro path names hentry _ hcomponents name hname
  rw [hpath] at hentry
  cases hentry
  exact hall _ (hcomponents ▸ List.mem_cons_of_mem _ (List.mem_map_of_mem hname)) name rfl

def driveRoot : List Component := [.pathPrefix (ascii "C:"), .normal (ascii "store")]

def emptyDrive : Tree := .dir [(.pathPrefix (ascii "C:"), .dir [])]

def cutDownloads : Environment :=
  { smallDownloads with fault := fun k => if k = 30 then .stops 0 else .none }

theorem anchors_smallArchive {m : Machine}
    (h : (m.looked.all fun l => l.2.path == some (ascii "small/a")) = true) :
    Anchors .windows m := by
  intro l hl
  refine anchored_of_confined (beq_iff_eq.mp (List.all_eq_true.mp h l hl)) fun component hcomponent
    name hname => ?_
  have hcomponents : Platform.windows.components (ascii "small/a") =
      [.normal (ascii "small"), .normal (ascii "a")] := by decide
  rw [hcomponents] at hcomponent
  subst hname
  simp only [List.mem_cons, Component.normal.injEq, List.not_mem_nil, or_false] at hcomponent
  rcases hcomponent with rfl | rfl <;> exact Or.inr (by decide)

/-- After a setup that was cut off, three downloads on Windows are activated or are not there. -/
theorem three_downloads_are_all_or_nothing :
    AllOrNothing .windows smallLibraries driveRoot smallManifest emptyDrive [(cutDownloads, false)]
      smallDownloads false :=
  activation_is_all_or_nothing .windows smallLibraries driveRoot smallManifest emptyDrive
    [(cutDownloads, false)] smallDownloads
    false ⟨anchors_smallArchive (by decide +kernel), trivial⟩
      (anchors_smallArchive (by decide +kernel))

def escapingLibraries : Libraries :=
  { smallLibraries with
    entries := fun _ => some [some ⟨some (ascii "small/a"), .regular, [some [7]]⟩,
      some ⟨some (ascii "small/C:/store/objects/s-aaaaaaaaaaaaaaaa"), .regular, [some [9]]⟩] }

theorem ascii_secondId : ((ascii "s").all (· < 128)) = true := by decide

def secondSpec : ArtifactSpec := smallSpec (literal "s" ascii_secondId) "stt-model"

def fileContent : Tree → Option Bytes
  | .file content => some content
  | _ => none

/-- An entry that opens with a drive puts a file at an object path. -/
theorem a_drive_publishes :
    ¬ AllOrNothing .windows escapingLibraries driveRoot smallManifest emptyDrive []
      smallDownloads false := by
  intro h
  have hsecond : secondSpec ∈ selection .windows smallManifest := by
    rw [selection_smallManifest]
    exact List.mem_cons_of_mem _ List.mem_cons_self
  obtain ⟨t, hrun, hpublished, -⟩ := h.published secondSpec hsecond _ (List.prefix_refl _)
  have hfound :
      ((run FileOp.apply
      (afterSetups .windows escapingLibraries driveRoot smallManifest emptyDrive [])
      (setupFrom .windows escapingLibraries driveRoot smallManifest
        (afterSetups .windows escapingLibraries driveRoot smallManifest emptyDrive [])
          smallDownloads false).journal.ops).bind
      fun t => (t.find (objectPath .windows driveRoot secondSpec)).bind fileContent) =
        some [9] := by decide +kernel
  rw [hrun, Option.bind_some] at hfound
  rcases hpublished with hnone | hkept | ⟨n, hn, hgood⟩
  · rw [hnone] at hfound
    cases hfound
  · have hempty :
        (afterSetups .windows escapingLibraries driveRoot smallManifest emptyDrive []).find
        (objectPath .windows driveRoot secondSpec) = none :=
          Option.isNone_iff_eq_none.mp (by decide +kernel)
    rw [hkept, hempty] at hfound
    cases hfound
  · rw [hn] at hfound
    match n, hfound with
    | .file _, rfl =>
        revert hgood
        rw [VerifiesAs]
        decide +kernel

end ImpossibleVoice.Artifacts

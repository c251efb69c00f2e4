import ImpossibleVoice.Artifacts.Installation

namespace ImpossibleVoice.Artifacts

open Lib

variable {platform : Platform} {env : Environment} {lib : Libraries} {root : List Component}
  {artifact other : ArtifactSpec}
  {artifacts chosen : List ArtifactSpec} {manifest : CuratedManifest} {P : Machine → Prop}
    {t t' tree : Tree} {op : Op}

/-- The artifacts of a manifest that a setup is for; none if the manifest is refused. -/
def selection (platform : Platform) (manifest : CuratedManifest) : List ArtifactSpec :=
  match parseManifest platform manifest with
  | .error _ => []
  | .ok parsed => match selectArtifacts parsed platform with
    | .error _ => []
    | .ok artifacts => artifacts

theorem selection_of_mem (h : artifact ∈ selection platform manifest) :
    Selection (selection platform manifest) := by
  rw [selection] at h ⊢
  cases hparse : parseManifest platform manifest with
  | error error =>
      rw [hparse] at h
      exact absurd h List.not_mem_nil
  | ok parsed =>
      rw [hparse] at h
      cases hselect : selectArtifacts parsed platform with
      | error error =>
          simp only [hselect] at h
          exact absurd h List.not_mem_nil
      | ok artifacts =>
          simp only [hselect]
          exact selection_of_ok hparse hselect

def Sets (platform : Platform) (env : Environment) (lib : Libraries) (root : List Component)
    (chosen : List ArtifactSpec) (t : Tree) (op : Op) : Prop :=
  Prepares root op ∨ ∃ artifact ∈ chosen, Installs platform env lib root artifact t op

theorem Selection.eq_of_id (h : Selection chosen) (ha : artifact ∈ chosen) (ho : other ∈ chosen)
    (hid : other.id = artifact.id) : other = artifact :=
  List.inj_on_of_nodup_map h.nodup ho ha hid

theorem Sets.publishes_object (h : Sets platform env lib root chosen t op) (hs : Selection chosen)
    (ha : artifact ∈ chosen) :
    Publishes (VerifiesAs platform lib artifact) (objectPath platform root artifact) t op := by
  obtain hprepares | ⟨other, ho, hinstalls⟩ := h
  · have hinstalls : Installs platform env lib root artifact t op := .prepare hprepares
    exact hinstalls.publishes_object (hs.curated _ ha) (hs.curated _ ha) fun _ => rfl
  · exact hinstalls.publishes_object (hs.curated _ ha) (hs.curated _ ho) (hs.eq_of_id ha ho)

theorem Sets.publishes_archive (h : Sets platform env lib root chosen t op)
    (hs : Selection chosen) (ha : artifact ∈ chosen) :
    Publishes (IsArchive lib artifact) (archivePath platform root artifact) t op := by
  obtain hprepares | ⟨other, ho, hinstalls⟩ := h
  · have hinstalls : Installs platform env lib root artifact t op := .prepare hprepares
    exact hinstalls.publishes_archive (hs.curated _ ha) (hs.curated _ ha) fun _ => rfl
  · exact hinstalls.publishes_archive (hs.curated _ ha) (hs.curated _ ho) (hs.eq_of_id ha ho)

/-- A setup prepares the store, and then sees to the artifacts of its selection. -/
theorem Does.setup {allowed : Journal Component UInt8 → Op → Prop} {Q R : Machine → Prop}
    {offline : Bool}
    (hprepare : Does platform allowed P (prepareStorage platform env root) fun _ => Q)
    (hensure : Selection (selection platform manifest) →
      Does platform allowed Q
        (ensureArtifacts platform env lib root offline (selection platform manifest)) fun _ => R) :
    Does platform allowed P (Artifacts.setup platform env lib root manifest offline) fun _ m =>
      Selection (selection platform manifest) ∧ R m := by
  rw [Artifacts.setup]
  cases hparse : parseManifest platform manifest with
  | error error =>
      rw [selectedArtifacts, hparse]
      exact Does.throw
  | ok parsed =>
      have hprogram : selectedArtifacts platform manifest =
          Artifacts.failOn (selectArtifacts parsed platform) := by
        rw [selectedArtifacts, hparse]
        rfl
      rw [hprogram]
      cases hselect : selectArtifacts parsed platform with
      | error error => exact Does.throw
      | ok artifacts =>
          have hs := selection_of_ok hparse hselect
          have hselection : selection platform manifest = artifacts := by
            rw [selection, hparse]
            simp only [hselect]
          rw [hselection] at hensure ⊢
          change Does platform allowed P (do
            prepareStorage platform env root
            let results ← ensureArtifacts platform env lib root offline artifacts
            Pure.pure (⟨manifest.profile, platform.text, "ready", results⟩ : SetupReport)) _
          exact Does.bind hprepare fun _ => Does.bind (hensure hs) fun _ =>
            Does.pure fun _ h => ⟨hs, h⟩

theorem does_prepareStorage {any : Platform} :
    Does any (fun _ op => Prepares root op) P (prepareStorage platform env root) fun _ _ =>
      True := by
  have hmkdir {P : Machine → Prop} {name : OsString} (hname : name ∈ storeNames) :
      Does any (fun _ op => Prepares root op) P
        (createDirAll env (join platform root name) "artifact storage initialization failed")
        fun _ _ => True := by
    rw [join_ordinary (ordinary_storeName hname)]
    exact Does.createDirAll fun _ _ htarget => .mkdir htarget
  refine Does.bind (hmkdir (by decide)) fun _ => Does.bind (hmkdir (by decide)) fun _ =>
    Does.bind (hmkdir (by decide)) fun _ => Does.bind (hmkdir (by decide)) fun _ => ?_
  refine Does.bind (Q := fun _ _ => True) ?_ fun _ => Does.check fun _ _ => trivial
  rw [join_ordinary (ordinary_of_bytes (by decide) (by decide))]
  apply Does.perform
  · exact fun _ _ => .lock
  · rintro m path bytes through _ ⟨⟩
  · exact fun _ _ _ _ => trivial

theorem verifyObjectAt_congr {path : List Component} (h : t'.find path = t.find path) :
    verifyObjectAt platform lib t' path artifact = verifyObjectAt platform lib t path artifact := by
  rw [verifyObjectAt, verifyObjectAt, h]

theorem does_ensureArtifacts (offline : Bool) (hc : ∀ artifact ∈ artifacts, Curated artifact)
    (hids : (artifacts.map ArtifactSpec.id).Nodup) :
    Does platform
      (onTree fun t op => ∃ artifact ∈ artifacts, Installs platform env lib root artifact t op)
      (fun _ => True) (ensureArtifacts platform env lib root offline artifacts) fun _ m =>
      ∀ artifact ∈ artifacts,
      verifyObjectAt platform lib m.tree (objectPath platform root artifact) artifact = .ok () := by
  induction artifacts with
  | nil => exact Does.pure fun _ _ _ h => absurd h List.not_mem_nil
  | cons artifact artifacts ih =>
      have hartifact := hc artifact List.mem_cons_self
      obtain ⟨hfresh, hids⟩ := List.nodup_cons.mp hids
      refine Does.bind
        ((does_ensureArtifact hartifact offline).mono fun _ _ h =>
        ⟨artifact, List.mem_cons_self, h⟩) fun state => ?_
      -- What is installed later leaves this object alone.
      have hkeeps :=
        (ih (fun other ho => hc other (List.mem_cons_of_mem _ ho)) hids).frame
          (K := fun t =>
          verifyObjectAt platform lib t (objectPath platform root artifact) artifact =
          .ok ()) ?_
      · refine Does.bind ((hkeeps.conseq (fun _ hm => ⟨trivial, hm⟩) fun _ _ h => h).mono ?_)
          fun results => Does.pure ?_
        · rintro t op ⟨other, ho, h⟩
          exact ⟨other, List.mem_cons_of_mem _ ho, h⟩
        · rintro m ⟨hall, hthis⟩ other ho
          rcases List.mem_cons.mp ho with rfl | ho
          · exact hthis
          · exact hall other ho
      · rintro t op t' hok ⟨other, ho, h⟩ happly
        have hne : other.id ≠ artifact.id := fun hid => hfresh (hid ▸ List.mem_map_of_mem ho)
        rcases h.at_object hartifact (hc other (List.mem_cons_of_mem _ ho)) fun hid =>
          absurd hid hne with hspares | ⟨rfl, -⟩
        · rw [verifyObjectAt_congr (FileOp.find_of_spares happly hspares)]
          exact hok
        · exact absurd rfl hne

theorem does_setup (manifest : CuratedManifest) (offline : Bool) :
    Does platform (onTree (Sets platform env lib root (selection platform manifest)))
      (fun _ => True) (setup platform env lib root manifest offline) fun _ m =>
      Selection (selection platform manifest) ∧
    ∀ artifact ∈ selection platform manifest,
      verifyObjectAt platform lib m.tree (objectPath platform root artifact) artifact = .ok () := by
  refine Does.setup (Q := fun _ => True)
    (does_prepareStorage.mono fun _ _ h => Or.inl h) fun hs => ?_
  exact (does_ensureArtifacts offline hs.curated hs.nodup).mono fun _ _ h => Or.inr h

def setupFrom (platform : Platform) (lib : Libraries) (root : List Component)
    (manifest : CuratedManifest) (tree : Tree) (env : Environment) (offline : Bool) : Machine :=
  leaves (setup platform env lib root manifest offline) (.start tree)

/-- The tree that a series of setups leaves, each in an environment of its own. -/
def afterSetups (platform : Platform) (lib : Libraries) (root : List Component)
    (manifest : CuratedManifest) (tree : Tree) (runs : List (Environment × Bool)) : Tree :=
  runs.foldl (fun tree run => (setupFrom platform lib root manifest tree run.1 run.2).tree) tree

theorem setupFrom_extends {offline : Bool}
    (hanchors : Anchors platform (setupFrom platform lib root manifest tree env offline)) :
    Extends (fun j op => Sets platform env lib root (selection platform manifest) j.tree op)
      ⟨[], tree⟩ (setupFrom platform lib root manifest tree env offline).journal :=
  (does_setup manifest offline).extends_of_leaves trivial hanchors

structure Activates (platform : Platform) (env : Environment) (lib : Libraries)
    (root : List Component) (artifact : ArtifactSpec) (t : Tree) (op : Op) (t' : Tree) : Prop where
  object :
    Publication (VerifiesAs platform lib artifact) (objectPath platform root artifact) t op t'
  staged : ∀ source, op = .rename source (objectPath platform root artifact) →
    ∃ n, source = stagingPath platform env root artifact n
  archive : Publication (IsArchive lib artifact) (archivePath platform root artifact) t op t'

theorem Sets.staged {source : List Component}
    (h : Sets platform env lib root chosen t (.rename source (objectPath platform root artifact)))
    (hs : Selection chosen) (ha : artifact ∈ chosen) :
    ∃ n, source = stagingPath platform env root artifact n := by
  have hrecovery : ascii "objects" ≠ ascii "recovery" := by decide
  have hdownloads : ascii "objects" ≠ ascii "downloads" := by decide
  have hc := hs.curated artifact ha
  rw [objectPath_eq hc] at h
  generalize htarget : spot root (ascii "objects") (objectName artifact) = target at h
  obtain hprepares | ⟨other, ho, hinstalls⟩ := h
  · cases hprepares
  · cases hinstalls with
    | prepare h => cases h
    | unpack h => cases h
    | aside => exact absurd htarget (ne_of_spots hrecovery)
    | keep =>
        rw [archivePath_eq (hs.curated other ho)] at htarget
        exact absurd htarget (ne_of_spots hdownloads)
    | @activate k =>
        rw [objectPath_eq (hs.curated other ho)] at htarget
        have hname := (spot_inj htarget).2
        rw [hs.eq_of_id ha ho (id_of_objectName hc (hs.curated other ho) hname).symm]
        exact ⟨k, rfl⟩

theorem Sets.activates (h : Sets platform env lib root chosen t op) (hs : Selection chosen)
    (ha : artifact ∈ chosen) (happly : op.apply t = some t') :
    Activates platform env lib root artifact t op t' := by
  refine ⟨(h.publishes_object hs ha).publication happly, ?_,
    (h.publishes_archive hs ha).publication happly⟩
  rintro source rfl
  exact h.staged hs ha

end ImpossibleVoice.Artifacts

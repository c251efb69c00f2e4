import ImpossibleVoice.Artifacts.Activation

namespace ImpossibleVoice.Artifacts

open Lib

variable {platform : Platform} {α : Type} {env : Environment} {lib : Libraries}
  {root : List Component} {artifact : ArtifactSpec}
  {artifacts : List ArtifactSpec} {manifest : CuratedManifest} {message : String} {m : Machine}
    {t t' tree : Tree} {op : Op}
  {c c' : Component}

def Permitted (env : Environment) : Prop := ∀ k, env.fault k = .none

def Accepted (platform : Platform) (manifest : CuratedManifest) : Prop :=
  ∃ parsed artifacts, parseManifest platform manifest = .ok parsed ∧
    selectArtifacts parsed platform = .ok artifacts

def Ready (platform : Platform) (lib : Libraries) (root : List Component)
    (manifest : CuratedManifest) (t : Tree) : Prop :=
  ∀ artifact ∈ selection platform manifest,
    verifyObjectAt platform lib t (objectPath platform root artifact) artifact = .ok ()

def Machine.at (m : Machine) (clock : Nat) : Machine := { m with clock := clock }

@[simp] theorem Machine.at_tree (m : Machine) (clock : Nat) : (m.at clock).tree = m.tree := rfl

@[simp] theorem Machine.at_at (m : Machine) (k l : Nat) : (m.at k).at l = m.at l := rfl

def Shows (p : Run α) (m : Machine) (a : α) : Prop := ∃ k, p.run m = .ok a (m.at k)

namespace Shows

variable {β : Type} {p : Run α} {a : α}

theorem pure (a : α) (m : Machine) : Shows (Pure.pure a : Run α) m a := ⟨m.clock, rfl⟩

theorem bind {f : α → Run β} {b : β} (hp : Shows p m a) (hf : ∀ k, Shows (f a) (m.at k) b) :
    Shows (p >>= f) m b := by
  obtain ⟨k, hk⟩ := hp
  obtain ⟨l, hl⟩ := hf k
  exact ⟨l, by rw [run_bind_of_ok hk, hl, Machine.at_at]⟩

theorem gets (f : Machine → α) (m : Machine) : Shows (Lib.gets f : Run α) m (f m) := ⟨m.clock, rfl⟩

theorem check (h : Permitted env) : Shows (Artifacts.check env message) m () := by
  refine ⟨m.clock + 1, ?_⟩
  rw [EStateM.run, Artifacts.check, h]
  rfl

theorem inspect (h : Permitted env) (result : Tree → Except ArtifactError α) (first : String)
    (others : List String) :
    Shows (Artifacts.inspect env result first others) m (result m.tree) := by
  refine ⟨m.clock + 1, ?_⟩
  rw [EStateM.run, Artifacts.inspect, h]
  rfl

theorem failOn {result : Except ArtifactError α} (h : result = .ok a) :
    Shows (Artifacts.failOn result) m a := by
  subst h
  exact pure a m

end Shows

theorem exists_of_verified {path : List Component}
    (h : verifyObjectAt platform lib t path artifact = .ok ()) : (stat t path).isSome = true := by
  obtain ⟨n, hn, hgood⟩ := verifiesAs_of_ok h
  rw [stat, hn, Option.bind_some]
  cases n with
  | file | dir | other => rfl
  | link target =>
      cases target with
      | none => cases hgood
      | some => rfl

def stateOf (platform : Platform) (lib : Libraries) (root : List Component) (t : Tree)
    (artifact : ArtifactSpec) : String :=
  if (stat t (objectPath platform root artifact)).isSome = true then
    match verifyObjectAt platform lib t (objectPath platform root artifact) artifact with
    | .ok _ => "verified"
    | .error _ => "invalid"
  else "missing"

theorem stateOf_eq_verified : stateOf platform lib root t artifact = "verified" ↔
    verifyObjectAt platform lib t (objectPath platform root artifact) artifact = .ok () := by
  rw [stateOf]
  cases hverify : verifyObjectAt platform lib t (objectPath platform root artifact) artifact with
  | ok u => simp [exists_of_verified hverify]
  | error error =>
      split <;> simp

theorem shows_objectState (h : Permitted env) (m : Machine) :
    Shows (objectState platform env lib root artifact) m
      (stateOf platform lib root m.tree artifact) := by
  refine Shows.bind (Shows.gets _ m) fun k => ?_
  rw [stateOf]
  split
  · refine Shows.bind (Shows.inspect h _ _ _) fun l => ?_
    simp only [Machine.at_tree]
    cases verifyObjectAt platform lib m.tree (objectPath platform root artifact) artifact with
    | ok u => exact Shows.pure _ _
    | error error => exact Shows.pure _ _
  · exact Shows.pure _ _

theorem shows_objectStates (h : Permitted env) (artifacts : List ArtifactSpec) (ready : Bool)
    (m : Machine) :
    Shows (objectStates platform env lib root artifacts ready) m
      (artifacts.map fun artifact =>
      ⟨artifact.id, artifact.kind, stateOf platform lib root m.tree artifact⟩, ready &&
      artifacts.all fun artifact => stateOf platform lib root m.tree artifact == "verified") := by
  induction artifacts generalizing ready m with
  | nil =>
      rw [List.all_nil, Bool.and_true]
      exact Shows.pure _ _
  | cons artifact artifacts ih =>
      rw [List.all_cons, ← Bool.and_assoc]
      refine Shows.bind (shows_objectState h m) fun k => ?_
      exact Shows.bind (ih _ _) fun l => Shows.pure _ _

theorem selectedArtifacts_of_accepted (h : Accepted platform manifest) (m : Machine) :
    Shows (selectedArtifacts platform manifest) m (selection platform manifest) ∧
    Selection (selection platform manifest) := by
  obtain ⟨parsed, artifacts, hparse, hselect⟩ := h
  have hselection : selection platform manifest = artifacts := by
    rw [selection, hparse]
    simp only [hselect]
  rw [hselection]
  exact ⟨Shows.bind (Shows.failOn hparse) fun _ => Shows.failOn hselect,
    selection_of_ok hparse hselect⟩

def reportOf (platform : Platform) (lib : Libraries) (root : List Component)
    (manifest : CuratedManifest) (t : Tree) : SetupReport :=
  ⟨manifest.profile, platform.text,
    if ((selection platform manifest).all fun artifact => stateOf platform lib root t artifact ==
      "verified") = true then "ready" else "not-ready",
    (selection platform manifest).map fun artifact =>
      ⟨artifact.id, artifact.kind, stateOf platform lib root t artifact⟩⟩

theorem shows_status (h : Permitted env) (haccepted : Accepted platform manifest) (m : Machine) :
    Shows (Artifacts.status platform env lib root manifest) m
      (reportOf platform lib root manifest m.tree) :=
  Shows.bind (selectedArtifacts_of_accepted haccepted m).1 fun _ =>
    Shows.bind (shows_objectStates h _ true _) fun _ => Shows.pure _ _

theorem reportOf_ready :
    (reportOf platform lib root manifest t).status = "ready" ↔
      Ready platform lib root manifest t := by
  have hall :
      ((selection platform manifest).all fun artifact => stateOf platform lib root t artifact ==
        "verified") = true ↔
      Ready platform lib root manifest t := by
    rw [List.all_eq_true, Ready]
    exact forall₂_congr fun artifact _ => beq_iff_eq.trans stateOf_eq_verified
  rw [← hall, reportOf]
  split <;> simp [*]

theorem shows_verifiedKindPath (h : Permitted env) {kind : String}
    (hfind : artifacts.find? (·.kind == kind) = some artifact)
    (hok : verifyObjectAt platform lib m.tree (objectPath platform root artifact) artifact =
      .ok ()) :
    Shows (verifiedKindPath platform env lib root artifacts kind) m
      (objectPath platform root artifact) := by
  rw [verifiedKindPath]
  simp only [hfind]
  exact Shows.bind (Shows.inspect h _ _ _) fun _ => Shows.bind (Shows.failOn hok) fun _ =>
    Shows.pure _ _

theorem verified_of_verifiedKindPath (h : Permitted env) {kind : String} {path : List Component}
    {m' : Machine} (hfind : artifacts.find? (·.kind == kind) = some artifact)
    (hrun : (verifiedKindPath platform env lib root artifacts kind).run m = .ok path m') :
    verifyObjectAt platform lib m.tree (objectPath platform root artifact) artifact = .ok () ∧
    m'.tree = m.tree := by
  cases hverify :
    verifyObjectAt platform lib m.tree (objectPath platform root artifact) artifact with
  | ok u =>
      obtain ⟨k, hk⟩ := shows_verifiedKindPath h hfind hverify
      rw [hk] at hrun
      cases hrun
      exact ⟨rfl, rfl⟩
  | error error =>
      obtain ⟨k, hk⟩ :=
        Shows.inspect h
          (fun tree =>
          verifyObjectAt platform lib tree (objectPath platform root artifact) artifact)
        "installation inventory is missing" ["artifact archive could not be inspected",
          "installed artifact could not be inventoried",
            "installed artifact is missing a required path"] (m := m)
      rw [verifiedKindPath] at hrun
      simp only [hfind] at hrun
      rw [inspectObject, run_bind_of_ok hk, hverify] at hrun
      cases hrun

theorem verifiedProfile_iff (h : Permitted env) (haccepted : Accepted platform manifest)
    (m : Machine) :
    (∃ profile m', (verifiedProfile platform env lib root manifest).run m = .ok profile m') ↔
      Ready platform lib root manifest m.tree := by
  obtain ⟨hselected, hs⟩ := selectedArtifacts_of_accepted haccepted m
  constructor
  · rintro ⟨profile, m', hrun⟩
    obtain ⟨k, hk⟩ := hselected
    rw [verifiedProfile, run_bind_of_ok hk] at hrun
    obtain ⟨runtime, m₁, hruntime, hrun⟩ := run_bind_ok hrun
    obtain ⟨stt, m₂, hstt, hrun⟩ := run_bind_ok hrun
    obtain ⟨tts, m₃, htts, hrun⟩ := run_bind_ok hrun
    obtain ⟨_, _, hfind₁⟩ := hs.complete "runtime" (by decide)
    obtain ⟨_, _, hfind₂⟩ := hs.complete "stt-model" (by decide)
    have htree₁ := (verified_of_verifiedKindPath h hfind₁ hruntime).2
    have htree₂ := (verified_of_verifiedKindPath h hfind₂ hstt).2
    intro artifact ha
    obtain ⟨kind, hkind, hfind⟩ := hs.covers artifact ha
    simp only [kinds, List.mem_cons, List.not_mem_nil, or_false] at hkind
    rcases hkind with rfl | rfl | rfl
    · exact (verified_of_verifiedKindPath h hfind hruntime).1
    · have hverified := (verified_of_verifiedKindPath h hfind hstt).1
      rwa [htree₁] at hverified
    · have hverified := (verified_of_verifiedKindPath h hfind htts).1
      rwa [htree₂, htree₁] at hverified
  · intro hready
    have hshows {kind : String} (hkind : kind ∈ kinds) : ∃ path, ∀ k : Machine, k.tree = m.tree →
        Shows
          (verifiedKindPath platform env lib root (selection platform manifest) kind) k path := by
      obtain ⟨artifact, ha, hfind⟩ := hs.complete kind hkind
      refine ⟨_, fun k hk => shows_verifiedKindPath h hfind ?_⟩
      rw [hk]
      exact hready artifact ha
    obtain ⟨runtime, hruntime⟩ := hshows (show "runtime" ∈ kinds by decide)
    obtain ⟨stt, hstt⟩ := hshows (show "stt-model" ∈ kinds by decide)
    obtain ⟨tts, htts⟩ := hshows (show "tts-model" ∈ kinds by decide)
    have hprofile : Shows (verifiedProfile platform env lib root manifest) m ⟨runtime, stt, tts⟩ :=
      Shows.bind hselected fun _ => Shows.bind (hruntime _ rfl) fun _ =>
        Shows.bind (hstt _ rfl) fun _ =>
        Shows.bind (htts _ rfl) fun _ => Shows.pure _ _
    obtain ⟨k, hk⟩ := hprofile
    exact ⟨_, _, hk⟩

end ImpossibleVoice.Artifacts

import ImpossibleVoice.Artifacts.Doing

namespace ImpossibleVoice.Artifacts

open Lib

variable {platform : Platform} {env : Environment} {lib : Libraries} {root : List Component}
  {artifact other : ArtifactSpec}
  {t t' : Tree} {op : Op} {x y x' y' x'' y'' : OsString} {label : String}

inductive Prepares (root : List Component) : Op → Prop
  | mkdir {target : List Component} {x : OsString} (h : target <+: root ++ [.normal x]) :
      Prepares root (.mkdir target)
  | lock : Prepares root (.openCreate (root ++ [.normal (ascii ".setup.lock")]))

def VerifiesAs (platform : Platform) (lib : Libraries) (artifact : ArtifactSpec) (n : Tree) :
    Prop :=
  verifyObject platform lib n artifact = .ok ()

def IsArchive (lib : Libraries) (artifact : ArtifactSpec) (n : Tree) : Prop :=
  ∃ content, n = .file content ∧ content.length = artifact.size ∧
    lib.sha256 content = artifact.sha256

inductive Owns (platform : Platform) (env : Environment) (root : List Component)
    (artifact : ArtifactSpec) : List Component → Prop
  | object : Owns platform env root artifact (objectPath platform root artifact)
  | archive : Owns platform env root artifact (archivePath platform root artifact)
  | unfinished {n : Nat} :
      Owns platform env root artifact (partialPath platform env root artifact n)
  | staging {n : Nat} : Owns platform env root artifact (stagingPath platform env root artifact n)

/-- The operations that install one artifact, each with what holds when it is performed. -/
inductive Installs (platform : Platform) (env : Environment) (lib : Libraries)
    (root : List Component) (artifact : ArtifactSpec) (t : Tree) : Op → Prop
  | prepare {op : Op} (h : Prepares root op) : Installs platform env lib root artifact t op
  | receive {n : Nat} :
      Installs platform env lib root artifact t
        (.createNew (partialPath platform env root artifact n))
  | write {n : Nat} {bytes : Bytes} :
      Installs platform env lib root artifact t
        (.append (partialPath platform env root artifact n) bytes)
  | stage {n : Nat} :
      Installs platform env lib root artifact t (.mkdir (stagingPath platform env root artifact n))
  | unpack {n : Nat} {op : Op}
      (h : Unpacks platform (stagingPath platform env root artifact n) op) :
      Installs platform env lib root artifact t op
  | aside {source : List Component} {label : String} {n : Nat}
      (h : Owns platform env root artifact source) :
      Installs platform env lib root artifact t
        (.rename source (spot root (ascii "recovery") (recoveryName env label n)))
  | keep {k : Nat} {n : Tree} (hsource : t.find (partialPath platform env root artifact k) = some n)
      (hgood : IsArchive lib artifact n)
      (habsent : Absent (archivePath platform root artifact) t) :
      Installs platform env lib root artifact t
        (.rename (partialPath platform env root artifact k) (archivePath platform root artifact))
  | activate {k : Nat} {n : Tree}
      (hsource : t.find (stagingPath platform env root artifact k) = some n)
      (hgood : VerifiesAs platform lib artifact n)
      (habsent : Absent (objectPath platform root artifact) t) :
      Installs platform env lib root artifact t
        (.rename (stagingPath platform env root artifact k) (objectPath platform root artifact))

theorem Prepares.spares (h : Prepares root op) : op.Spares (spot root x y) := by
  have hlong {x' : OsString} : ¬ spot root x y <+: root ++ [.normal x'] := by
    rw [spot, List.prefix_append_right_inj]
    intro hprefix
    exact absurd hprefix.length_le (by simp)
  cases h with
  | mkdir htarget => exact fun hspot => hlong (hspot.trans htarget)
  | lock => exact hlong

theorem Unpacks.spares_spot (h : Unpacks platform (spot root x' y') op)
    (hne : ¬ (x = x' ∧ y = y')) : op.Spares (spot root x y) := by
  have hbelow {path : List Component} (hpath : Below platform (spot root x' y') path) :
      ¬ spot root x y <+: path := by
    obtain ⟨names, -, -, rfl⟩ := hpath
    exact fun hprefix => hne (spot_prefix_iff.mp hprefix)
  cases h with
  | mkdir hpath | createNew hpath | append hpath => exact hbelow hpath

theorem spares_rename (h : ¬ (x = x' ∧ y = y')) (h' : ¬ (x = x'' ∧ y = y'')) :
    (FileOp.rename (spot root x' y') (spot root x'' y'') : Op).Spares (spot root x y) :=
  ⟨not_prefix_spot h, not_prefix_spot fun he => h ⟨he.1.symm, he.2.symm⟩, not_prefix_spot h',
    not_prefix_spot fun he => h' ⟨he.1.symm, he.2.symm⟩⟩

theorem Owns.eq_spot {path : List Component} (h : Owns platform env root artifact path)
    (hc : Curated artifact) : ∃ x y, path = spot root x y ∧ x ≠ ascii "recovery" := by
  cases h with
  | object => exact ⟨_, _, objectPath_eq hc, by decide⟩
  | archive => exact ⟨_, _, archivePath_eq hc, by decide⟩
  | unfinished => exact ⟨_, _, partialPath_eq hc, by decide⟩
  | staging => exact ⟨_, _, stagingPath_eq hc, by decide⟩

/-- An operation leaves an object path alone, unless it puts the object aside or activates it. -/
theorem Installs.at_object (h : Installs platform env lib root other t op) (hc : Curated artifact)
    (ho : Curated other) (hid : other.id = artifact.id → other = artifact) :
    op.Spares (objectPath platform root artifact) ∨
    other = artifact ∧
    Publishes (VerifiesAs platform lib artifact) (objectPath platform root artifact) t op := by
  have hdownloads : ascii "objects" ≠ ascii "downloads" := by decide
  have hstagings : ascii "objects" ≠ ascii "staging" := by decide
  have hrecovery : ascii "objects" ≠ ascii "recovery" := by decide
  have hsame : objectName artifact = objectName other → other = artifact := fun hname =>
    hid (id_of_objectName hc ho hname).symm
  cases h with
  | prepare h =>
      rw [objectPath_eq hc]
      exact Or.inl h.spares
  | receive | write =>
      rw [objectPath_eq hc, partialPath_eq ho]
      exact Or.inl (not_prefix_spot fun h => hdownloads h.1)
  | stage =>
      rw [objectPath_eq hc, stagingPath_eq ho]
      exact Or.inl (not_prefix_spot fun h => hstagings h.1)
  | unpack h =>
      rw [stagingPath_eq ho] at h
      rw [objectPath_eq hc]
      exact Or.inl (h.spares_spot fun h => hstagings h.1)
  | aside h =>
      cases h with
      | object =>
          by_cases hthis : other = artifact
          · subst hthis
            rw [objectPath_eq ho]
            exact Or.inr
              ⟨rfl,
              .remove (not_prefix_spot fun h => hrecovery h.1.symm)
              (not_prefix_spot fun h => hrecovery h.1)⟩
          · rw [objectPath_eq hc, objectPath_eq ho]
            exact Or.inl (spares_rename (fun h => hthis (hsame h.2)) fun h => hrecovery h.1)
      | archive =>
          rw [objectPath_eq hc, archivePath_eq ho]
          exact Or.inl (spares_rename (fun h => hdownloads h.1) fun h => hrecovery h.1)
      | unfinished =>
          rw [objectPath_eq hc, partialPath_eq ho]
          exact Or.inl (spares_rename (fun h => hdownloads h.1) fun h => hrecovery h.1)
      | staging =>
          rw [objectPath_eq hc, stagingPath_eq ho]
          exact Or.inl (spares_rename (fun h => hstagings h.1) fun h => hrecovery h.1)
  | keep =>
      rw [objectPath_eq hc, partialPath_eq ho, archivePath_eq ho]
      exact Or.inl (spares_rename (fun h => hdownloads h.1) fun h => hdownloads h.1)
  | activate hsource hgood habsent =>
      by_cases hthis : other = artifact
      · subst hthis
        exact Or.inr ⟨rfl, .publish hsource hgood habsent⟩
      · rw [objectPath_eq hc, objectPath_eq ho, stagingPath_eq ho]
        exact Or.inl (spares_rename (fun h => hstagings h.1) fun h => hthis (hsame h.2))

/-- What comes to an object path comes there by one renaming, and verifies. -/
theorem Installs.publishes_object (h : Installs platform env lib root other t op)
    (hc : Curated artifact) (ho : Curated other) (hid : other.id = artifact.id → other = artifact) :
    Publishes (VerifiesAs platform lib artifact) (objectPath platform root artifact) t op := by
  rcases h.at_object hc ho hid with hspares | ⟨-, hpublishes⟩
  · exact .spare hspares
  · exact hpublishes

theorem Installs.publishes_archive (h : Installs platform env lib root other t op)
    (hc : Curated artifact) (ho : Curated other) (hid : other.id = artifact.id → other = artifact) :
    Publishes (IsArchive lib artifact) (archivePath platform root artifact) t op := by
  have hobjects : ascii "downloads" ≠ ascii "objects" := by decide
  have hstagings : ascii "downloads" ≠ ascii "staging" := by decide
  have hrecovery : ascii "downloads" ≠ ascii "recovery" := by decide
  have hsame : archiveName artifact = archiveName other → other = artifact := fun hname =>
    hid (id_of_archiveName hc ho hname).symm
  have hunfinished {n : Nat} : archiveName artifact ≠ partialName env other n :=
    (partialName_ne_archiveName hc).symm
  cases h with
  | prepare h =>
      rw [archivePath_eq hc]
      exact .spare h.spares
  | receive | write =>
      rw [archivePath_eq hc, partialPath_eq ho]
      exact .spare (not_prefix_spot fun h => hunfinished h.2)
  | stage =>
      rw [archivePath_eq hc, stagingPath_eq ho]
      exact .spare (not_prefix_spot fun h => hstagings h.1)
  | unpack h =>
      rw [stagingPath_eq ho] at h
      rw [archivePath_eq hc]
      exact .spare (h.spares_spot fun h => hstagings h.1)
  | aside h =>
      obtain ⟨x, y, rfl, -⟩ := h.eq_spot ho
      rw [archivePath_eq hc]
      by_cases hthis : ascii "downloads" = x ∧ archiveName artifact = y
      · obtain ⟨rfl, rfl⟩ := hthis
        exact .remove (not_prefix_spot fun h => hrecovery h.1.symm)
          (not_prefix_spot fun h => hrecovery h.1)
      · exact .spare (spares_rename hthis fun h => hrecovery h.1)
  | keep hsource hgood habsent =>
      by_cases hthis : other = artifact
      · subst hthis
        exact .publish hsource hgood habsent
      · rw [archivePath_eq hc, archivePath_eq ho, partialPath_eq ho]
        exact .spare (spares_rename (fun h => hunfinished h.2) fun h => hthis (hsame h.2))
  | activate =>
      rw [archivePath_eq hc, objectPath_eq ho, stagingPath_eq ho]
      exact .spare (spares_rename (fun h => hstagings h.1) fun h => hobjects h.1)

end ImpossibleVoice.Artifacts

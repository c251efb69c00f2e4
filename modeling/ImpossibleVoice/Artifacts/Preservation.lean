import ImpossibleVoice.Artifacts.Readiness

namespace ImpossibleVoice.Artifacts

open Lib

variable {platform : Platform} {α : Type} {env : Environment} {lib : Libraries}
  {root : List Component} {artifact : ArtifactSpec}
  {artifacts : List ArtifactSpec} {manifest : CuratedManifest} {message label : String}
    {m : Machine} {t t' tree : Tree} {op : Op}
  {x y x' y' name : OsString} {o q : List Component} {c : Bytes} {j k : Journal Component UInt8}

def Made (ops : List Op) (path : List Component) : Prop := .createNew path ∈ ops ∨ .mkdir path ∈ ops

/-- Bytes are added only to what was made before, and things are moved only to where nothing is,
those that were not made before only under `recovery`. -/
inductive Careful (root : List Component) (j : Journal Component UInt8) : Op → Prop
  | mkdir {path : List Component} : Careful root j (.mkdir path)
  | createNew {path : List Component} : Careful root j (.createNew path)
  | openCreate {path : List Component} : Careful root j (.openCreate path)
  | append {x y : OsString} {path : List Component} {bytes : Bytes} (hx : x ≠ ascii "recovery")
      (hmade : Made j.ops (spot root x y)) (hbelow : spot root x y <+: path) :
      Careful root j (.append path bytes)
  | aside {x y name : OsString} (hx : x ≠ ascii "recovery")
      (habsent : j.tree.find (spot root (ascii "recovery") name) = none) :
      Careful root j (.rename (spot root x y) (spot root (ascii "recovery") name))
  | publish {x y x' y' : OsString} (hx : x ≠ ascii "recovery") (hmade : Made j.ops (spot root x y))
      (habsent : Absent (spot root x' y') j.tree) :
      Careful root j (.rename (spot root x y) (spot root x' y'))

/-- Where something is after the operations: at its place, or at the same place in an entry that
was moved under `recovery`. -/
def Kept (root : List Component) (ops : List Op) (o q : List Component) : Prop :=
  q = o ∨
    ∃ x y name rest, x ≠ ascii "recovery" ∧
    .rename (spot root x y) (spot root (ascii "recovery") name) ∈ ops ∧
    o = spot root x y ++ rest ∧ q = spot root (ascii "recovery") name ++ rest

theorem Kept.record (h : Kept root j.ops o q) : Kept root (j.record op t).ops o q := by
  rcases h with heq | ⟨x, y, name, rest, hx, hmem, ho, hq⟩
  · exact Or.inl heq
  · exact Or.inr ⟨x, y, name, rest, hx, List.mem_append_left _ hmem, ho, hq⟩

structure Foreign (root : List Component) (o : List Component) (c : Bytes)
    (j : Journal Component UInt8) (q : List Component) : Prop where
  file : j.tree.find q = some (.file c)
  kept : Kept root j.ops o q
  beside : ∀ x y, x ≠ ascii "recovery" → Made j.ops (spot root x y) → ¬ spot root x y <+: q

theorem made_record (h : Made (j.record op t).ops o) :
    Made j.ops o ∨ op = .createNew o ∨ op = .mkdir o := by
  simp only [Made, Journal.record_ops, List.mem_append, List.mem_singleton] at h ⊢
  grind

theorem not_above_recovery {rest : List Component} (hx : x ≠ ascii "recovery") :
    ¬ spot root x y <+: spot root (ascii "recovery") name ++ rest :=
  fun h => hx (spot_prefix_iff.mp h).1

/-- What is made anew is not above what is there. -/
theorem Foreign.beside_new (h : Foreign root o c j q) {path : List Component}
    (hnone : j.tree.find path = none) : ¬ path <+: q := by
  intro habove
  have hfile := h.file
  rw [Node.find_none_below hnone habove] at hfile
  cases hfile

theorem Foreign.step (h : Foreign root o c j q) (hop : Careful root j op)
    (happly : op.apply j.tree = some t) : ∃ q', Foreign root o c (j.record op t) q' := by
  have hstays
      (hmoves : ∀ source target, op = .rename source target →
      (j.tree.find target).bind Node.follow = none)
      (happends : ∀ bytes, op ≠ .append q bytes) (hcarry : op.carry q = q)
      (hnew : ∀ path, op = .createNew path ∨ op = .mkdir path → j.tree.find path = none) :
      ∃ q', Foreign root o c (j.record op t) q' := by
    refine ⟨q, ?_, h.kept.record, fun x y hx hmade => ?_⟩
    · have hfile := FileOp.file_of_apply_carry happly h.file happends hmoves
      rwa [hcarry] at hfile
    · rcases made_record hmade with hmade | hmade
      · exact h.beside x y hx hmade
      · exact h.beside_new (hnew _ hmade)
  cases hop with
  | mkdir =>
      refine hstays (fun _ _ heq => by cases heq) (fun _ heq => by cases heq) rfl
        fun path hpath => ?_
      rcases hpath with heq | heq <;> cases heq
      exact (Node.create_eq_some happly).2.2.1
  | createNew =>
      refine hstays (fun _ _ heq => by cases heq) (fun _ heq => by cases heq) rfl
        fun path hpath => ?_
      rcases hpath with heq | heq <;> cases heq
      exact (Node.create_eq_some happly).2.2.1
  | openCreate =>
      refine hstays (fun _ _ heq => by cases heq) (fun _ heq => by cases heq) rfl
        fun path hpath => ?_
      rcases hpath with heq | heq <;> cases heq
  | append hx hmade hbelow =>
      refine hstays (fun _ _ heq => by cases heq) ?_ rfl fun path hpath => ?_
      · rintro bytes ⟨⟩
        exact h.beside _ _ hx hmade hbelow
      · rcases hpath with heq | heq <;> cases heq
  | publish hx hmade habsent =>
      refine hstays ?_ (fun _ heq => by cases heq) (if_neg (h.beside _ _ hx hmade))
        fun path hpath => ?_
      · rintro _ _ ⟨⟩
        exact habsent
      · rcases hpath with heq | heq <;> cases heq
  | @aside x y name hx habsent =>
      have hnothing : ∀ source target,
          FileOp.rename (spot root x y) (spot root (ascii "recovery") name) =
          (.rename source target : Op) →
          (j.tree.find target).bind Node.follow = none := by
        rintro _ _ ⟨⟩
        rw [habsent]
        rfl
      by_cases hmoves : spot root x y <+: q
      · obtain ⟨rest, rfl⟩ := hmoves
        have hfile := FileOp.file_of_apply_carry happly h.file (fun _ heq => by cases heq) hnothing
        rw [FileOp.carry, if_pos (List.prefix_append _ _), List.drop_left] at hfile
        refine ⟨_, hfile,
          Or.inr ⟨x, y, name, rest, hx, List.mem_append_right _ List.mem_cons_self, ?_, rfl⟩,
          fun x' y' hx' _ => not_above_recovery hx'⟩
        rcases h.kept with heq | ⟨_, _, name', rest', _, _, _, heq⟩
        · exact heq.symm
        · exact absurd (heq ▸ List.prefix_append (spot root x y) rest) (not_above_recovery hx)
      · refine hstays hnothing (fun _ heq => by cases heq) (if_neg hmoves) fun path hpath => ?_
        rcases hpath with heq | heq <;> cases heq

theorem Foreign.run (h : Foreign root o c j q) (hall : Extends (Careful root) j k) :
    ∃ q', Foreign root o c k q' :=
  hall.invariant (I := fun l => ∃ q', Foreign root o c l q') ⟨q, h⟩ fun _ _ _ ⟨_, hl⟩ hop happly =>
    hl.step hop happly

end ImpossibleVoice.Artifacts

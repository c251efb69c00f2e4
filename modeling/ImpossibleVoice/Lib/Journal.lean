import ImpossibleVoice.Lib.FileOps
import ImpossibleVoice.Lib.Runs

namespace ImpossibleVoice.Lib

/-- The operations performed so far, and the tree they have led to. -/
structure Journal (ν β : Type) where
  ops : List (FileOp ν β)
  tree : Node ν β

variable {ν β : Type}

def Journal.record (j : Journal ν β) (op : FileOp ν β) (t : Node ν β) : Journal ν β :=
  ⟨j.ops ++ [op], t⟩

@[simp] theorem Journal.record_tree (j : Journal ν β) (op : FileOp ν β) (t : Node ν β) :
    (j.record op t).tree = t :=
  rfl

@[simp] theorem Journal.record_ops (j : Journal ν β) (op : FileOp ν β) (t : Node ν β) :
    (j.record op t).ops = j.ops ++ [op] := rfl

variable [DecidableEq ν] {t t' n : Node ν β} {op : FileOp ν β} {o p q : List ν} {c : List β}
  {j k l : Journal ν β} {allowed allowed' : Journal ν β → FileOp ν β → Prop}
    {ops before : List (FileOp ν β)}

/-- `k` is reached from `j`, each operation being allowed when it was performed. -/
inductive Extends (allowed : Journal ν β → FileOp ν β → Prop) (j : Journal ν β) : Journal ν β → Prop
  | refl : Extends allowed j j
  | step {k : Journal ν β} {op : FileOp ν β} {t : Node ν β} (h : Extends allowed j k)
      (ha : allowed k op)
      (hop : op.apply k.tree = some t) : Extends allowed j (k.record op t)

namespace Extends

theorem trans (h : Extends allowed j k) (h' : Extends allowed k l) : Extends allowed j l := by
  induction h' with
  | refl => exact h
  | step _ ha hop ih => exact .step ih ha hop

theorem mono (h : Extends allowed j k) (hmono : ∀ l op, allowed l op → allowed' l op) :
    Extends allowed' j k := by
  induction h with
  | refl => exact .refl
  | step _ ha hop ih => exact .step ih (hmono _ _ ha) hop

theorem invariant {I : Journal ν β → Prop} (h : Extends allowed j k) (hj : I j)
    (hstep : ∀ l op t, I l → allowed l op → op.apply l.tree = some t → I (l.record op t)) :
    I k := by
  induction h with
  | refl => exact hj
  | step _ ha hop ih => exact hstep _ _ _ ih ha hop

theorem run (h : Extends allowed j k) :
    ∃ ops, k.ops = j.ops ++ ops ∧ run FileOp.apply j.tree ops = some k.tree := by
  induction h with
  | refl => exact ⟨[], (List.append_nil _).symm, rfl⟩
  | @step k op t _ _ hop ih =>
      obtain ⟨ops, hops, hrun⟩ := ih
      refine ⟨ops ++ [op], ?_, runs_iff_run.mp (.snoc (runs_iff_run.mpr hrun) hop)⟩
      rw [Journal.record_ops, hops, List.append_assoc]

theorem point (h : Extends allowed j k) (hbefore : j.ops ++ before <+: k.ops) :
    ∃ t, Extends allowed j ⟨j.ops ++ before, t⟩ ∧ Lib.run FileOp.apply j.tree before = some t := by
  induction h with
  | refl =>
      have hnil : before = [] := by
        have hlength := hbefore.length_le
        rw [List.length_append] at hlength
        exact List.length_eq_zero_iff.mp (by omega)
      subst hnil
      refine ⟨j.tree, ?_, rfl⟩
      rw [List.append_nil]
      exact .refl
  | @step k op t h ha hop ih =>
      rw [Journal.record_ops, List.prefix_concat_iff] at hbefore
      rcases hbefore with heq | hbefore
      · have hall := Extends.step h ha hop
        obtain ⟨ops, hops, hrun⟩ := hall.run
        rw [Journal.record_ops, ← heq] at hops
        rw [List.append_cancel_left hops]
        refine ⟨t, ?_, hrun⟩
        rw [← hops, heq]
        exact hall
      · exact ih hbefore

theorem next (h : Extends allowed j k) (hbefore : j.ops ++ (before ++ [op]) <+: k.ops) :
    ∃ l t, l.ops = j.ops ++ before ∧ Extends allowed j l ∧
    Lib.run FileOp.apply j.tree before = some l.tree ∧ allowed l op ∧ op.apply l.tree = some t := by
  obtain ⟨t, hall, -⟩ := h.point hbefore
  generalize hk : (⟨j.ops ++ (before ++ [op]), t⟩ : Journal ν β) = k at hall
  have hops : k.ops = j.ops ++ before ++ [op] := by rw [← hk, List.append_assoc]
  cases hall with
  | refl =>
      have hlength := congrArg List.length hops
      simp at hlength
  | @step l op' t h ha hop =>
      obtain ⟨hl, heq⟩ := List.append_inj' hops rfl
      cases heq
      obtain ⟨ops, hrest, hrun⟩ := h.run
      rw [hrest] at hl
      rw [List.append_cancel_left hl] at hrun hrest
      exact ⟨l, t, hrest, h, hrun, ha, hop⟩

theorem mono_under {I : Journal ν β → Prop} (h : Extends allowed j k) (hj : I j)
    (hstep : ∀ l op t, I l → allowed l op → op.apply l.tree = some t → I (l.record op t))
    (hmono : ∀ l op, I l → allowed l op → allowed' l op) : Extends allowed' j k := by
  induction h with
  | refl => exact .refl
  | step h ha hop ih => exact .step ih (hmono _ _ (h.invariant hj hstep) ha) hop

end Extends

namespace FileOp

/-- What may have got through of an operation that failed or was cut off. -/
def torn (written : Nat) : FileOp ν β → Option (FileOp ν β)
  | append path bytes => some (append path (bytes.take written))
  | _ => none

def carry (o : List ν) : FileOp ν β → List ν
  | rename source target => if source <+: o then target ++ o.drop source.length else o
  | _ => o

/-- A regular file is kept by an operation that neither appends to it nor moves something over a
thing that is there; a link that leads nowhere may be moved over. -/
theorem file_of_apply_carry (h : op.apply t = some t') (hfile : t.find o = some (.file c))
    (happend : ∀ bytes, op ≠ append o bytes)
    (hr : ∀ source target, op = rename source target → (t.find target).bind Node.follow = none) :
    t'.find (op.carry o) = some (.file c) := by
  by_cases hmoves : ∃ source target, op = rename source target ∧ source <+: o
  · obtain ⟨source, target, rfl, rest, rfl⟩ := hmoves
    obtain ⟨n, hn, _⟩ := rename_eq_some h
    rw [carry, if_pos (List.prefix_append source rest), List.drop_left, find_target_of_rename h hn]
    rwa [Node.find_append_of_eq hn] at hfile
  · have hcarry : op.carry o = o := by
      unfold carry
      split
      · next source target =>
          rw [if_neg fun hsource => hmoves ⟨source, target, rfl, hsource⟩]
      · rfl
    rw [hcarry]
    refine file_of_apply h hfile happend fun source target hop =>
      ⟨fun hsource => hmoves ⟨source, target, hop, hsource⟩, ?_⟩
    have hnothing := hr source target hop
    match htarget : t.find target with
    | none => exact Or.inl rfl
    | some (.link none) => exact Or.inr rfl
    | some (.link (some _)) | some (.file _) | some (.dir _) | some .other =>
        rw [htarget] at hnothing
        cases hnothing

end FileOp

/-- An operation that leaves a path alone, takes away what is there, or renames something good
to it. -/
inductive Publishes (good : Node ν β → Prop) (o : List ν) (t : Node ν β) : FileOp ν β → Prop
  | spare {op : FileOp ν β} (h : op.Spares o) : Publishes good o t op
  | remove {target : List ν} (h : ¬ target <+: o) (h' : ¬ o <+: target) :
      Publishes good o t (.rename o target)
  | publish {source : List ν} {n : Node ν β} (hsource : t.find source = some n) (hgood : good n)
      (habsent : (t.find o).bind Node.follow = none) : Publishes good o t (.rename source o)

inductive Publication (good : Node ν β → Prop) (o : List ν) (t : Node ν β) (op : FileOp ν β)
    (t' : Node ν β) : Prop
  | kept (h : t'.find o = t.find o)
  | removed (h : t'.find o = none)
  | published {source : List ν} {n : Node ν β} (hop : op = .rename source o)
      (hsource : t.find source = some n)
      (hgood : good n) (habsent : (t.find o).bind Node.follow = none) (h : t'.find o = some n)

theorem Publishes.publication {good : Node ν β → Prop} (h : Publishes good o t op)
    (hop : op.apply t = some t') : Publication good o t op t' := by
  cases h with
  | spare h => exact .kept (FileOp.find_of_spares hop h)
  | remove h h' =>
      obtain ⟨n, _, hne, _, _, hdir, _, rfl⟩ := FileOp.rename_eq_some hop
      apply Publication.removed
      rw [Node.find_put_of_beside _ _ h h', Node.find_put _ hne]
      exact Node.dirAt_dropLast_of_find hne (by simp [*])
  | publish hsource hgood habsent =>
      refine .published rfl hsource hgood habsent ?_
      have htarget := FileOp.find_target_of_rename hop hsource []
      rwa [List.append_nil] at htarget

/-- What is at the path is nothing, what was there at first, or something good. -/
def Published (good : Node ν β → Prop) (o : List ν) (start t : Node ν β) : Prop :=
  t.find o = none ∨ t.find o = start.find o ∨ ∃ n, t.find o = some n ∧ good n

theorem Published.step {good : Node ν β → Prop} {start : Node ν β} (h : Published good o start t)
    (hop : Publication good o t op t') : Published good o start t' := by
  cases hop with
  | kept hkept =>
      rw [Published, hkept]
      exact h
  | removed hnone => exact Or.inl hnone
  | published _ _ hgood _ hfind => exact Or.inr (Or.inr ⟨_, hfind, hgood⟩)

theorem Extends.published {good : Node ν β → Prop} {start : Node ν β} (h : Extends allowed j k)
    (hallowed : ∀ l op, allowed l op → Publishes good o l.tree op)
    (hj : Published good o start j.tree) : Published good o start k.tree := by
  apply h.invariant (I := fun l => Published good o start l.tree) hj
  intro l op t hl ha hop
  exact hl.step ((hallowed l op ha).publication hop)

end ImpossibleVoice.Lib

import ImpossibleVoice.Lib.Interleaving

namespace ImpossibleVoice.Lib

inductive Updating (α : Type)
  | loading
  | comparing (seen : α)
  | updated (seen : α)
  | refused (seen : α)
  | closed
deriving DecidableEq

namespace FetchUpdate

inductive Event
  | proceed (spurious : Bool)
  | close
deriving DecidableEq

variable {α : Type} [DecidableEq α] (update : α → Option α) (close : α → α)

def loop : Event → α → Updating α → Option (α × Updating α × List (Updating α))
  | .proceed _, cell, .loading => some (cell, .comparing cell, [])
  | .proceed spurious, cell, .comparing seen =>
    match update seen with
    | none => some (cell, .refused seen, [])
    | some next =>
        if spurious = false ∧ cell = seen then some (next, .updated seen, [])
          else some (cell, .comparing cell, [])
  | .close, cell, .updated _ => some (close cell, .closed, [])
  | _, _, _ => none

def atomic : Event → α → Updating α → Option (α × Updating α × List (Updating α))
  | .proceed _, cell, .loading =>
    match update cell with
    | none => some (cell, .refused cell, [])
    | some next => some (next, .updated cell, [])
  | .close, cell, .updated _ => some (close cell, .closed, [])
  | _, _, _ => none

def looping : Program α (Updating α) Empty Event :=
  ⟨.loading, fun move _ => move.elim, loop update close⟩

def stepping : Program α (Updating α) Empty Event :=
  ⟨.loading, fun move _ => move.elim, atomic update close⟩

/-- A process that has seen a value to be refused is refused from that moment. -/
def settled : Updating α → Updating α
  | .comparing seen => match update seen with
    | none => .refused seen
    | some _ => .loading
  | place => place

def linearized (s : System α (Updating α)) : System α (Updating α) :=
  ⟨s.shared, s.processes.map (settled update)⟩

variable {update close} {event : Event} {cell after : α} {place next : Updating α}
  {left : List (Updating α)}

omit [DecidableEq α] in
theorem settled_comparing (close : α → α) (spurious : Bool) (cell : α) :
    settled update (.comparing cell) = .loading ∨
    atomic update close (.proceed spurious) cell .loading =
      some (cell, settled update (.comparing cell), []) := by
  rw [settled, atomic]
  cases update cell with
  | none => exact .inr rfl
  | some next => exact .inl rfl

/-- A step of the loop is an atomic step or none. -/
theorem loop_refines (h : loop update close event cell place = some (after, next, left)) :
    left = [] ∧
    ((after = cell ∧ settled update next = settled update place) ∨
      atomic update close event cell (settled update place) =
      some (after, settled update next, [])) := by
  cases event with
  | close =>
      cases place with
      | updated seen =>
          cases h
          exact ⟨rfl, .inr rfl⟩
      | _ => cases h
  | proceed spurious =>
      cases place with
      | loading =>
          cases h
          refine ⟨rfl, ?_⟩
          obtain hopen | hrefused := settled_comparing close spurious cell
          · exact .inl ⟨rfl, hopen⟩
          · exact .inr hrefused
      | comparing seen =>
          simp only [loop] at h
          cases hseen : update seen with
          | none =>
              rw [hseen] at h
              cases h
              refine ⟨rfl, .inl ⟨rfl, ?_⟩⟩
              simp only [settled, hseen]
          | some value =>
              have hplace : settled update (.comparing seen) = .loading := by
                rw [settled, hseen]
              rw [hplace]
              simp only [hseen] at h
              by_cases hsame : spurious = false ∧ cell = seen
              · rw [if_pos hsame] at h
                cases h
                refine ⟨rfl, .inr ?_⟩
                rw [atomic, hsame.2, hseen]
                rfl
              · rw [if_neg hsame] at h
                cases h
                refine ⟨rfl, ?_⟩
                obtain hopen | hrefused := settled_comparing close spurious cell
                · exact .inl ⟨rfl, hopen⟩
                · exact .inr hrefused
      | _ => cases h

variable {s t start : System α (Updating α)}

theorem step_refines {label : Label Empty Event}
    (h : (looping update close).step label s = some t) :
    linearized update t = linearized update s ∨
    (stepping update close).step label (linearized update s) = some (linearized update t) := by
  rcases Program.step_cases
    h with ⟨move, _⟩ | ⟨rfl, rfl⟩ | ⟨i, event, place, after, next, left, rfl, hplace, hadvance, rfl⟩
  · exact move.elim
  · right
    simp [Program.step, linearized, looping, stepping, settled]
  · obtain ⟨rfl, hstutter | hstep⟩ := loop_refines hadvance
    · left
      obtain ⟨rfl, hsame⟩ := hstutter
      have hset : (s.processes.set i next).map (settled update) =
          s.processes.map (settled update) := by
        rw [List.map_set, hsame]
        apply List.ext_getElem?
        intro j
        by_cases hij : i = j
        · subst hij
          rw [List.getElem?_set_self', List.getElem?_map, hplace]
          rfl
        · rw [List.getElem?_set_ne hij]
      rw [linearized, linearized, List.append_nil, hset]
    · right
      have hmapped : (linearized update s).processes[i]? = some (settled update place) := by
        rw [linearized, List.getElem?_map, hplace]
        rfl
      have hadvance' :
          (stepping update close).advance event (linearized update s).shared
          (settled update place) =
          some (after, settled update next, []) := hstep
      simp only [Program.step, hmapped, Option.bind_some, hadvance', Option.map_some]
      simp only [linearized, List.append_nil, List.map_set]

/-- Every run of loops is a run of atomic steps with the same cell, taken in the
same order. -/
theorem runs_refine {labels : List (Label Empty Event)}
    (h : Runs (looping update close).step start labels s) :
    ∃ points, points.Sublist labels ∧
    Runs (stepping update close).step (linearized update start) points (linearized update s) := by
  induction h with
  | nil => exact ⟨[], List.Sublist.slnil, .nil⟩
  | snoc _ hstep ih =>
      obtain ⟨points, hsub, hruns⟩ := ih
      obtain hstutter | hatomic := step_refines hstep
      · exact ⟨points, hsub.trans (List.sublist_append_left _ _), hstutter ▸ hruns⟩
      · exact ⟨points ++ [_], hsub.append (List.Sublist.refl _), .snoc hruns hatomic⟩

end FetchUpdate

end ImpossibleVoice.Lib

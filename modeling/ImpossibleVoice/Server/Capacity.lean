import ImpossibleVoice.Lib.Interleaving

namespace ImpossibleVoice.Server.Capacity

open Lib

inductive Kind
  | stt
  | tts
deriving DecidableEq

inductive Failure
  | invalidInput
  | busy
  | cancelled
  | deadlineExceeded
  | audio
  | output
  | engine
deriving DecidableEq

def usizeMax : Nat := 18446744073709551615

/-- The engines of a process, with the errors that the backend of each reports. -/
structure Engines (E : Type) where
  kind : E → Kind
  maximum : E → Nat
  reports : E → Failure → Bool
  maximum_ne_zero : ∀ e, maximum e ≠ 0
  maximum_le : ∀ e, maximum e ≤ usizeMax

inductive Point
  | input
  | check
  | audio
  | output
  | backend
deriving DecidableEq

def Point.fails (reports : Failure → Bool) : Point → Failure → Bool
  | input, failure => failure == .invalidInput
  | check, failure => failure == .cancelled || failure == .deadlineExceeded
  | audio, failure => failure == .audio
  | output, failure => failure == .output
  | backend, failure => reports failure

inductive Operation
  | transcribe
  | startStream
  | synthesize
deriving DecidableEq

def Operation.kind : Operation → Kind
  | transcribe | startStream => .stt
  | synthesize => .tts

/-- Up to `Limiter::acquire`. -/
def Operation.entry : Operation → List Point
  | transcribe | startStream => [.check]
  | synthesize => [.input, .check]

def Operation.body : Operation → List Point
  | transcribe => [.audio, .audio, .backend, .backend, .check, .backend, .check]
  | startStream => [.backend, .audio, .audio, .audio]
  | synthesize => [.backend, .check, .output, .output]

def framePoints (ended : Bool) : List Point :=
  [.check, .backend, .audio] ++ if ended then [.backend, .check, .backend] else [.backend]

/-- `push_pcm16`; without a decoded sample it returns early. -/
def pushPoints : Option (List Bool) → List Point
  | none => [.input, .check, .audio]
  | some frames => [.input, .check, .audio, .audio] ++ frames.flatMap framePoints ++ [.check]

/-- `finish`, with the residual to drain or not, and with a text to ask for or to
take. -/
def finishPoints (drains asks : Bool) : List Point :=
  [.input, .check, .audio] ++ (if drains then [.backend, .audio] else []) ++
    [if asks then .backend else .audio, .check]

inductive Phase
  | entering (op : Operation)
  | working (op : Operation)
  | pushing
  | finishing
deriving DecidableEq

/-- A caller, and what it goes on to with the session it opens. -/
inductive Caller (E : Type)
  | arrived
  | running (e : E) (phase : Phase) (rest : List Point)
  | session (e : E) (answer : Option Failure)
  | leaving (e : E) (answer : Option Failure)
  | ended (e : E) (answer : Option Failure)
deriving DecidableEq

variable {E : Type}

def Phase.returned (e : E) : Phase → Caller E
  | entering op => .running e (.working op) op.body
  | working .startStream | pushing => .session e none
  | working _ | finishing => .leaving e none

def Phase.failed (e : E) (failure : Failure) : Phase → Caller E
  | entering _ => .ended e (some failure)
  | pushing => .session e (some failure)
  | working _ | finishing => .leaving e (some failure)

inductive Event (E : Type)
  | call (e : E) (op : Operation)
  | pass
  | fail (failure : Failure)
  | push (frames : Option (List Bool))
  | finish (drains asks : Bool)
  | abandon
  | release
deriving DecidableEq

abbrev Active (E : Type) := E → Nat

variable [DecidableEq E]

/-- `fetch_update` with the guard of `Limiter::acquire`. -/
def acquire (engines : Engines E) (e : E) (active : Active E) : Option (Active E) :=
  if active e < engines.maximum e then some (Function.update active e (active e + 1)) else none

/-- `fetch_sub` of `Permit::drop`, which wraps around. -/
def release (e : E) (active : Active E) : Active E :=
  Function.update active e (if active e = 0 then usizeMax else active e - 1)

def advance (engines : Engines E) :
    Event E → Active E → Caller E → Option (Active E × Caller E × List (Caller E))
  | .call e op, active, .arrived =>
      if op.kind = engines.kind e then some (active, .running e (.entering op) op.entry, [])
        else none
  | .pass, active, .running e phase (_ :: rest) => some (active, .running e phase rest, [])
  | .pass, active, .running e (.entering op) [] =>
      match acquire engines e active with
      | some active => some (active, (Phase.entering op).returned e, [])
      | none => some (active, .ended e (some .busy), [])
  | .pass, active, .running e phase [] => some (active, phase.returned e, [])
  | .fail failure, active, .running e phase (point :: _) =>
      if point.fails (engines.reports e) failure then some (active, phase.failed e failure, [])
        else none
  | .push frames, active, .session e _ => some (active, .running e .pushing (pushPoints frames), [])
  | .finish drains asks, active, .session e _ =>
      some (active, .running e .finishing (finishPoints drains asks), [])
  | .abandon, active, .session e _ => some (active, .leaving e none, [])
  | .release, active, .leaving e answer => some (release e active, .ended e answer, [])
  | _, _, _ => none

def program (engines : Engines E) : Program (Active E) (Caller E) Empty (Event E) where
  fresh := .arrived
  environment := fun move _ => move.elim
  advance := advance engines

def Caller.holds : Caller E → Option E
  | arrived | running _ (.entering _) _ | ended _ _ => none
  | running e _ _ | session e _ | leaving e _ => some e

def Caller.answer : Caller E → Option (E × Failure)
  | arrived | running _ _ _ => none
  | session e failure | leaving e failure | ended e failure =>
      failure.map fun failure => (e, failure)

def Caller.over : Caller E → Prop
  | arrived | ended _ _ => True
  | _ => False

def held (e : E) (p : Caller E) : Nat := if p.holds = some e then 1 else 0

def sessions (e : E) : Caller E → Nat
  | .session e' _ | .running e' .pushing _ | .running e' .finishing _ => if e' = e then 1 else 0
  | _ => 0

def calls (e : E) : Caller E → Nat
  | .running e' (.working _) _ | .leaving e' _ => if e' = e then 1 else 0
  | _ => 0

theorem held_eq (e : E) (p : Caller E) : held e p = sessions e p + calls e p := by
  cases p with
  | arrived | ended => rfl
  | session e' answer | leaving e' answer => simp [held, sessions, calls, Caller.holds]
  | running e' phase rest => cases phase <;> simp [held, sessions, calls, Caller.holds]

theorem total_held (e : E) (processes : List (Caller E)) :
    total (held e) processes = total (sessions e) processes + total (calls e) processes := by
  induction processes with
  | nil => rfl
  | cons p processes ih =>
      simp only [total, ih, held_eq]
      omega

omit [DecidableEq E] in
@[simp] theorem returned_holds (e : E) (phase : Phase) : (phase.returned e).holds = some e := by
  cases phase with
  | entering op => rfl
  | working op => cases op <;> rfl
  | pushing | finishing => rfl

theorem acquire_eq_some {engines : Engines E} {e : E} {active active' : Active E}
    (h : acquire engines e active = some active') :
    active e < engines.maximum e ∧ active' = Function.update active e (active e + 1) := by
  rw [acquire] at h
  split at h
  case isTrue hfree =>
    cases h
    exact ⟨hfree, rfl⟩
  case isFalse => cases h

theorem acquire_eq_none {engines : Engines E} {e : E} {active : Active E}
    (h : acquire engines e active = none) : engines.maximum e ≤ active e := by
  rw [acquire] at h
  split at h
  case isTrue => cases h
  case isFalse hfull => exact Nat.not_lt.mp hfull

omit [DecidableEq E] in
@[simp] theorem returned_answer (e : E) (phase : Phase) : (phase.returned e).answer = none := by
  cases phase with
  | entering op => rfl
  | working op => cases op <;> rfl
  | pushing | finishing => rfl

omit [DecidableEq E] in
@[simp] theorem failed_answer (e : E) (failure : Failure) (phase : Phase) :
    (phase.failed e failure).answer = some (e, failure) := by
  cases phase <;> rfl

omit [DecidableEq E] in
@[simp] theorem failed_holds (e : E) (failure : Failure) (phase : Phase) (rest : List Point) :
    (phase.failed e failure).holds = (Caller.running e phase rest).holds := by
  cases phase <;> rfl

theorem Point.fails_busy {reports : Failure → Bool} {point : Point}
    (h : point.fails reports .busy = true) : reports .busy = true := by
  cases point with
  | backend => exact h
  | input | check | audio | output => cases h

/-- Whatever error a caller has been told, a step of the operation made it. -/
def Excused (engines : Engines E) (p : Caller E) : Prop :=
  ∀ e failure, p.answer = some (e, failure) →
    ∃ point : Point, point.fails (engines.reports e) failure = true

omit [DecidableEq E] in
theorem excused_of_silent {engines : Engines E} {p : Caller E} (h : p.answer = none) :
    Excused engines p := by
  intro e failure hanswer
  rw [h] at hanswer
  cases hanswer

theorem advance_cases {engines : Engines E} {event : Event E} {active active' : Active E}
    {p q : Caller E} {left : List (Caller E)}
    (h : advance engines event active p = some (active', q, left)) :
    left = [] ∧
    ((active' = active ∧ q.holds = p.holds ∧ Excused engines q) ∨
      (∃ e, active e < engines.maximum e ∧ active' = Function.update active e (active e + 1) ∧
      p.holds = none ∧ q.holds = some e ∧ q.answer = none) ∨
      (∃ e, engines.maximum e ≤ active e ∧ active' = active ∧ p.holds = none ∧
      q = .ended e (some .busy)) ∨
      ∃ e, active' = release e active ∧ p.holds = some e ∧ q.holds = none ∧
      q.answer = p.answer) := by
  revert h
  fun_cases advance engines event active p
  case case2 | case8 | case13 =>
    intro h
    cases h
  case case1 | case9 | case10 | case11 =>
    intro h
    cases h
    exact ⟨rfl, .inl ⟨rfl, rfl, excused_of_silent rfl⟩⟩
  case case3 e phase point rest =>
    intro h
    cases h
    refine ⟨rfl, .inl ⟨rfl, ?_, excused_of_silent rfl⟩⟩
    cases phase <;> rfl
  case case4 e op active' hacquire =>
    obtain ⟨hfree, rfl⟩ := acquire_eq_some hacquire
    intro h
    cases h
    exact ⟨rfl, .inr (.inl ⟨e, hfree, rfl, rfl, returned_holds _ _, returned_answer _ _⟩)⟩
  case case5 e op hacquire =>
    intro h
    cases h
    exact ⟨rfl, .inr (.inr (.inl ⟨e, acquire_eq_none hacquire, rfl, rfl, rfl⟩))⟩
  case case6 e phase hphase =>
    intro h
    cases h
    refine ⟨rfl, .inl ⟨rfl, ?_, excused_of_silent (returned_answer _ _)⟩⟩
    cases phase with
    | entering op => exact absurd rfl (hphase op)
    | working op => exact returned_holds _ _
    | pushing | finishing => rfl
  case case7 failure e phase point rest hfails =>
    intro h
    cases h
    refine ⟨rfl, .inl ⟨rfl, failed_holds _ _ _ _, fun e' failure' hanswer => ?_⟩⟩
    rw [failed_answer] at hanswer
    cases hanswer
    exact ⟨point, hfails⟩
  case case12 e answer =>
    intro h
    cases h
    exact ⟨rfl, .inr (.inr (.inr ⟨e, rfl, rfl, rfl, rfl⟩))⟩

theorem held_of_holds {e e' : E} {p : Caller E} (h : p.holds = some e') :
    held e p = if e' = e then 1 else 0 := by
  rw [held, h]
  simp

theorem held_of_idle {e : E} {p : Caller E} (h : p.holds = none) : held e p = 0 := by
  rw [held, h]
  rfl

/-- What the counter of an engine gains is what its caller gains. -/
theorem balanced (engines : Engines E) (e : E) :
    Balanced (program engines) (fun _ => 0) (fun active : Active E => active e) (held e) where
  fresh := rfl
  environment := fun move => move.elim
  advance := by
    intro event active p active' q left h hcovered
    obtain ⟨rfl,
        ⟨rfl, hholds, -⟩ | ⟨e', -, rfl, hp, hq, -⟩ | ⟨e', -, rfl, hp, rfl⟩ | ⟨e', rfl, hp, hq,
        -⟩⟩ :=
      advance_cases h
    · rw [held, hholds]
      rfl
    · rw [held_of_idle hp, held_of_holds hq]
      by_cases he : e' = e
      · subst he
        simp only [Function.update_self, if_true, total]
        omega
      · simp only [Function.update_of_ne (Ne.symm he), if_neg he, total]
    · rw [held_of_idle hp]
      rfl
    · rw [held_of_idle hq]
      rw [held_of_holds hp] at hcovered ⊢
      by_cases he : e' = e
      · subst he
        simp only [if_true] at hcovered
        simp only [release, Function.update_self, if_true, total,
          if_neg (show active e' ≠ 0 by omega)]
        omega
      · simp only [release, Function.update_of_ne (Ne.symm he), if_neg he, total]

def idle : System (Active E) (Caller E) := ⟨fun _ => 0, []⟩

variable {engines : Engines E} {labels : List (Lib.Label Empty (Event E))}
  {s t : System (Active E) (Caller E)}

theorem counter_eq (h : Runs (program engines).step idle labels s) (e : E) :
    s.shared e = total (sessions e) s.processes + total (calls e) s.processes := by
  have hbalanced := (balanced engines e).runs idle rfl h
  rw [Nat.zero_add, total_held] at hbalanced
  exact hbalanced.symm

/-- A caller that owns a permit is counted. -/
theorem counter_ne_zero (h : Runs (program engines).step idle labels s) {p : Caller E} {e : E}
    (hp : p ∈ s.processes) (hholds : p.holds = some e) : s.shared e ≠ 0 := by
  have hcovered := held_le_total (held e) hp
  rw [total_held, ← counter_eq h e, held_of_holds hholds, if_pos rfl] at hcovered
  omega

theorem counter_le (h : Runs (program engines).step idle labels s) (e : E) :
    s.shared e ≤ engines.maximum e := by
  induction h with
  | nil => exact Nat.zero_le _
  | @snoc labels s t label hruns hstep ih =>
      rcases Program.step_cases
        hstep with ⟨move, _⟩ | ⟨-, rfl⟩ | ⟨i, event, p, active, q, left, -, hp, hadvance, rfl⟩
      · exact move.elim
      · exact ih
      obtain ⟨-, ⟨rfl, -⟩ | ⟨e', hfree, rfl, -⟩ | ⟨e', -, rfl, -⟩ | ⟨e', rfl, hholds, -⟩⟩ :=
        advance_cases hadvance
      · exact ih
      · by_cases he : e = e'
        · subst he
          change Function.update s.shared e (s.shared e + 1) e ≤ engines.maximum e
          rw [Function.update_self]
          exact hfree
        · simpa [Function.update_of_ne he] using ih
      · exact ih
      · have hcounted := counter_ne_zero hruns (List.mem_of_getElem? hp) hholds
        by_cases he : e = e'
        · subst he
          simp only [release, Function.update_self, if_neg hcounted]
          omega
        · simpa [release, Function.update_of_ne he] using ih

def AnswersBusy (s t : System (Active E) (Caller E)) (i : Nat) (e : E) : Prop :=
  s.processes[i]?.bind Caller.answer ≠ some (e, .busy) ∧
    t.processes[i]?.bind Caller.answer = some (e, .busy)

theorem full_of_busy {i : Nat} {event : Event E} {e : E}
    (hstep : (program engines).step (.process i event) s = some t) (hbusy : AnswersBusy s t i e)
    (hnever : engines.reports e .busy = false) : engines.maximum e ≤ s.shared e := by
  obtain ⟨hbefore, hafter⟩ := hbusy
  rcases Program.step_cases
    hstep with ⟨move, _⟩ | ⟨hlabel, -⟩ | ⟨j, event, p, active, q, left, hlabel, hp, hadvance, rfl⟩
  · exact move.elim
  · cases hlabel
  · cases hlabel
    have hlength : i < s.processes.length := by
      by_contra hno
      rw [List.getElem?_eq_none (Nat.not_lt.mp hno)] at hp
      cases hp
    have hq : (s.processes.set i q ++ left)[i]? = some q := by
      rw [List.getElem?_append_left (by simpa using hlength), List.getElem?_set_self hlength]
    rw [hp] at hbefore
    change (s.processes.set i q ++ left)[i]?.bind Caller.answer = some (e, .busy) at hafter
    rw [hq] at hafter
    obtain ⟨-,
        ⟨-, -, hexcused⟩ | ⟨e', -, -, -, -, hsilent⟩ | ⟨e', hfull, -, -, rfl⟩ | ⟨e', -, -, -,
        hsame⟩⟩ :=
      advance_cases hadvance
    · obtain ⟨point, hpoint⟩ := hexcused _ _ hafter
      rw [Point.fails_busy hpoint] at hnever
      cases hnever
    · rw [Option.bind_some, hsilent] at hafter
      cases hafter
    · cases hafter
      exact hfull
    · rw [Option.bind_some, hsame] at hafter
      exact absurd hafter hbefore

theorem idle_of_over {e : E} {p : Caller E} (h : p.over) : held e p = 0 := by
  cases p with
  | arrived | ended => rfl
  | running | session | leaving => cases h

structure Exact (engines : Engines E) (s : System (Active E) (Caller E)) : Prop where
  counted : ∀ e, s.shared e = total (sessions e) s.processes + total (calls e) s.processes
  bounded : ∀ e, s.shared e ≤ engines.maximum e
  released : ∀ e answer, .leaving e answer ∈ s.processes → s.shared e ≠ 0
  refused : ∀ i event t e, (program engines).step (.process i event) s = some t →
    AnswersBusy s t i e →
    engines.reports e .busy = false →
      total (sessions e) s.processes + total (calls e) s.processes = engines.maximum e
  restored : (∀ p ∈ s.processes, p.over) → ∀ e, s.shared e = 0

/-- The counters are exact in every interleaving. -/
theorem capacity_is_exact (engines : Engines E) {labels : List (Lib.Label Empty (Event E))}
    {s : System (Active E) (Caller E)} (h : Runs (program engines).step idle labels s) :
    Exact engines s where
  counted := counter_eq h
  bounded := counter_le h
  released := fun _ _ hmem => counter_ne_zero h hmem rfl
  refused := fun _ _ _ e hstep hbusy hnever => by
    rw [← counter_eq h e]
    exact Nat.le_antisymm (counter_le h e) (full_of_busy hstep hbusy hnever)
  restored := fun hover e => by
    rw [counter_eq h e, ← total_held]
    exact total_eq_zero fun p hp => idle_of_over (hover p hp)

def defaultEngines : Engines Kind where
  kind := id
  maximum
    | .stt => 2
    | .tts => 1
  reports _ failure := failure == .engine
  maximum_ne_zero e := by cases e <;> decide
  maximum_le e := by cases e <;> decide

def taken : System (Active Kind) (Caller Kind) :=
  ⟨Function.update (fun _ => 0) .tts 1,
    [.running .tts (.working .synthesize) Operation.synthesize.body, .ended .tts (some .busy)]⟩

theorem second_synthesis_is_counted : Exact defaultEngines taken := by
  have hruns : Runs (program defaultEngines).step idle
      [.arrive, .arrive, .process 0 (.call .tts .synthesize), .process 1 (.call .tts .synthesize),
        .process 0 .pass,
        .process 0 .pass, .process 0 .pass, .process 1 .pass, .process 1 .pass, .process 1 .pass]
          taken :=
    runs_iff_run.mpr rfl
  exact capacity_is_exact defaultEngines hruns

end ImpossibleVoice.Server.Capacity

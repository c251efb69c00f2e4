import ImpossibleVoice.Server.Admission

namespace ImpossibleVoice.Server.Draining

open Lib

structure Shared where
  gate : Gate
  stopped : Bool
deriving DecidableEq

/-- Where a task is. The token is raised after the mutex has been given back;
`drain` answers after that. -/
inductive Caller
  | idle
  | refused
  | working
  | waiting
  | woken
  | notifying (answer : Option DrainOutcome)
  | answered (outcome : DrainOutcome)
  | done
deriving DecidableEq

inductive Event
  | tryEnter
  | leave
  | drain
  | stopNow
  | timeout
  | drop
  | proceed
deriving DecidableEq

def completed (answer : Option DrainOutcome) : Caller :=
  match answer with
  | some outcome => .answered outcome
  | none => .done

def advance : Event → Shared → Caller → Option (Shared × Caller × List Caller)
  | .tryEnter, s, .idle =>
    match s.gate.tryEnter with
    | some gate => some ({ s with gate }, .working, [])
    | none => some (s, .refused, [])
  | .leave, s, .working =>
    some ({ s with gate := s.gate.leave },
      if s.gate.active - 1 = 0 ∧ s.gate.phase = .draining then .notifying none else .done, [])
  | .drain, s, .idle =>
    match s.gate.phase with
    | .stopped outcome => some (s, .answered outcome, [])
    | .accepting | .draining =>
      some
        ({ s with gate := s.gate.beginDrain }, if s.gate.active = 0 then .notifying (some .graceful)
        else .waiting, [])
  | .stopNow, s, .idle => some ({ s with gate := s.gate.stopNow }, .notifying none, [])
  | .timeout, s, .waiting => some ({ s with gate := s.gate.stopNow }, .notifying (some .forced), [])
  | .drop, s, .waiting => some ({ s with gate := s.gate.stopNow }, .notifying none, [])
  | .proceed, s, .waiting => if s.stopped = true then some (s, .woken, []) else none
  | .proceed, s, .woken => some (s, .answered s.gate.terminalOutcome, [])
  | .proceed, s, .notifying answer => some ({ s with stopped := true }, completed answer, [])
  | _, _, _ => none

def tasks : Program Shared Caller Empty Event := ⟨.idle, fun move _ => move.elim, advance⟩

def start : System Shared Caller := ⟨⟨.new, false⟩, []⟩

inductive Step (s : Shared) : Caller → Shared → Caller → Prop
  | enter (h : s.gate.phase = .accepting) :
      Step s .idle { s with gate := { s.gate with active := s.gate.active + 1 } } .working
  | refuse : Step s .idle s .refused
  | leaveLast (h : s.gate.active - 1 = 0 ∧ s.gate.phase = .draining) :
      Step s .working { s with gate := ⟨.stopped .graceful, s.gate.active - 1⟩ } (.notifying none)
  | leave (h : ¬ (s.gate.active - 1 = 0 ∧ s.gate.phase = .draining)) :
      Step s .working { s with gate := { s.gate with active := s.gate.active - 1 } } .done
  | join (outcome : DrainOutcome) (h : s.gate.phase = .stopped outcome) :
      Step s .idle s (.answered outcome)
  | drainIdle (h : s.gate.active = 0) (hphase : ∀ outcome, s.gate.phase ≠ .stopped outcome) :
      Step s .idle { s with gate := { s.gate with phase := .stopped .graceful } }
        (.notifying (some .graceful))
  | drainBusy (h : s.gate.active ≠ 0) (hphase : ∀ outcome, s.gate.phase ≠ .stopped outcome) :
      Step s .idle { s with gate := { s.gate with phase := .draining } } .waiting
  | stopNow (place : Caller) (answer : Option DrainOutcome) (h : answer ≠ some .graceful)
      (hplace : place = .idle ∨ place = .waiting) :
      Step s place { s with gate := s.gate.stopNow } (.notifying answer)
  | wake (h : s.stopped = true) : Step s .waiting s .woken
  | answer : Step s .woken s (.answered s.gate.terminalOutcome)
  | notify (answer : Option DrainOutcome) :
      Step s (.notifying answer) { s with stopped := true } (completed answer)

variable {s t : Shared} {p q : Caller} {left : List Caller} {event : Event}

theorem step_of_drain (h : advance .drain s .idle = some (t, q, left)) :
    left = [] ∧ Step s .idle t q := by
  have hopen (hphase : ∀ outcome, s.gate.phase ≠ .stopped outcome)
      (hdrain : s.gate.beginDrain = if s.gate.active = 0 then
        { s.gate with phase := .stopped .graceful }
        else { s.gate with phase := .draining })
      (h : some (({ s with gate := s.gate.beginDrain } : Shared),
        (if s.gate.active = 0 then Caller.notifying (some .graceful) else .waiting),
          ([] : List Caller)) = some (t, q, left)) :
      left = [] ∧ Step s .idle t q := by
    rw [hdrain] at h
    by_cases hidle : s.gate.active = 0
    · rw [if_pos hidle, if_pos hidle] at h
      cases h
      exact ⟨rfl, .drainIdle hidle hphase⟩
    · rw [if_neg hidle, if_neg hidle] at h
      cases h
      exact ⟨rfl, .drainBusy hidle hphase⟩
  cases hphase : s.gate.phase with
  | stopped outcome =>
      simp only [advance, hphase] at h
      cases h
      exact ⟨rfl, .join outcome hphase⟩
  | accepting | draining =>
      simp only [advance, hphase] at h
      refine hopen (fun outcome hstopped => by rw [hphase] at hstopped; cases hstopped) ?_ h
      simp only [Gate.beginDrain, hphase]

theorem step_of_advance (h : advance event s p = some (t, q, left)) : left = [] ∧ Step s p t q := by
  cases event with
  | tryEnter =>
      cases p with
      | idle =>
          simp only [advance, Gate.tryEnter] at h
          by_cases hopen : s.gate.phase = .accepting ∧ s.gate.active < usizeMax
          · rw [if_pos hopen] at h
            cases h
            exact ⟨rfl, .enter hopen.1⟩
          · rw [if_neg hopen] at h
            cases h
            exact ⟨rfl, .refuse⟩
      | _ => cases h
  | leave =>
      cases p with
      | working =>
          simp only [advance, Gate.leave] at h
          by_cases hlast : s.gate.active - 1 = 0 ∧ s.gate.phase = .draining
          · rw [if_pos hlast, if_pos hlast] at h
            cases h
            exact ⟨rfl, .leaveLast hlast⟩
          · rw [if_neg hlast, if_neg hlast] at h
            cases h
            exact ⟨rfl, .leave hlast⟩
      | _ => cases h
  | drain =>
      cases p with
      | idle => exact step_of_drain h
      | _ => cases h
  | stopNow =>
      cases p with
      | idle =>
          cases h
          exact ⟨rfl, .stopNow _ _ (by decide) (.inl rfl)⟩
      | _ => cases h
  | timeout | drop =>
      cases p with
      | waiting =>
          cases h
          exact ⟨rfl, .stopNow _ _ (by decide) (.inr rfl)⟩
      | _ => cases h
  | proceed =>
      cases p with
      | waiting =>
          simp only [advance] at h
          by_cases hstopped : s.stopped = true
          · rw [if_pos hstopped] at h
            cases h
            exact ⟨rfl, .wake hstopped⟩
          · rw [if_neg hstopped] at h
            cases h
      | woken =>
          cases h
          exact ⟨rfl, .answer⟩
      | notifying answer =>
          cases h
          exact ⟨rfl, .notify answer⟩
      | _ => cases h

theorem stopNow_active (gate : Gate) : gate.stopNow.active = gate.active := by
  rw [Gate.stopNow]
  cases gate.phase <;> rfl

theorem stopNow_of_stopped {gate : Gate} {outcome : DrainOutcome}
    (h : gate.phase = .stopped outcome) : gate.stopNow.phase = .stopped outcome := by
  rw [Gate.stopNow, h]
  exact h

theorem stopNow_phase (gate : Gate) :
    gate.stopNow.phase = gate.phase ∨ gate.stopNow.phase = .stopped .forced := by
  cases h : gate.phase with
  | stopped outcome => exact .inl (stopNow_of_stopped h)
  | accepting | draining =>
      right
      rw [Gate.stopNow, h]

theorem stopNow_stopped (gate : Gate) : ∃ outcome, gate.stopNow.phase = .stopped outcome := by
  cases h : gate.phase with
  | stopped outcome => exact ⟨outcome, stopNow_of_stopped h⟩
  | accepting | draining => exact ⟨.forced, by rw [Gate.stopNow, h]⟩

def Stopped (s : Shared) : Prop := ∃ outcome, s.gate.phase = .stopped outcome

/-- A gate that stops stays so, and never accepts again; a token stays raised. -/
structure Later (s t : Shared) : Prop where
  phase : ∀ outcome, s.gate.phase = .stopped outcome → t.gate.phase = .stopped outcome
  closed : s.gate.phase ≠ .accepting → t.gate.phase ≠ .accepting
  raised : s.stopped = true → t.stopped = true

theorem Step.later (h : Step s p t q) : Later s t := by
  cases h with
  | enter | refuse | leave | join | wake | answer => exact ⟨fun _ h => h, fun h => h, fun h => h⟩
  | leaveLast hlast =>
      refine ⟨fun outcome h => ?_, fun _ h => (by cases h), fun h => h⟩
      rw [hlast.2] at h
      cases h
  | drainIdle _ hphase | drainBusy _ hphase =>
      exact ⟨fun outcome h => absurd h (hphase outcome), fun _ h => (by cases h), fun h => h⟩
  | stopNow =>
      refine ⟨fun _ => stopNow_of_stopped, fun _ h => ?_, fun h => h⟩
      obtain ⟨outcome, hstopped⟩ := stopNow_stopped s.gate
      rw [hstopped] at h
      cases h
  | notify => exact ⟨fun _ h => h, fun h => h, fun _ => rfl⟩

structure Coherent (s : Shared) : Prop where
  raised : s.stopped = true → Stopped s
  draining : s.gate.phase = .draining → s.gate.active ≠ 0
  graceful : s.gate.phase = .stopped .graceful → s.gate.active = 0

def Outcome (s : Shared) : DrainOutcome → Prop
  | .graceful => s.gate.phase = .stopped .graceful
  | .forced => Stopped s

def Honest (s : Shared) : Caller → Prop
  | .waiting => s.gate.phase ≠ .accepting
  | .woken => s.stopped = true
  | .notifying none => Stopped s
  | .notifying (some outcome) | .answered outcome => Outcome s outcome
  | _ => True

theorem Outcome.later {outcome : DrainOutcome} (h : Outcome s outcome) (hlater : Later s t) :
    Outcome t outcome := by
  cases outcome with
  | graceful => exact hlater.phase _ h
  | forced => exact h.imp fun _ => hlater.phase _

theorem Honest.later (h : Honest s p) (hlater : Later s t) : Honest t p := by
  cases p with
  | waiting => exact hlater.closed h
  | woken => exact hlater.raised h
  | notifying answer =>
      cases answer with
      | none => exact Exists.imp (fun _ => hlater.phase _) h
      | some outcome => exact Outcome.later h hlater
  | answered outcome => exact Outcome.later h hlater
  | idle | refused | working | done => trivial

theorem outcome_of_stopped {outcome : DrainOutcome} (h : s.gate.phase = .stopped outcome) :
    Outcome s outcome := by
  cases outcome with
  | graceful => exact h
  | forced => exact ⟨_, h⟩

theorem stopped_of_notifying {answer : Option DrainOutcome} (h : Honest s (.notifying answer)) :
    Stopped s := by
  cases answer with
  | none => exact h
  | some outcome =>
      cases outcome with
      | graceful => exact ⟨_, h⟩
      | forced => exact h

theorem Step.coherent (h : Step s p t q) (hs : Coherent s) (hp : Honest s p) : Coherent t := by
  have hraised (hstopped : Stopped s) : Stopped t := hstopped.imp fun _ => h.later.phase _
  cases h with
  | refuse | join | wake | answer => exact hs
  | enter hopen =>
      refine ⟨fun h => hraised (hs.raised h), fun _ => Nat.succ_ne_zero _, fun h => ?_⟩
      rw [hopen] at h
      cases h
  | leaveLast hlast =>
      exact ⟨fun h => hraised (hs.raised h), fun h => (by cases h), fun _ => hlast.1⟩
  | leave hmore =>
      refine ⟨fun h => hraised (hs.raised h), fun h hzero => hmore ⟨hzero, h⟩, fun h => ?_⟩
      show s.gate.active - 1 = 0
      rw [hs.graceful h]
  | drainIdle hidle => exact ⟨fun h => hraised (hs.raised h), fun h => (by cases h), fun _ => hidle⟩
  | drainBusy hbusy => exact ⟨fun h => hraised (hs.raised h), fun _ => hbusy, fun h => (by cases h)⟩
  | stopNow =>
      refine ⟨fun _ => stopNow_stopped s.gate, fun h => ?_, fun h => ?_⟩
      · obtain ⟨outcome, hstopped⟩ := stopNow_stopped s.gate
        rw [hstopped] at h
        cases h
      · show s.gate.stopNow.active = 0
        rw [stopNow_active]
        obtain hsame | hforced := stopNow_phase s.gate
        · exact hs.graceful (hsame.symm.trans h)
        · rw [hforced] at h
          cases h
  | notify => exact ⟨fun _ => hraised (stopped_of_notifying hp), hs.draining, hs.graceful⟩

theorem Step.honest (h : Step s p t q) (hs : Coherent s) (hp : Honest s p) : Honest t q := by
  cases h with
  | enter | refuse | leave => trivial
  | leaveLast => exact ⟨_, rfl⟩
  | join outcome hstopped => exact outcome_of_stopped hstopped
  | drainIdle => rfl
  | drainBusy => exact fun h => by cases h
  | stopNow place answer hanswer =>
      cases answer with
      | none => exact stopNow_stopped s.gate
      | some outcome =>
          cases outcome with
          | graceful => exact absurd rfl hanswer
          | forced => exact stopNow_stopped s.gate
  | wake hstopped => exact hstopped
  | answer =>
      obtain ⟨outcome, hstopped⟩ := hs.raised hp
      have hterminal : s.gate.terminalOutcome = outcome := by
        rw [Gate.terminalOutcome, hstopped]
      rw [hterminal]
      exact outcome_of_stopped hstopped
  | notify answer =>
      cases answer with
      | none => trivial
      | some outcome => exact hp

theorem steady : Steady tasks Coherent Honest where
  fresh _ := trivial
  environment move := move.elim
  advance event s p t q left hs hp h := by
    obtain ⟨rfl, hstep⟩ := step_of_advance h
    exact ⟨hstep.coherent hs hp, hstep.honest hs hp, fun _ hr => absurd hr List.not_mem_nil,
      fun r hr => hr.later hstep.later⟩

def guards : Caller → Nat
  | .working => 1
  | _ => 0

theorem balanced : Balanced tasks (fun _ => 0) (fun s => s.gate.active) guards where
  fresh := rfl
  environment move := move.elim
  advance event s p t q left h hcovers := by
    obtain ⟨rfl, hstep⟩ := step_of_advance h
    cases hstep with
    | enter | leaveLast | leave =>
        simp only [guards, total] at hcovers ⊢
        omega
    | stopNow place answer _ hplace =>
        obtain rfl | rfl := hplace
        · simp only [guards, total, stopNow_active]
        · simp only [guards, total, stopNow_active]
    | notify answer => cases answer <;> rfl
    | _ => rfl

/-- Once the gate has stopped, its token is raised or a task is about to raise it. -/
def Announced (s : System Shared Caller) : Prop :=
  Stopped s.shared → s.shared.stopped = true ∨ ∃ answer, .notifying answer ∈ s.processes

theorem Step.announces (h : Step s p t q) (ht : Stopped t) :
    Stopped s ∨ ∃ answer, q = .notifying answer := by
  cases h with
  | leaveLast | drainIdle | stopNow => exact .inr ⟨_, rfl⟩
  | drainBusy => exact ht.elim fun _ h => by cases h
  | enter hopen =>
      obtain ⟨outcome, hstopped⟩ := ht
      rw [hopen] at hstopped
      cases hstopped
  | refuse | leave | join | wake | answer | notify => exact .inl ht

theorem Step.raises {answer : Option DrainOutcome} (h : Step s (.notifying answer) t q) :
    t.stopped = true := by
  cases h with
  | notify => rfl
  | stopNow _ _ _ hplace => exact hplace.elim (fun h => by cases h) fun h => by cases h

theorem Announced.step {s t : System Shared Caller} {label : Lib.Label Empty Event}
    (hs : Announced s) (h : tasks.step label s = some t) : Announced t := by
  rcases Program.step_cases
    h with ⟨move, _⟩ | ⟨-, rfl⟩ | ⟨i, event, p, shared, q, left, -, hp, hadvance, rfl⟩
  · exact move.elim
  · intro hstopped
    exact (hs hstopped).imp_right fun ⟨answer, hmem⟩ => ⟨answer, List.mem_append_left _ hmem⟩
  · obtain ⟨rfl, hstep⟩ := step_of_advance hadvance
    intro hstopped
    rw [List.append_nil]
    have hmoved : q ∈ s.processes.set i q := List.mem_set (List.getElem?_eq_some_iff.mp hp).1 q
    obtain hbefore | ⟨answer, rfl⟩ := hstep.announces hstopped
    · obtain hraised | ⟨answer, hmem⟩ := hs hbefore
      · exact .inl (hstep.later.raised hraised)
      · obtain ⟨j, hj⟩ := List.mem_iff_getElem?.mp hmem
        by_cases hij : i = j
        · subst hij
          rw [hp] at hj
          cases hj
          exact .inl hstep.raises
        · refine .inr ⟨answer, List.mem_iff_getElem?.mpr ⟨j, ?_⟩⟩
          rw [List.getElem?_set_ne hij, hj]
    · exact .inr ⟨answer, hmoved⟩

/-- However tasks enter, leave, drain, time out, give up and force the gate: its count
is that of the guards; a drain that has answered `Graceful` is right, and no guard is out
then or later; after any answer the gate is closed for good; and a drain that
waits has someone to wake it. -/
theorem drains_are_truthful (labels : List (Lib.Label Empty Event)) (s : System Shared Caller)
    (h : Runs tasks.step start labels s) :
    total guards s.processes = s.shared.gate.active ∧
    (.answered .graceful ∈ s.processes →
      s.shared.gate.phase = .stopped .graceful ∧ .working ∉ s.processes) ∧
    (∀ outcome, .answered outcome ∈ s.processes →
      Stopped s.shared ∧ s.shared.gate.tryEnter = none) ∧
    (.waiting ∈ s.processes →
      s.shared.stopped = true ∨ (∃ answer, .notifying answer ∈ s.processes) ∨
      .working ∈ s.processes) := by
  have hcoherent : Coherent start.shared :=
    ⟨fun h => (by cases h), fun h => (by cases h), fun h => (by cases h)⟩
  obtain ⟨hshared, hhonest⟩ := steady.runs ⟨hcoherent, fun _ hp => absurd hp List.not_mem_nil⟩ h
  have hbalance := balanced.runs start rfl h
  rw [Nat.zero_add] at hbalance
  have hannounced : Announced s :=
    Runs.invariant (P := fun _ s => Announced s)
      (fun hstopped => hstopped.elim fun _ h => by cases h)
      (fun _ _ _ _ hs hstep => hs.step hstep) h
  refine ⟨hbalance, fun hgraceful => ?_, fun outcome hanswered => ?_, fun hwaiting => ?_⟩
  · have hphase : s.shared.gate.phase = .stopped .graceful := hhonest _ hgraceful
    refine ⟨hphase, fun hworking => ?_⟩
    have hheld : guards .working ≤ total guards s.processes := held_le_total guards hworking
    rw [hbalance, hshared.graceful hphase] at hheld
    exact absurd hheld (by decide)
  · have hstopped : Stopped s.shared := by
      cases outcome with
      | graceful => exact ⟨_, hhonest _ hanswered⟩
      | forced => exact hhonest _ hanswered
    refine ⟨hstopped, ?_⟩
    obtain ⟨last, hlast⟩ := hstopped
    rw [Gate.tryEnter, if_neg fun hopen => by rw [hlast] at hopen; cases hopen.1]
  · have hclosed : s.shared.gate.phase ≠ .accepting := hhonest _ hwaiting
    cases hphase : s.shared.gate.phase with
    | accepting => exact absurd hphase hclosed
    | stopped outcome => exact (hannounced ⟨outcome, hphase⟩).imp_right .inl
    | draining =>
        right
        right
        have hactive := hshared.draining hphase
        by_contra hnone
        apply hactive
        rw [← hbalance]
        refine total_eq_zero fun p hp => ?_
        cases p with
        | working => exact absurd hp hnone
        | _ => rfl

def overdue : List (Lib.Label Empty Event) :=
  [.arrive, .arrive, .arrive, .process 0 .tryEnter, .process 1 .drain, .process 2 .drain,
    .process 1 .timeout, .process 0 .leave,
    .process 1 .proceed, .process 2 .proceed, .process 2 .proceed]

theorem an_overdue_drain_closes_the_gate :
    ∃ s, Runs tasks.step start overdue s ∧ .answered .forced ∈ s.processes ∧ Stopped s.shared ∧
    s.shared.gate.tryEnter = none := by
  have hruns : Runs tasks.step start overdue
      ⟨⟨⟨.stopped .forced, 0⟩, true⟩, [.done, .answered .forced, .answered .forced]⟩ :=
        runs_iff_run.mpr rfl
  exact ⟨_, hruns, by decide, (drains_are_truthful overdue _ hruns).2.2.1 .forced (by decide)⟩

end ImpossibleVoice.Server.Draining

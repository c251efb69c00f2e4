import ImpossibleVoice.Server.AdmissionControl
import ImpossibleVoice.Lib.Timeout

namespace ImpossibleVoice.Server.Cleanup

open Lib

inductive ProcessState
  | starting
  | running
  | draining
  | stopped
deriving DecidableEq

inductive Path
  | listener (failed : Bool)
  | signal (drain : DrainOutcome) (timedOut : Bool)
deriving DecidableEq

def Path.httpForced : Path → Bool
  | listener _ => false
  | signal drain timedOut => drain == .forced || timedOut

inductive Served
  | ok
  | timedOut (bound : ServeError)
  | failed
deriving DecidableEq

def Path.served (completed : Bool) : Path → Served
  | listener failed =>
      if completed = false then .timedOut .workloadShutdown else if failed = true then .failed
        else .ok
  | signal drain timedOut =>
      if (signal drain timedOut).httpForced = true then .timedOut .httpDrain
      else if completed = false then .timedOut .workloadShutdown
      else .ok

inductive Host
  | selecting
  | ended (failed : Bool)
  | beginning (deadline : Nat)
  | draining (deadline gateDeadline : Nat) (wait : Wait)
  | closing (deadline : Nat) (drain : DrainOutcome) (wait : Wait)
  | deciding (deadline : Nat) (path : Path)
  | starting (deadline : Nat) (path : Path)
  | checking (deadline : Nat) (path : Path)
  | cleaning (deadline : Nat) (path : Path) (wait : Wait)
  | finishing (deadline : Nat) (path : Path) (completed : Bool)
  | returned (deadline : Nat) (path : Path) (completed : Bool)
deriving DecidableEq

structure Poll where
  time : Nat
  ready : Bool
deriving DecidableEq

structure Ended where
  time : Nat
  failed : Bool
deriving DecidableEq

/-- The tokens, the gate and the process state; and, of the past, when the
listener ended and what the host's polls of it and of the cleanup found. -/
structure State where
  now : Nat
  signalled : Bool
  listener : Option Ended
  gate : Gate
  stopped : Bool
  publishing : Bool
  process : ProcessState
  force : Bool
  host : Host
  looks : List Poll
  polls : List Poll
deriving DecidableEq

def State.start (now : Nat) : State :=
  ⟨now, false, none, .new, false, false, .running, false, .selecting, [], []⟩

/-- A step of the host is labelled with the answer of the cleanup future, should
it be polled. -/
inductive Label
  | tick (passed : Nat)
  | signal
  | listenerEnds (failed : Bool)
  | enter
  | leave
  | cancelStop
  | takeListener
  | takeSignal
  | host (ready : Bool)
deriving DecidableEq

namespace State

def record (wait : Wait) (now : Nat) (ready : Bool) (polls : List Poll) : List Poll :=
  match wait with
  | .value => polls ++ [⟨now, ready⟩]
  | .timer => polls

def look (wait : Wait) (s : State) : State :=
  { s with looks := record wait s.now s.listener.isSome s.looks }

def poll (wait : Wait) (ready : Bool) (s : State) : State :=
  { s with polls := record wait s.now ready s.polls }

def stopNow (s : State) : State := { s with gate := s.gate.stopNow, stopped := true }

/-- `poll_workload_shutdown` and what comes before it, one access at a time. -/
def advance (timeout : Nat) (ready : Bool) (s : State) : Option State :=
  match s.host with
  | .selecting => none
  | .ended failed => some { s.stopNow with host := .starting (s.now + timeout) (.listener failed) }
  | .beginning deadline =>
      match s.gate.beginDrain.phase with
      | .stopped drain =>
          some
            { s with
              gate := s.gate.beginDrain, stopped := true, host := .closing deadline drain .value }
      | _ =>
          some
            { s with
              gate := s.gate.beginDrain, host := .draining deadline (s.now + timeout) .value }
  | .draining deadline gateDeadline wait =>
      match timeoutAt gateDeadline s.now s.stopped wait with
      | .ready => some { s with host := .closing deadline s.gate.terminalOutcome .value }
      | .elapsed => some { s.stopNow with host := .closing deadline .forced .value }
      | .pending wait => some { s with host := .draining deadline gateDeadline wait }
  | .closing deadline drain wait =>
      match timeoutAt deadline s.now s.listener.isSome wait with
      | .ready => some { s.look wait with host := .deciding deadline (.signal drain false) }
      | .elapsed => some { s.look wait with host := .deciding deadline (.signal drain true) }
      | .pending next => some { s.look wait with host := .closing deadline drain next }
  | .deciding deadline path =>
      if path.httpForced = true then
        some { s.stopNow with force := true, host := .starting deadline path }
      else some { s with host := .starting deadline path }
  | .starting deadline path =>
      if ready = true then some { s.poll .value ready with host := .finishing deadline path true }
      else some { s.poll .value ready with host := .checking deadline path }
  | .checking deadline path =>
      if deadline ≤ s.now then some { s with force := true, host := .finishing deadline path false }
      else some { s with host := .cleaning deadline path .value }
  | .cleaning deadline path wait =>
      match timeoutAt deadline s.now ready wait with
      | .ready => some { s.poll wait ready with host := .finishing deadline path true }
      | .elapsed =>
          some { s.poll wait ready with force := true, host := .finishing deadline path false }
      | .pending next => some { s.poll wait ready with host := .cleaning deadline path next }
  | .finishing deadline path completed =>
      some { s with process := .stopped, host := .returned deadline path completed }
  | .returned _ _ _ => none

end State

/-- `publishing` is a guard's drop between the gate's lock and the token. -/
def step (timeout : Nat) (label : Label) (s : State) : Option State :=
  match label with
  | .tick passed => some { s with now := s.now + passed }
  | .signal => some { s with signalled := true }
  | .listenerEnds failed =>
      match s.listener with
      | none => some { s with listener := some ⟨s.now, failed⟩ }
      | some _ => none
  | .enter => s.gate.tryEnter.map fun gate => { s with gate }
  | .leave =>
      if s.gate.active = 0 then none
      else some
        { s with
          gate := s.gate.leave, publishing := s.publishing || s.gate.phase != s.gate.leave.phase }
  | .cancelStop =>
      if s.publishing = true then some { s with stopped := true, publishing := false } else none
  | .takeListener =>
      match s.host, s.listener with
      | .selecting, some ended => some { s with process := .draining, host := .ended ended.failed }
      | _, _ => none
  | .takeSignal =>
      match s.host, s.signalled with
      | .selecting, true =>
          some { s with process := .draining, host := .beginning (s.now + timeout) }
      | _, _ => none
  | .host ready => s.advance timeout ready

def lastReady (polls : List Poll) : Bool := (polls.getLast?.map Poll.ready).getD false

def Path.Forced (looks : List Poll) : Path → Prop
  | listener _ => False
  | signal drain _ => drain = .forced ∨ lastReady looks = false

namespace Host

def process : Host → ProcessState
  | selecting => .running
  | returned _ _ _ => .stopped
  | _ => .draining

def force : Host → Bool
  | starting _ path | checking _ path | cleaning _ path _ => path.httpForced
  | finishing _ path completed | returned _ path completed => path.httpForced || !completed
  | _ => false

def Closed (gate : Gate) (stopped : Bool) : Prop :=
  (∃ outcome, gate.phase = .stopped outcome) ∧ stopped = true

def Admits (gate : Gate) (stopped : Bool) : Host → Prop
  | selecting | ended _ | beginning _ => gate.phase = .accepting
  | draining _ _ _ => gate.phase ≠ .accepting
  | _ => Closed gate stopped

def LookedAt (looks : List Poll) (now deadline : Nat) : Path → Prop
  | .listener _ => True
  | .signal _ timedOut => lastReady looks = !timedOut ∧ (timedOut = true → deadline ≤ now)

def Looked (looks : List Poll) (now : Nat) : Host → Prop
  | closing _ _ wait => wait = .timer → lastReady looks = false
  | deciding deadline path | starting deadline path | checking deadline path | cleaning
    deadline path _
  | finishing deadline path _ | returned deadline path _ => LookedAt looks now deadline path
  | _ => True

def Polled (polls : List Poll) (now : Nat) : Host → Prop
  | checking _ _ | cleaning _ _ _ => polls ≠ [] ∧ lastReady polls = false
  | finishing deadline _ completed | returned deadline _ completed =>
      polls ≠ [] ∧ lastReady polls = completed ∧ (completed = false → deadline ≤ now)
  | _ => polls = []

end Host

structure Invariant (s : State) : Prop where
  process : s.process = s.host.process
  force : s.force = s.host.force
  admits : s.host.Admits s.gate s.stopped
  looked : s.host.Looked s.looks s.now
  polled : s.host.Polled s.polls s.now
  sound : s.stopped = true ∨ s.publishing = true → ∃ outcome, s.gate.phase = .stopped outcome

theorem start_invariant (now : Nat) : Invariant (.start now) where
  process := rfl
  force := rfl
  admits := rfl
  looked := trivial
  polled := rfl
  sound := by rintro (h | h) <;> cases h

@[simp] theorem lastReady_append (polls : List Poll) (poll : Poll) :
    lastReady (polls ++ [poll]) = poll.ready := by
  simp [lastReady]

theorem append_poll_ne_nil (polls : List Poll) (poll : Poll) : polls ++ [poll] ≠ [] :=
  List.append_ne_nil_of_right_ne_nil _ (List.cons_ne_nil _ _)

theorem stopNow_stopped (gate : Gate) : ∃ outcome, gate.stopNow.phase = .stopped outcome := by
  rw [Gate.stopNow]
  split
  case h_1 outcome hphase => exact ⟨outcome, hphase⟩
  all_goals exact ⟨.forced, rfl⟩

theorem leave_phase_cases (gate : Gate) :
    gate.leave.phase = gate.phase ∨
    (gate.phase = .draining ∧ gate.leave.phase = .stopped .graceful) := by
  rw [Gate.leave]
  split
  case isTrue h => exact .inr ⟨h.2, rfl⟩
  case isFalse => exact .inl rfl

structure Outside (s t : State) : Prop where
  host : t.host = s.host
  process : t.process = s.process
  force : t.force = s.force
  looks : t.looks = s.looks
  polls : t.polls = s.polls
  now : s.now ≤ t.now
  stopped : s.stopped = true → t.stopped = true
  phase : t.gate.phase = s.gate.phase ∨
    (s.gate.phase = .draining ∧ t.gate.phase = .stopped .graceful)
  sound : (s.stopped = true ∨ s.publishing = true → ∃ outcome, s.gate.phase = .stopped outcome) →
    t.stopped = true ∨ t.publishing = true → ∃ outcome, t.gate.phase = .stopped outcome

variable {s t : State}

theorem Outside.closed (h : Outside s t) (hs : Host.Closed s.gate s.stopped) :
    Host.Closed t.gate t.stopped := by
  obtain ⟨⟨outcome, hphase⟩, hstopped⟩ := hs
  refine ⟨⟨outcome, ?_⟩, h.stopped hstopped⟩
  obtain hsame | ⟨hdraining, -⟩ := h.phase
  · rw [hsame, hphase]
  · rw [hphase] at hdraining
    cases hdraining

theorem Outside.accepting (h : Outside s t) :
    t.gate.phase = .accepting ↔ s.gate.phase = .accepting := by
  obtain hsame | ⟨hdraining, hgraceful⟩ := h.phase
  · rw [hsame]
  · rw [hdraining, hgraceful]
    constructor <;> intro hno <;> cases hno

theorem Outside.lookedAt (h : Outside s t) {deadline : Nat} {path : Path}
    (hs : Host.LookedAt s.looks s.now deadline path) :
    Host.LookedAt t.looks t.now deadline path := by
  rw [h.looks]
  cases path with
  | listener => trivial
  | signal drain timedOut => exact ⟨hs.1, fun hlate => Nat.le_trans (hs.2 hlate) h.now⟩

theorem Outside.invariant (h : Outside s t) (hs : Invariant s) : Invariant t where
  process := by rw [h.process, h.host, hs.process]
  force := by rw [h.force, h.host, hs.force]
  admits := by
    have hadmits := hs.admits
    rw [h.host]
    cases hhost : s.host with
    | selecting | ended | beginning => rw [hhost] at hadmits; exact h.accepting.mpr hadmits
    | draining => rw [hhost] at hadmits; exact fun hno => hadmits (h.accepting.mp hno)
    | closing | deciding | starting | checking | cleaning | finishing | returned =>
        rw [hhost] at hadmits
        exact h.closed hadmits
  looked := by
    have hlooked := hs.looked
    rw [h.host]
    cases hhost : s.host with
    | selecting | ended | beginning | draining => trivial
    | closing => rw [hhost] at hlooked; rw [h.looks]; exact hlooked
    | deciding | starting | checking | cleaning | finishing | returned =>
        rw [hhost] at hlooked
        exact h.lookedAt hlooked
  polled := by
    have hpolled := hs.polled
    rw [h.host, h.polls]
    cases hhost : s.host with
    | finishing | returned =>
        rw [hhost] at hpolled
        exact ⟨hpolled.1, hpolled.2.1, fun hlate => Nat.le_trans (hpolled.2.2 hlate) h.now⟩
    | selecting | ended | beginning | draining | closing | deciding | starting | checking
    | cleaning =>
        rw [hhost] at hpolled
        exact hpolled
  sound := h.sound hs.sound

theorem Outside.of_gate (s : State) {gate : Gate} {publishing : Bool}
    (hphase : gate.phase = s.gate.phase ∨
      (s.gate.phase = .draining ∧ gate.phase = .stopped .graceful))
    (hpublishing : publishing = true → s.publishing = true ∨ s.gate.phase ≠ gate.phase) :
    Outside s { s with gate, publishing } := by
  refine ⟨rfl, rfl, rfl, rfl, rfl, Nat.le_refl _, id, hphase, fun hs h => ?_⟩
  obtain hsame | ⟨-, hgraceful⟩ := hphase
  · obtain hstopped | hnow := h
    · obtain ⟨outcome, hs⟩ := hs (.inl hstopped)
      exact ⟨outcome, hsame.trans hs⟩
    · obtain hbefore | hmoved := hpublishing hnow
      · obtain ⟨outcome, hs⟩ := hs (.inr hbefore)
        exact ⟨outcome, hsame.trans hs⟩
      · exact absurd hsame.symm hmoved
  · exact ⟨.graceful, hgraceful⟩

/-- The labels of everybody but the host. -/
theorem outside_of_step {timeout : Nat} {label : Label} (hstep : step timeout label s = some t) :
    Outside s t ∨
    (∃ ended, s.host = .selecting ∧ t = { s with process := .draining, host := .ended ended }) ∨
    (s.host = .selecting ∧
      t = { s with process := .draining, host := .beginning (s.now + timeout) }) ∨
    ∃ ready, s.advance timeout ready = some t := by
  cases label with
  | tick passed =>
      cases hstep
      exact .inl ⟨rfl, rfl, rfl, rfl, rfl, Nat.le_add_right _ _, id, .inl rfl, id⟩
  | signal =>
      cases hstep
      exact .inl ⟨rfl, rfl, rfl, rfl, rfl, Nat.le_refl _, id, .inl rfl, id⟩
  | listenerEnds failed =>
      simp only [step] at hstep
      split at hstep
      · cases hstep
        exact .inl ⟨rfl, rfl, rfl, rfl, rfl, Nat.le_refl _, id, .inl rfl, id⟩
      · cases hstep
  | enter =>
      obtain ⟨gate, hgate, rfl⟩ := Option.map_eq_some_iff.mp hstep
      obtain ⟨hphase, rfl⟩ := Gate.tryEnter_eq_some hgate
      exact .inl (Outside.of_gate s (.inl rfl) .inl)
  | leave =>
      simp only [step] at hstep
      split at hstep
      · cases hstep
      · cases hstep
        refine .inl (Outside.of_gate s (leave_phase_cases s.gate) fun h => ?_)
        rw [Bool.or_eq_true, bne_iff_ne] at h
        exact h
  | cancelStop =>
      simp only [step] at hstep
      split at hstep
      case isTrue hpublishing =>
        cases hstep
        exact .inl
          ⟨rfl, rfl, rfl, rfl, rfl, Nat.le_refl _, fun _ => rfl, .inl rfl,
          fun hs _ => hs (.inr hpublishing)⟩
      case isFalse => cases hstep
  | takeListener =>
      simp only [step] at hstep
      split at hstep
      case h_1 ended hhost _ =>
        cases hstep
        exact .inr (.inl ⟨_, hhost, rfl⟩)
      case h_2 => cases hstep
  | takeSignal =>
      simp only [step] at hstep
      split at hstep
      case h_1 hhost _ =>
        cases hstep
        exact .inr (.inr (.inl ⟨hhost, rfl⟩))
      case h_2 => cases hstep
  | host ready => exact .inr (.inr (.inr ⟨ready, hstep⟩))

theorem advance_invariant {timeout : Nat} {ready : Bool} (hs : Invariant s)
    (h : s.advance timeout ready = some t) : Invariant t := by
  obtain ⟨hprocess, hforce, hadmits, hlooked, hpolled, hsound⟩ := hs
  have hstopped : ∀ {u : State}, u.gate = s.gate.stopNow →
      (u.stopped = true ∨ u.publishing = true → ∃ outcome, u.gate.phase = .stopped outcome) := by
    intro u hgate _
    rw [hgate]
    exact stopNow_stopped _
  rw [State.advance] at h
  cases hhost : s.host with
  | selecting => simp only [hhost] at h; cases h
  | ended failed =>
      simp only [hhost] at h
      rw [hhost] at hprocess hforce hpolled
      cases h
      exact ⟨hprocess, hforce, ⟨stopNow_stopped _, rfl⟩, trivial, hpolled, hstopped rfl⟩
  | beginning deadline =>
      simp only [hhost] at h
      rw [hhost] at hprocess hforce hpolled
      split at h
      case h_1 outcome hphase =>
        cases h
        exact ⟨hprocess, hforce, ⟨⟨outcome, hphase⟩, rfl⟩, nofun, hpolled,
          fun _ => ⟨outcome, hphase⟩⟩
      case h_2 hphase =>
        cases h
        refine ⟨hprocess, hforce, Gate.beginDrain_phase _, trivial, hpolled, fun hno => ?_⟩
        obtain ⟨outcome, hno⟩ := hsound hno
        have haccepting : s.gate.phase = .accepting := by rw [hhost] at hadmits; exact hadmits
        rw [haccepting] at hno
        cases hno
  | draining deadline gateDeadline wait =>
      simp only [hhost] at h
      rw [hhost] at hprocess hforce hpolled
      split at h
      case h_1 hready =>
        cases h
        have hstopped := (timeoutAt_ready hready).2
        exact ⟨hprocess, hforce, ⟨hsound (.inl hstopped), hstopped⟩, nofun, hpolled, hsound⟩
      case h_2 =>
        cases h
        exact ⟨hprocess, hforce, ⟨stopNow_stopped _, rfl⟩, nofun, hpolled, hstopped rfl⟩
      case h_3 =>
        cases h
        rw [hhost] at hadmits
        exact ⟨hprocess, hforce, hadmits, trivial, hpolled, hsound⟩
  | closing deadline drain wait =>
      simp only [hhost] at h
      rw [hhost] at hprocess hforce hpolled hadmits hlooked
      split at h
      case h_1 hready =>
        cases h
        obtain ⟨rfl, hended⟩ := timeoutAt_ready hready
        refine ⟨hprocess, hforce, hadmits, ⟨?_, nofun⟩, hpolled, hsound⟩
        exact (lastReady_append _ _).trans hended
      case h_2 helapsed =>
        cases h
        obtain ⟨rfl, hpast⟩ := timeoutAt_elapsed helapsed
        exact ⟨hprocess, hforce, hadmits, ⟨hlooked rfl, fun _ => hpast⟩, hpolled, hsound⟩
      case h_3 next hpending =>
        cases h
        refine ⟨hprocess, hforce, hadmits, fun htimer => ?_, hpolled, hsound⟩
        obtain ⟨rfl, hready, -⟩ | ⟨-, -, rfl⟩ := timeoutAt_pending hpending
        · exact (lastReady_append _ _).trans hready
        · cases htimer
  | deciding deadline path =>
      simp only [hhost] at h
      rw [hhost] at hprocess hpolled hadmits hlooked hforce
      split at h
      case isTrue hforced =>
        cases h
        exact ⟨hprocess, hforced.symm, ⟨stopNow_stopped _, rfl⟩, hlooked, hpolled, hstopped rfl⟩
      case isFalse hforced =>
        cases h
        refine ⟨hprocess, ?_, hadmits, hlooked, hpolled, hsound⟩
        exact hforce.trans (Bool.eq_false_iff.mpr hforced).symm
  | starting deadline path =>
      simp only [hhost] at h
      rw [hhost] at hprocess hforce hadmits hlooked
      split at h
      case isTrue hready =>
        cases h
        refine ⟨hprocess, ?_, hadmits, hlooked, ⟨append_poll_ne_nil _ _, ?_, nofun⟩, hsound⟩
        · exact hforce.trans (Bool.or_false _).symm
        · exact (lastReady_append _ _).trans hready
      case isFalse hready =>
        cases h
        refine ⟨hprocess, hforce, hadmits, hlooked, ⟨append_poll_ne_nil _ _, ?_⟩, hsound⟩
        exact (lastReady_append _ _).trans (Bool.eq_false_iff.mpr hready)
  | checking deadline path =>
      simp only [hhost] at h
      rw [hhost] at hprocess hforce hadmits hlooked hpolled
      split at h
      case isTrue hpast =>
        cases h
        exact ⟨hprocess, (Bool.or_true _).symm, hadmits, hlooked,
          ⟨hpolled.1, hpolled.2, fun _ => hpast⟩, hsound⟩
      case isFalse =>
        cases h
        exact ⟨hprocess, hforce, hadmits, hlooked, hpolled, hsound⟩
  | cleaning deadline path wait =>
      simp only [hhost] at h
      rw [hhost] at hprocess hforce hadmits hlooked hpolled
      split at h
      case h_1 hready =>
        cases h
        obtain ⟨rfl, hcompleted⟩ := timeoutAt_ready hready
        refine ⟨hprocess, ?_, hadmits, hlooked, ⟨append_poll_ne_nil _ _, ?_, nofun⟩, hsound⟩
        · exact hforce.trans (Bool.or_false _).symm
        · exact (lastReady_append _ _).trans hcompleted
      case h_2 helapsed =>
        cases h
        obtain ⟨rfl, hpast⟩ := timeoutAt_elapsed helapsed
        exact ⟨hprocess, (Bool.or_true _).symm, hadmits, hlooked,
          ⟨hpolled.1, hpolled.2, fun _ => hpast⟩, hsound⟩
      case h_3 next hpending =>
        cases h
        obtain ⟨rfl, hready, -⟩ | ⟨rfl, -, -⟩ := timeoutAt_pending hpending
        · refine ⟨hprocess, hforce, hadmits, hlooked, ⟨append_poll_ne_nil _ _, ?_⟩, hsound⟩
          exact (lastReady_append _ _).trans hready
        · exact ⟨hprocess, hforce, hadmits, hlooked, hpolled, hsound⟩
  | finishing deadline path completed =>
      simp only [hhost] at h
      rw [hhost] at hforce hadmits hlooked hpolled
      cases h
      exact ⟨rfl, hforce, hadmits, hlooked, hpolled, hsound⟩
  | returned => simp only [hhost] at h; cases h

variable {timeout : Nat} {label : Label}

theorem step_invariant (hs : Invariant s) (hstep : step timeout label s = some t) :
    Invariant t := by
  obtain houtside | ⟨ended, hhost, rfl⟩ | ⟨hhost, rfl⟩ | ⟨ready, hadvance⟩ := outside_of_step hstep
  · exact houtside.invariant hs
  · obtain ⟨-, hforce, hadmits, -, hpolled, hsound⟩ := hs
    rw [hhost] at hforce hadmits hpolled
    exact ⟨rfl, hforce, hadmits, trivial, hpolled, hsound⟩
  · obtain ⟨-, hforce, hadmits, -, hpolled, hsound⟩ := hs
    rw [hhost] at hforce hadmits hpolled
    exact ⟨rfl, hforce, hadmits, trivial, hpolled, hsound⟩
  · exact advance_invariant hs hadvance

theorem runs_invariant {now : Nat} {labels : List Label}
    (h : Runs (step timeout) (.start now) labels s) : Invariant s :=
  Runs.invariant (P := fun _ s => Invariant s) (start_invariant now)
    (fun _ _ _ _ => step_invariant) h

/-- What the clock and the host do by themselves, whatever the cleanup answers. -/
inductive Alone (timeout : Nat) (answer : State → Bool) : State → State → Prop
  | refl (s : State) : Alone timeout answer s s
  | tick {s t : State} (passed : Nat)
      (h : Alone timeout answer { s with now := s.now + passed } t) : Alone timeout answer s t
  | host {s t u : State} (hstep : s.advance timeout (answer s) = some t)
      (h : Alone timeout answer t u) :
      Alone timeout answer s u

namespace Host

def bound : Host → Nat
  | draining _ gateDeadline _ => gateDeadline
  | closing deadline _ _ | checking deadline _ | cleaning deadline _ _ => deadline
  | _ => 0

def waits : Wait → Nat
  | .value => 1
  | .timer => 0

def rank : Host → Nat
  | returned _ _ _ => 0
  | finishing _ _ _ => 1
  | checking _ _ => 2
  | cleaning _ _ wait => 2 + waits wait
  | starting _ _ => 4
  | deciding _ _ => 5
  | closing _ _ wait => 6 + waits wait
  | draining _ _ wait => 8 + waits wait
  | ended _ | beginning _ => 10
  | selecting => 11

end Host

theorem waits_lt {deadline now : Nat} {ready : Bool} {wait next : Wait} (hpast : deadline ≤ now)
    (h : timeoutAt deadline now ready wait = .pending next) :
    Host.waits next < Host.waits wait := by
  obtain ⟨rfl, -, rfl⟩ | ⟨-, hearly, -⟩ := timeoutAt_pending h
  · exact Nat.zero_lt_one
  · omega

theorem advance_progress {ready : Bool} (hselected : s.host.rank < 11)
    (hpast : s.host.bound ≤ s.now) :
    s.host.rank = 0 ∨ ∃ t, s.advance timeout ready = some t ∧ t.host.rank < s.host.rank := by
  rw [State.advance]
  cases hhost : s.host with
  | selecting =>
      rw [hhost] at hselected
      exact absurd hselected (Nat.lt_irrefl 11)
  | ended failed => exact .inr ⟨_, rfl, by simp [Host.rank]⟩
  | beginning deadline =>
      refine .inr ?_
      simp only
      split <;> exact ⟨_, rfl, by simp [Host.rank, Host.waits]⟩
  | draining deadline gateDeadline wait =>
      rw [hhost] at hpast
      refine .inr ?_
      simp only
      split
      case h_1 | h_2 => exact ⟨_, rfl, by cases wait <;> simp [Host.rank, Host.waits]⟩
      case h_3 next hpending => exact ⟨_, rfl, Nat.add_lt_add_left (waits_lt hpast hpending) 8⟩
  | closing deadline drain wait =>
      rw [hhost] at hpast
      refine .inr ?_
      simp only
      split
      case h_1 | h_2 => exact ⟨_, rfl, by cases wait <;> simp [Host.rank, Host.waits]⟩
      case h_3 next hpending => exact ⟨_, rfl, Nat.add_lt_add_left (waits_lt hpast hpending) 6⟩
  | deciding deadline path =>
      refine .inr ?_
      simp only
      split <;> exact ⟨_, rfl, by simp [Host.rank]⟩
  | starting deadline path =>
      refine .inr ?_
      simp only
      split <;> exact ⟨_, rfl, by simp [Host.rank]⟩
  | checking deadline path =>
      rw [hhost] at hpast
      change deadline ≤ s.now at hpast
      refine .inr ?_
      simp only
      rw [if_pos hpast]
      exact ⟨_, rfl, by simp [Host.rank]⟩
  | cleaning deadline path wait =>
      rw [hhost] at hpast
      refine .inr ?_
      simp only
      split
      case h_1 | h_2 => exact ⟨_, rfl, by cases wait <;> simp [Host.rank, Host.waits]⟩
      case h_3 next hpending => exact ⟨_, rfl, Nat.add_lt_add_left (waits_lt hpast hpending) 2⟩
  | finishing deadline path completed => exact .inr ⟨_, rfl, by simp [Host.rank]⟩
  | returned deadline path completed => exact .inl rfl

theorem rank_eq_zero {host : Host} (h : host.rank = 0) :
    ∃ deadline path completed, host = .returned deadline path completed := by
  cases host with
  | returned deadline path completed => exact ⟨deadline, path, completed, rfl⟩
  | draining _ _ wait | closing _ _ wait | cleaning _ _ wait => cases wait <;> cases h
  | _ => cases h

/-- Past the select, `serve` returns once its deadlines pass. -/
theorem serve_returns (answer : State → Bool) (hselected : s.host.rank < 11) :
    ∃ t, Alone timeout answer s t ∧
    ∃ deadline path completed, t.host = .returned deadline path completed := by
  induction hrank : s.host.rank using Nat.strongRecOn generalizing s with
  | ind rank ih =>
      let u : State := { s with now := s.now + s.host.bound }
      have hprogress : u.host.rank = 0 ∨
          ∃ t, u.advance timeout (answer u) = some t ∧ t.host.rank < u.host.rank :=
        advance_progress hselected (Nat.le_add_left _ _)
      obtain hzero | ⟨t, hadvance, hlt⟩ := hprogress
      · exact ⟨s, .refl s, rank_eq_zero hzero⟩
      · obtain ⟨v, halone, hreturned⟩ := ih _ (hrank ▸ hlt) (Nat.lt_trans hlt hselected) rfl
        exact ⟨v, .tick s.host.bound (.host hadvance halone), hreturned⟩

def Onward (before after : ProcessState) : Prop :=
  after = before ∨ (before = .running ∧ after = .draining) ∨ (before = .draining ∧ after = .stopped)

/-- What is true in a state, where a future counts as finished in time if the
host's last poll before it saw the deadline past found it so. -/
structure Truthful (timeout : Nat) (s : State) : Prop where
  first_poll : ∀ label t, step timeout label s = some t → s.polls = [] → t.polls ≠ [] →
    s.gate.tryEnter = none ∧ s.stopped = true ∧
      ∃ deadline path, s.host = .starting deadline path ∧ (s.force = true ↔ path.Forced s.looks)
  onward : ∀ label t, step timeout label s = some t → Onward s.process t.process
  ends : s.host ≠ .selecting → ∀ answer : State → Bool,
    ∃ t, Alone timeout answer s t ∧
      ∃ deadline path completed, t.host = .returned deadline path completed
  returned : ∀ deadline path completed, s.host = .returned deadline path completed →
    s.process = .stopped ∧ s.polls ≠ [] ∧
      (s.force = true ↔ path.Forced s.looks ∨ lastReady s.polls = false) ∧
      (lastReady s.polls = false → deadline ≤ s.now)
  signalled : ∀ deadline drain timedOut completed,
    s.host = .returned deadline (.signal drain timedOut) completed →
    (lastReady s.looks = false → deadline ≤ s.now) ∧
      ((Path.signal drain timedOut).served completed = .ok ↔
        drain = .graceful ∧ lastReady s.looks = true ∧ lastReady s.polls = true)

theorem forced_iff {looks : List Poll} {now deadline : Nat} {path : Path}
    (h : Host.LookedAt looks now deadline path) : path.httpForced = true ↔ path.Forced looks := by
  cases path with
  | listener failed => simp [Path.httpForced, Path.Forced]
  | signal drain timedOut => simp [Path.httpForced, Path.Forced, h.1]

theorem advance_process {ready : Bool} (h : s.advance timeout ready = some t) :
    s.host.process = .draining ∧ (t.host.process = .draining ∨ t.host.process = .stopped) := by
  rw [State.advance] at h
  cases hhost : s.host with
  | selecting | returned => simp only [hhost] at h; cases h
  | ended | finishing =>
      simp only [hhost] at h
      cases h
      exact ⟨rfl, by simp [Host.process]⟩
  | beginning | draining | closing | deciding | starting | checking | cleaning =>
      simp only [hhost] at h
      refine ⟨rfl, .inl ?_⟩
      split at h <;> cases h <;> rfl

theorem advance_polls {ready : Bool} (h : s.advance timeout ready = some t) :
    t.polls = s.polls ∨ (∃ deadline path, s.host = .starting deadline path) ∨
      ∃ deadline path wait, s.host = .cleaning deadline path wait := by
  rw [State.advance] at h
  cases hhost : s.host with
  | selecting | returned => simp only [hhost] at h; cases h
  | starting deadline path => exact .inr (.inl ⟨deadline, path, rfl⟩)
  | cleaning deadline path wait => exact .inr (.inr ⟨deadline, path, wait, rfl⟩)
  | ended | finishing =>
      simp only [hhost] at h
      cases h
      exact .inl rfl
  | beginning | draining | closing | deciding | checking =>
      simp only [hhost] at h
      left
      split at h <;> cases h <;> rfl

theorem step_onward (hs : Invariant s) (hstep : step timeout label s = some t) :
    Onward s.process t.process := by
  obtain houtside | ⟨ended, hhost, rfl⟩ | ⟨hhost, rfl⟩ | ⟨ready, hadvance⟩ := outside_of_step hstep
  · exact .inl houtside.process
  · exact .inr (.inl ⟨by rw [hs.process, hhost]; rfl, rfl⟩)
  · exact .inr (.inl ⟨by rw [hs.process, hhost]; rfl, rfl⟩)
  · obtain ⟨hbefore, hafter⟩ := advance_process hadvance
    rw [hs.process, (advance_invariant hs hadvance).process, hbefore]
    exact hafter.imp id fun hstopped => .inr ⟨rfl, hstopped⟩

theorem step_first_poll (hs : Invariant s) (hstep : step timeout label s = some t)
    (hbefore : s.polls = []) (hafter : t.polls ≠ []) :
    ∃ deadline path, s.host = .starting deadline path := by
  obtain houtside | ⟨ended, -, rfl⟩ | ⟨-, rfl⟩ | ⟨ready, hadvance⟩ := outside_of_step hstep
  · exact absurd (houtside.polls.trans hbefore) hafter
  · exact absurd hbefore hafter
  · exact absurd hbefore hafter
  · obtain hsame | hstarting | ⟨deadline, path, wait, hcleaning⟩ := advance_polls hadvance
    · exact absurd (hsame.trans hbefore) hafter
    · exact hstarting
    · have hpolled := hs.polled
      rw [hcleaning] at hpolled
      exact absurd hbefore hpolled.1

theorem tryEnter_eq_none {gate : Gate} {outcome : DrainOutcome}
    (h : gate.phase = .stopped outcome) : gate.tryEnter = none := by
  rw [Gate.tryEnter, h]
  exact if_neg fun hno => by cases hno.1

/-- Shutdown closes, polls, forces and answers as it should, in every run. -/
theorem shutdown_is_truthful {now : Nat} {labels : List Label}
    (h : Runs (step timeout) (.start now) labels s) : Truthful timeout s := by
  have hs := runs_invariant h
  refine ⟨fun label t hstep hbefore hafter => ?_, fun _ _ => step_onward hs,
    fun hselected answer => ?_,
    fun deadline path completed hhost => ?_, fun deadline drain timedOut completed hhost => ?_⟩
  · obtain ⟨deadline, path, hhost⟩ := step_first_poll hs hstep hbefore hafter
    have hadmits := hs.admits
    have hforce := hs.force
    have hlooked := hs.looked
    rw [hhost] at hadmits hforce hlooked
    obtain ⟨⟨outcome, hphase⟩, hstopped⟩ := hadmits
    refine ⟨tryEnter_eq_none hphase, hstopped, deadline, path, hhost, ?_⟩
    rw [hforce]
    exact forced_iff hlooked
  · refine serve_returns answer ?_
    cases hhost : s.host with
    | selecting => exact absurd hhost hselected
    | draining _ _ wait | closing _ _ wait | cleaning _ _ wait =>
        cases wait <;> simp [Host.rank, Host.waits]
    | _ => simp [Host.rank]
  · have hprocess := hs.process
    have hforce := hs.force
    have hlooked := hs.looked
    have hpolled := hs.polled
    rw [hhost] at hprocess hforce hlooked hpolled
    obtain ⟨hne, hlast, hpast⟩ := hpolled
    refine ⟨hprocess, hne, ?_, fun hno => hpast (hlast.symm.trans hno)⟩
    rw [hforce, hlast, Host.force, Bool.or_eq_true, forced_iff hlooked, Bool.not_eq_true']
  · have hlooked := hs.looked
    have hpolled := hs.polled
    rw [hhost] at hlooked hpolled
    refine ⟨fun hno => hlooked.2 ?_, ?_⟩
    · simpa [hlooked.1] using hno
    · rw [hlooked.1, hpolled.2.1]
      cases drain <;> cases timedOut <;> cases completed <;> simp [Path.served, Path.httpForced]

/-- A signal, and a request that outlives the deadline of `serve` but not that
of the gate, which was read a moment later. -/
def lateLabels : List Label :=
  [.enter, .signal, .takeSignal, .tick 1, .host false, .tick 20, .leave, .cancelStop,
    .listenerEnds false, .host false,
    .host false, .host false, .host true, .host false]

def lateState : State :=
  ⟨21, true, some ⟨21, false⟩, ⟨.stopped .graceful, 0⟩, true, false, .stopped, false,
    .returned 20 (.signal .graceful false) true, [⟨21, true⟩], [⟨21, true⟩]⟩

theorem late_shutdown_is_truthful : Truthful 20 lateState := by
  have hruns : Runs (step 20) (.start 0) lateLabels lateState := runs_iff_run.mpr rfl
  exact shutdown_is_truthful hruns

/-- Forced and finished as the clock has it, whatever the host found out. -/
structure Punctual (s : State) : Prop where
  force : ∀ deadline drain timedOut completed,
    s.host = .returned deadline (.signal drain timedOut) completed →
    (s.force = true ↔
      drain = .forced ∨ (¬ ∃ ended, s.listener = some ended ∧ ended.time ≤ deadline) ∨
      ¬ ∃ poll ∈ s.polls, poll.ready = true ∧ poll.time ≤ deadline)
  served : ∀ deadline drain timedOut completed,
    s.host = .returned deadline (.signal drain timedOut) completed →
    ((Path.signal drain timedOut).served completed = .ok ↔ drain = .graceful ∧
      (∃ ended, s.listener = some ended ∧ ended.time ≤ deadline) ∧
        ∃ poll ∈ s.polls, poll.ready = true ∧ poll.time ≤ deadline)

/-- A drain that ends between the two deadlines, and a cleanup that is polled
after its own, count as in time. -/
theorem a_late_shutdown_is_served :
    ∃ timeout labels s, Runs (step timeout) (.start 0) labels s ∧ ¬ Punctual s := by
  refine ⟨20, lateLabels, lateState, runs_iff_run.mpr rfl, fun h => ?_⟩
  obtain ⟨-, ⟨ended, hended, htime⟩, -⟩ := (h.served 20 .graceful false true rfl).mp rfl
  cases hended
  exact absurd htime (by decide)

end ImpossibleVoice.Server.Cleanup

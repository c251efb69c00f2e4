import ImpossibleVoice.Server.AdmissionControl

namespace ImpossibleVoice.Server

open Lib

def Process.executing : Process → Bool
  | request (.running _ _) | session true _ | engineCall true => true
  | _ => false

/-- The step ends a handler that leaves something behind: the callback of an
upgrade, or the engine call it was waiting for. -/
def detaches (event : Event) (s : Shared) : Process → Bool
  | .request (.running _ calling) =>
      match event with
      | .upgrade => s.sessions.tryAcquire.isSome
      | .deadlineElapses | .disconnect => calling
      | .checkStop => calling && s.stopped
      | _ => false
  | _ => false

def Host.detaches (label : Label Move Event) (s : Host) : Bool :=
  match label with
  | .process i event => s.processes[i]?.any (Server.detaches event s.shared)
  | _ => false

def attachedStep (label : Label Move Event) (s : Host) : Option Host :=
  if s.detaches label = true then none else admission.step label s

theorem step_of_attachedStep {label : Label Move Event} {s t : Host}
    (h : attachedStep label s = some t) :
    s.detaches label = false ∧ admission.step label s = some t := by
  unfold attachedStep at h
  split at h
  · cases h
  · next hattached => exact ⟨by simpa using hattached, h⟩

variable {event : Event} {s t : Shared} {stage next : Stage} {left : List Process}

theorem PolicyStep.left_eq_nil (h : PolicyStep event s stage t next left)
    (hattached : detaches event s (.request stage) = false) : left = [] := by
  cases h with
  | @finish _ calling _ _ hcalling =>
      cases calling with
      | false => rfl
      | true =>
          rcases hcalling rfl with rfl | rfl | ⟨rfl, hstopped⟩
          · cases hattached
          · cases hattached
          · simp [detaches, hstopped] at hattached
  | upgrade hevent hacquire =>
      subst hevent
      simp [detaches, hacquire] at hattached
  | _ => rfl

def Serve.Graceful : Serve → Prop
  | drained .graceful | cleaning false | returned none | returned (some .workloadShutdown) => True
  | _ => False

structure Settled (s : Shared) : Prop where
  idle : s.gate.phase = .stopped .graceful → s.gate.active = 0
  graceful : s.serve.Graceful → s.gate.phase = .stopped .graceful

theorem Gate.leave_phase {gate : Gate} {outcome : DrainOutcome}
    (h : gate.phase = .stopped outcome) : gate.leave.phase = .stopped outcome := by
  simp [leave, h]

theorem Gate.leave_idle {gate : Gate} (hidle : gate.phase = .stopped .graceful → gate.active = 0)
    (h : gate.leave.phase = .stopped .graceful) : gate.leave.active = 0 := by
  unfold leave at h ⊢
  split at h
  · next hlast =>
      rw [if_pos hlast]
      exact hlast.1
  · next hlast =>
      rw [if_neg hlast]
      simp only
      rw [hidle h]

theorem Gate.beginDrain_idle {gate : Gate}
    (hidle : gate.phase = .stopped .graceful → gate.active = 0)
    (h : gate.beginDrain.phase = .stopped .graceful) : gate.beginDrain.active = 0 := by
  rw [beginDrain_active]
  unfold beginDrain at h
  split at h
  · exact hidle h
  all_goals
    split at h
    · assumption
    · cases h

theorem Gate.stopNow_graceful {gate : Gate} (h : gate.stopNow.phase = .stopped .graceful) :
    gate.phase = .stopped .graceful := by
  unfold stopNow at h
  split at h
  · exact h
  all_goals cases h

theorem Gate.terminalOutcome_graceful {gate : Gate} (h : gate.terminalOutcome = .graceful) :
    gate.phase = .stopped .graceful := by
  unfold terminalOutcome at h
  split at h
  · next hphase => rw [hphase, h]
  all_goals cases h

theorem settled_policy (hs : Settled s) (h : PolicyStep event s stage t next left) : Settled t := by
  cases h with
  | enter h =>
      obtain ⟨hphase, rfl⟩ := Gate.tryEnter_eq_some h
      refine ⟨fun hstopped => ?_, fun hgraceful => ?_⟩
      · rw [hphase] at hstopped
        cases hstopped
      · have hstopped := hs.graceful hgraceful
        rw [hphase] at hstopped
        cases hstopped
  | releaseGuard =>
      exact ⟨Gate.leave_idle hs.idle, fun hgraceful => Gate.leave_phase (hs.graceful hgraceful)⟩
  | _ => exact ⟨hs.idle, hs.graceful⟩

theorem settled_serve {move : Move} (hs : Settled s) (h : Shared.serveMove move s = some t) :
    Settled t := by
  have hstopNow : s.gate.stopNow.phase = .stopped .graceful → s.gate.stopNow.active = 0 := by
    intro hstopped
    rw [Gate.stopNow_active]
    exact hs.idle (Gate.stopNow_graceful hstopped)
  unfold Shared.serveMove at h
  split at h
  · split at h
    · next outcome hphase =>
        cases h
        refine ⟨Gate.beginDrain_idle hs.idle, fun hgraceful => ?_⟩
        cases outcome with
        | graceful => exact hphase
        | forced => cases hgraceful
    · cases h
      exact ⟨Gate.beginDrain_idle hs.idle, fun hgraceful => hgraceful.elim⟩
  · split at h
    · cases h
      refine ⟨hs.idle, fun hgraceful => ?_⟩
      cases houtcome : s.gate.terminalOutcome with
      | graceful => exact Gate.terminalOutcome_graceful houtcome
      | forced =>
          simp only [houtcome] at hgraceful
          cases hgraceful
    · cases h
  · cases h
    exact ⟨hstopNow, fun hgraceful => hgraceful.elim⟩
  · next outcome hserve =>
      split at h
      · cases h
        exact ⟨hstopNow, fun hgraceful => hgraceful.elim⟩
      · next hforced =>
          cases h
          refine ⟨hs.idle, fun _ => hs.graceful ?_⟩
          cases outcome with
          | graceful =>
              rw [hserve]
              trivial
          | forced => simp at hforced
  · next forced hserve =>
      cases h
      refine ⟨hs.idle, fun hgraceful => hs.graceful ?_⟩
      cases forced with
      | false =>
          rw [hserve]
          trivial
      | true => exact hgraceful.elim
  · cases h
    exact ⟨hstopNow, fun hgraceful => hgraceful.elim⟩
  · cases h
    exact ⟨hs.idle, fun hgraceful => hgraceful.elim⟩
  · split at h
    · cases h
      exact ⟨hs.idle, hs.graceful⟩
    · cases h
  · cases h

structure Attached (s : Host) : Prop where
  settled : Settled s.shared
  requests : ∀ p ∈ s.processes, ∃ stage, p = .request stage

theorem attached_step {label : Label Move Event} {s t : Host} (hs : Attached s)
    (h : attachedStep label s = some t) : Attached t := by
  obtain ⟨hattached, hstep⟩ := step_of_attachedStep h
  rcases Program.step_cases hstep with ⟨move, shared, _, hmove, rfl⟩ | ⟨_, rfl⟩ |
    ⟨i, event, p, shared, q, left, rfl, hp, hadvance, rfl⟩
  · exact ⟨settled_serve hs.settled hmove, hs.requests⟩
  · refine ⟨hs.settled, fun p hp => ?_⟩
    rcases List.mem_append.mp hp with hp | hp
    · exact hs.requests p hp
    · exact ⟨.arrived, List.mem_singleton.mp hp⟩
  · obtain ⟨stage, rfl⟩ := hs.requests p (List.mem_of_getElem? hp)
    obtain ⟨⟨t, next, rest⟩, hpolicy, hout⟩ := Option.map_eq_some_iff.mp hadvance
    cases hout
    have hcases := policy_cases hpolicy
    have hrest := hcases.left_eq_nil (by simpa [Host.detaches, hp] using hattached)
    refine ⟨settled_policy hs.settled hcases, fun r hr => ?_⟩
    rw [hrest, List.append_nil] at hr
    rcases List.mem_or_eq_of_mem_set hr with hr | rfl
    · exact hs.requests r hr
    · exact ⟨next, rfl⟩

theorem attached_runs {limits : ServerLimits} {labels : List (Label Move Event)} {s : Host}
    (h : Runs attachedStep (Host.start limits) labels s) :
    Attached s ∧ Runs admission.step (Host.start limits) labels s := by
  refine Runs.invariant
    (P := fun labels s => Attached s ∧ Runs admission.step (Host.start limits) labels s) ?_ ?_ h
  · exact ⟨⟨⟨(fun hphase => by cases hphase), fun hgraceful => False.elim hgraceful⟩,
      fun p hp => by cases hp⟩, .nil⟩
  · rintro labels s label t ⟨hs, hruns⟩ hstep
    exact ⟨attached_step hs hstep, .snoc hruns (step_of_attachedStep hstep).2⟩

/-- As long as no handler leaves anything behind, nothing runs once the server
has shut down without an error. -/
theorem graceful_shutdown_leaves_nothing_if_all_is_attached (limits : ServerLimits)
    (labels : List (Label Move Event)) (s : Host)
    (h : Runs attachedStep (Host.start limits) labels s)
    (hreturned : s.shared.serve = .returned none) : ∀ p ∈ s.processes, p.executing = false := by
  obtain ⟨hattached, hruns⟩ := attached_runs h
  have hgraceful := hattached.settled.graceful (by rw [hreturned]; trivial)
  have hactive := gate_balanced.runs (Host.start limits) rfl hruns
  rw [hattached.settled.idle hgraceful, Nat.zero_add] at hactive
  intro p hp
  obtain ⟨stage, rfl⟩ := hattached.requests p hp
  have hguard := held_le_total (Process.counted Stage.holdsGuard) hp
  rw [hactive] at hguard
  cases stage with
  | running polled calling => exact absurd hguard (by simp [Process.counted, Stage.holdsGuard])
  | _ => rfl

def shutdown : List (Label Move Event) :=
  [.environment .signal, .environment .cancelStop, .environment (.serverCloses false),
    .environment (.cleanUp true)]

def handling : List (Label Move Event) := launching ++ [.process 0 .startHandler]

def unwinding : List (Label Move Event) :=
  [.process 0 .unwind, .process 0 .unwind, .process 0 .unwind]

def answered : List (Label Move Event) := handling ++ [.process 0 .respond] ++ unwinding ++ shutdown

theorem an_answered_request_leaves_nothing :
    ∃ s, run attachedStep (Host.start oneAtATime) answered = some s ∧
    ∀ p ∈ s.processes, p.executing = false :=
  ⟨_, rfl,
    graceful_shutdown_leaves_nothing_if_all_is_attached oneAtATime answered
    _ (runs_iff_run.mpr rfl) rfl⟩

/-- A session outlives its request, and so does the engine call of a request
whose deadline elapses. -/
theorem a_session_and_an_engine_call_outlive_the_shutdown :
    (∃ s,
      Runs admission.step (Host.start oneAtATime)
      (handling ++ [.process 0 .upgrade] ++ unwinding ++ shutdown) s ∧
      s.shared.serve = .returned none ∧ Process.session true false ∈ s.processes) ∧
    (∃ s,
      Runs admission.step (Host.start oneAtATime)
      (handling ++
      [.process 0 .callEngine, .process 0 .pend, .process 0 .checkStop,
      .process 0 .deadlineElapses] ++ unwinding ++ shutdown) s ∧ s.shared.serve = .returned none ∧
      Process.engineCall true ∈ s.processes) := by
  refine ⟨⟨_, runs_iff_run.mpr rfl, rfl, ?_⟩, ⟨_, runs_iff_run.mpr rfl, rfl, ?_⟩⟩
  · exact List.mem_cons_of_mem _ List.mem_cons_self
  · exact List.mem_cons_of_mem _ List.mem_cons_self

end ImpossibleVoice.Server

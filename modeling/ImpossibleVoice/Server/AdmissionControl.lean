import ImpossibleVoice.Server.Admission

namespace ImpossibleVoice.Server

open Lib

namespace Stage

inductive Waiting : Stage → Prop
  | body {polled : Bool} : Waiting (.receiving polled)
  | permit {polled : Bool} : Waiting (.queued polled)

end Stage

/-- Every step of a request, by what it takes and gives back. -/
inductive PolicyStep (event : Event) (s : Shared) : Stage → Shared → Stage → List Process → Prop
  | enter {gate : Gate} (h : s.gate.tryEnter = some gate) :
      PolicyStep event s .arrived { s with gate } .entered []
  | turnAway (h : s.gate.tryEnter = none) :
      PolicyStep event s .arrived s (.ended (.refused .cancelled)) []
  | acquireAdmission {admitted : Semaphore} (h : s.admitted.tryAcquire = some admitted) :
      PolicyStep event s .entered { s with admitted } .admitted []
  | overload (h : s.admitted.tryAcquire = none) :
      PolicyStep event s .entered s (refuse .guard .overloaded) []
  | identify (issued : Nat) : PolicyStep event s .admitted { s with issued } (.receiving false) []
  | unidentified (issued : Nat) :
      PolicyStep event s .admitted { s with issued } (refuse .admission .internal) []
  | wait {stage next : Stage} (hstage : stage.Waiting) (hnext : next.Waiting) :
      PolicyStep event s stage s next []
  | giveUp {stage : Stage} {ending : Ending} (hstage : stage.Waiting)
      (hending : ending ≠ .refused .overloaded) :
      PolicyStep event s stage s (.leaving .admission ending) []
  | acquire {execution : Semaphore} (h : s.execution.tryAcquire = some execution) :
      PolicyStep event s (.queued true) { s with execution } (.starting false) []
  | pass (h : s.stopped = false) : PolicyStep event s (.starting false) s (.starting true) []
  | start : PolicyStep event s (.starting true) s (.running true false) []
  | skip {polled : Bool} {ending : Ending} (hending : ending ≠ .refused .overloaded) :
      PolicyStep event s (.starting polled) s (.leaving .execution ending) []
  | handle {polled calling polled' calling' : Bool} :
      PolicyStep event s (.running polled calling) s (.running polled' calling') []
  | finish {polled calling : Bool} {ending : Ending} (hending : ending ≠ .refused .overloaded)
      (hcalling : calling = true →
        event = .deadlineElapses ∨ event = .disconnect ∨ event = .checkStop ∧ s.stopped = true) :
      PolicyStep event s (.running polled calling) s (.leaving .execution ending) (orphans calling)
  | upgrade {sessions : Semaphore} (hevent : event = .upgrade)
      (h : s.sessions.tryAcquire = some sessions) :
      PolicyStep event s (.running true false) { s with sessions } (.leaving .execution .answered)
        [.session true false]
  | vanish : PolicyStep event s .arrived s (.ended .disconnected) []
  | releaseExecution {ending : Ending} : PolicyStep event s (.leaving .execution ending)
      { s with execution := s.execution.release } (.leaving .admission ending) []
  | releaseAdmission {ending : Ending} : PolicyStep event s (.leaving .admission ending)
      { s with admitted := s.admitted.release } (.leaving .guard ending) []
  | releaseGuard {ending : Ending} : PolicyStep event s (.leaving .guard ending)
      { s with gate := s.gate.leave } (.ended ending) []

theorem policy_cases {event : Event} {s t : Shared} {stage next : Stage} {left : List Process}
    (h : enforceWorkloadPolicy event s stage = some (t, next, left)) :
    PolicyStep event s stage t next left := by
  unfold enforceWorkloadPolicy at h
  split at h
  -- the gate and the identifiers
  · split at h
    · next henter =>
        cases h
        exact .enter henter
    · next henter =>
        cases h
        exact .turnAway henter
  · split at h
    · next hacquire =>
        cases h
        exact .acquireAdmission hacquire
    · next hacquire =>
        cases h
        exact .overload hacquire
  · next representable =>
      split at h
      · cases h
        cases representable with
        | true => exact .identify _
        | false => exact .unidentified _
      · cases h
        exact .unidentified s.issued
  -- waiting for the body
  · cases h
    split
    · exact .giveUp .body (by decide)
    · exact .wait .body .body
  · cases h
    exact .wait .body .permit
  · cases h
    exact .giveUp .body (by decide)
  · cases h
    exact .giveUp .body (by decide)
  · cases h
    exact .wait .body .body
  -- waiting for an execution permit
  · cases h
    split
    · exact .giveUp .permit (by decide)
    · exact .wait .permit .permit
  · split at h
    · cases h
      exact .giveUp .permit (by decide)
    · split at h
      · next hacquire =>
          cases h
          exact .acquire hacquire
      · cases h
  · cases h
    exact .giveUp .permit (by decide)
  · cases h
    exact .wait .permit .permit
  -- running the handler
  · cases h
    split
    · exact .skip (by decide)
    · next hlive => exact .pass (by simpa using hlive)
  · cases h
    exact .skip (by decide)
  · cases h
    exact .start
  · split at h
    · next hstopped =>
        cases h
        exact .finish (by decide) fun _ => Or.inr (Or.inr ⟨rfl, hstopped⟩)
    · cases h
      exact .handle
  · cases h
    exact .finish (by decide) fun _ => Or.inl rfl
  · cases h
    exact .handle
  · cases h
    exact .handle
  · cases h
    exact .handle
  · cases h
    exact .finish (by decide) fun hcalling => by cases hcalling
  · split at h
    · next hacquire =>
        cases h
        exact .upgrade rfl hacquire
    · cases h
      exact .finish (by decide) fun hcalling => by cases hcalling
  -- the future is dropped
  · cases h
    exact .vanish
  · cases h
    exact .giveUp .body (by decide)
  · cases h
    exact .giveUp .permit (by decide)
  · cases h
    exact .finish (by decide) fun _ => Or.inr (Or.inl rfl)
  -- what it held is dropped
  · cases h
    exact .releaseExecution
  · cases h
    exact .releaseAdmission
  · cases h
    exact .releaseGuard
  · cases h

def Stage.holdsGuard : Stage → Nat
  | arrived | ended _ => 0
  | _ => 1

def Stage.holdsAdmission : Stage → Nat
  | admitted | receiving _ | queued _ | starting _ | running _ _
  | leaving .execution _ | leaving .admission _ => 1
  | _ => 0

def Stage.holdsExecution : Stage → Nat
  | starting _ | running _ _ | leaving .execution _ => 1
  | _ => 0

def Stage.runs : Stage → Nat
  | running _ _ => 1
  | _ => 0

def Process.counted (count : Stage → Nat) : Process → Nat
  | request stage => count stage
  | _ => 0

variable {event : Event} {s t : Shared} {stage next : Stage} {left : List Process}

theorem total_orphans (count : Stage → Nat) (calling : Bool) :
    total (Process.counted count) (orphans calling) = 0 := by
  cases calling <;> rfl

theorem PolicyStep.left_counted (h : PolicyStep event s stage t next left) (count : Stage → Nat) :
    total (Process.counted count) left = 0 := by
  cases h with
  | finish _ _ => exact total_orphans count _
  | _ => rfl

theorem PolicyStep.execution (h : PolicyStep event s stage t next left) :
    t.execution.available + next.holdsExecution = s.execution.available + stage.holdsExecution := by
  cases h with
  | wait hstage hnext => cases hstage <;> cases hnext <;> rfl
  | giveUp hstage _ => cases hstage <;> rfl
  | acquire h => exact (Semaphore.tryAcquire_eq_some h).1.symm
  | _ => rfl

theorem PolicyStep.admitted (h : PolicyStep event s stage t next left) :
    t.admitted.available + next.holdsAdmission = s.admitted.available + stage.holdsAdmission := by
  cases h with
  | wait hstage hnext => cases hstage <;> cases hnext <;> rfl
  | giveUp hstage _ => cases hstage <;> rfl
  | acquireAdmission h => exact (Semaphore.tryAcquire_eq_some h).1.symm
  | _ => rfl

theorem Gate.tryEnter_eq_some {gate gate' : Gate} (h : gate.tryEnter = some gate') :
    gate.phase = .accepting ∧ gate' = { gate with active := gate.active + 1 } := by
  unfold tryEnter at h
  split at h
  · next hopen =>
      cases h
      exact ⟨hopen.1, rfl⟩
  · cases h

theorem Gate.active_leave (gate : Gate) : gate.leave.active = gate.active - 1 := by
  unfold leave
  split <;> rfl

theorem PolicyStep.gate (h : PolicyStep event s stage t next left)
    (hcovered : stage.holdsGuard ≤ s.gate.active) :
    next.holdsGuard + s.gate.active = stage.holdsGuard + t.gate.active := by
  cases h with
  | wait hstage hnext => cases hstage <;> cases hnext <;> rfl
  | giveUp hstage _ => cases hstage <;> rfl
  | enter h =>
      rw [(Gate.tryEnter_eq_some h).2]
      simp only [Stage.holdsGuard]
      omega
  | releaseGuard =>
      simp only [Stage.holdsGuard, Gate.active_leave] at hcovered ⊢
      omega
  | _ => rfl

theorem PolicyStep.closed (h : PolicyStep event s stage t next left) :
    t.admitted.closed = s.admitted.closed := by
  cases h with
  | acquireAdmission h => exact (Semaphore.tryAcquire_eq_some h).2
  | _ => rfl

theorem PolicyStep.stopped (h : PolicyStep event s stage t next left) : t.stopped = s.stopped := by
  cases h <;> rfl

theorem PolicyStep.phase (h : PolicyStep event s stage t next left)
    (hphase : s.gate.phase ≠ .accepting) : t.gate.phase ≠ .accepting := by
  cases h with
  | enter h => exact absurd (Gate.tryEnter_eq_some h).1 hphase
  | releaseGuard =>
      simp only [Gate.leave]
      split
      · simp
      · exact hphase
  | _ => exact hphase

theorem Gate.beginDrain_active (gate : Gate) : gate.beginDrain.active = gate.active := by
  unfold beginDrain
  split
  · rfl
  all_goals split <;> rfl

theorem Gate.stopNow_active (gate : Gate) : gate.stopNow.active = gate.active := by
  unfold stopNow
  split <;> rfl

theorem Gate.beginDrain_phase (gate : Gate) : gate.beginDrain.phase ≠ .accepting := by
  unfold beginDrain
  split
  · next hphase => simp [hphase]
  all_goals split <;> simp

theorem Gate.stopNow_phase (gate : Gate) : gate.stopNow.phase ≠ .accepting := by
  unfold stopNow
  split
  · next hphase => simp [hphase]
  all_goals simp

structure ServeFrame (s t : Shared) : Prop where
  execution : t.execution = s.execution
  admitted : t.admitted = s.admitted
  active : t.gate.active = s.gate.active
  stopped : s.stopped = true → t.stopped = true
  phase : s.gate.phase ≠ .accepting → t.gate.phase ≠ .accepting

theorem serveMove_frame {move : Move} (h : Shared.serveMove move s = some t) : ServeFrame s t := by
  unfold Shared.serveMove at h
  split at h
  · split at h <;> cases h <;>
      exact ⟨rfl, rfl, s.gate.beginDrain_active, id, fun _ => s.gate.beginDrain_phase⟩
  · split at h <;> cases h
    exact ⟨rfl, rfl, rfl, id, id⟩
  · cases h
    exact ⟨rfl, rfl, s.gate.stopNow_active, id, fun _ => s.gate.stopNow_phase⟩
  · split at h <;> cases h
    · exact ⟨rfl, rfl, s.gate.stopNow_active, id, fun _ => s.gate.stopNow_phase⟩
    · exact ⟨rfl, rfl, rfl, id, id⟩
  · cases h
    exact ⟨rfl, rfl, rfl, id, id⟩
  · cases h
    exact ⟨rfl, rfl, s.gate.stopNow_active, id, fun _ => s.gate.stopNow_phase⟩
  · cases h
    exact ⟨rfl, rfl, rfl, id, id⟩
  · split at h <;> cases h
    exact ⟨rfl, rfl, rfl, fun _ => rfl, id⟩
  · cases h

theorem advance_cases {p q : Process} (h : Process.advance event s p = some (t, q, left)) :
    (∃ stage next, p = .request stage ∧ q = .request next ∧
      enforceWorkloadPolicy event s stage = some (t, next, left)) ∨
    ((∀ count, p.counted count = 0) ∧ (∀ count, q.counted count = 0) ∧
      (∀ count, total (Process.counted count) left = 0) ∧ ∃ sessions, t = { s with sessions }) := by
  unfold Process.advance at h
  split at h
  · next stage =>
      obtain ⟨⟨t', next, left'⟩, hstep, hout⟩ := Option.map_eq_some_iff.mp h
      cases hout
      exact Or.inl ⟨stage, next, rfl, rfl, hstep⟩
  · cases h
    exact Or.inr ⟨fun _ => rfl, fun _ => rfl, fun _ => rfl, s.sessions, rfl⟩
  · cases h
    exact Or.inr ⟨fun _ => rfl, fun _ => rfl, fun _ => rfl, s.sessions, rfl⟩
  · cases h
    exact Or.inr
      ⟨fun _ => rfl, fun _ => rfl, fun count => total_orphans count _, s.sessions.release, rfl⟩
  · cases h
    exact Or.inr ⟨fun _ => rfl, fun _ => rfl, fun _ => rfl, s.sessions, rfl⟩
  · cases h

theorem execution_balanced (limits : ServerLimits) :
    Balanced admission (fun s => s.execution.available) (fun _ => limits.maxConcurrentRequests)
      (Process.counted Stage.holdsExecution) where
  fresh := rfl
  environment move s t h := by rw [(serveMove_frame h).execution]
  advance event s p t q left h _ := by
    rcases advance_cases h with ⟨stage, next, rfl, rfl, hstep⟩ | ⟨hp, hq, hleft, sessions, rfl⟩
    · have hcases := policy_cases hstep
      have hexecution := hcases.execution
      rw [hcases.left_counted]
      simp only [Process.counted]
      omega
    · rw [hp, hq, hleft]

theorem admission_balanced (limits : ServerLimits) :
    Balanced admission (fun s => s.admitted.available)
      (fun _ => limits.maxConcurrentRequests + limits.queueCapacity)
      (Process.counted Stage.holdsAdmission) where
  fresh := rfl
  environment move s t h := by rw [(serveMove_frame h).admitted]
  advance event s p t q left h _ := by
    rcases advance_cases h with ⟨stage, next, rfl, rfl, hstep⟩ | ⟨hp, hq, hleft, sessions, rfl⟩
    · have hcases := policy_cases hstep
      have hadmitted := hcases.admitted
      rw [hcases.left_counted]
      simp only [Process.counted]
      omega
    · rw [hp, hq, hleft]

theorem gate_balanced :
    Balanced admission (fun _ => 0) (fun s => s.gate.active)
      (Process.counted Stage.holdsGuard) where
  fresh := rfl
  environment move s t h := by rw [(serveMove_frame h).active]
  advance event s p t q left h hcovered := by
    rcases advance_cases h with ⟨stage, next, rfl, rfl, hstep⟩ | ⟨hp, hq, hleft, sessions, rfl⟩
    · have hcases := policy_cases hstep
      have hgate := hcases.gate (by simpa [Process.counted] using hcovered)
      rw [hcases.left_counted]
      simp only [Process.counted]
      omega
    · rw [hp, hq, hleft]

def Process.Requests (holds : Stage → Prop) (p : Process) : Prop :=
  ∀ stage, p = .request stage → holds stage

theorem requests_of_counted {holds : Stage → Prop} {p : Process}
    (h : ∀ count, p.counted count = 0) : p.Requests holds := by
  rintro stage rfl
  cases h fun _ => 1

theorem requests_of_total {holds : Stage → Prop}
    (h : ∀ count, total (Process.counted count) left = 0) : ∀ p ∈ left, p.Requests holds := by
  intro p hp
  exact requests_of_counted fun count => Nat.le_zero.mp (h count ▸ held_le_total _ hp)

theorem stable_of_policy {J : Shared → Prop} {holds : Stage → Prop} (hfresh : holds .arrived)
    (henvironment : ∀ s t, J s → ServeFrame s t → J t)
    (hsessions : ∀ s sessions, J s → J { s with sessions })
    (hstep : ∀ event s t stage next left, J s → PolicyStep event s stage t next left →
      J t ∧ (holds stage → holds next)) :
    Stable admission J (Process.Requests holds) where
  fresh := by
    rintro stage ⟨⟩
    exact hfresh
  environment move s t hJ h := henvironment s t hJ (serveMove_frame h)
  advance event s p t q left hJ h := by
    rcases advance_cases h with ⟨stage, next, rfl, rfl, hadvance⟩ | ⟨_, hq, hleft, sessions, rfl⟩
    · have hcases := policy_cases hadvance
      obtain ⟨hJ, hholds⟩ := hstep _ _ _ _ _ _ hJ hcases
      refine ⟨hJ, ?_, requests_of_total hcases.left_counted⟩
      rintro hstage _ ⟨⟩
      exact hholds (hstage stage rfl)
    · exact ⟨hsessions s sessions hJ, fun _ => requests_of_counted hq, requests_of_total hleft⟩

theorem stable_closed : Stable admission (fun s => s.gate.phase ≠ .accepting)
    (Process.Requests fun stage => stage.holdsGuard = 0) := by
  refine stable_of_policy rfl (fun s t hphase h => h.phase hphase) (fun _ _ hphase => hphase) ?_
  intro event s t stage next left hphase h
  refine ⟨h.phase hphase, fun hstage => ?_⟩
  cases h with
  | enter h => exact absurd (Gate.tryEnter_eq_some h).1 hphase
  | wait hwait => cases hwait <;> cases hstage
  | giveUp hwait _ => cases hwait <;> cases hstage
  | turnAway | vanish | releaseGuard => rfl
  | _ => cases hstage

/-- Past the check of the stop token, in the poll that starts the handler or
later. -/
def Stage.Launched (stage : Stage) : Prop :=
  stage = .starting true ∨ ∃ polled calling, stage = .running polled calling

theorem stable_stopped : Stable admission (fun s => s.stopped = true)
    (Process.Requests fun stage => ¬ stage.Launched) := by
  refine stable_of_policy (by simp [Stage.Launched]) (fun s t hstopped h => h.stopped hstopped)
    (fun _ _ hstopped => hstopped) ?_
  intro event s t stage next left hstopped h
  refine ⟨h.stopped.trans hstopped, fun hstage => ?_⟩
  cases h with
  | pass hlive =>
      rw [hstopped] at hlive
      cases hlive
  | start | handle => exact absurd (by simp [Stage.Launched]) hstage
  | wait _ hnext => cases hnext <;> simp [Stage.Launched]
  | _ => simp [Stage.Launched, refuse]

theorem stable_open :
    Stable admission (fun s => s.admitted.closed = false) (Process.Requests fun _ => True) := by
  refine stable_of_policy trivial (fun s t hopen h => h.admitted ▸ hopen)
    (fun _ _ hopen => hopen) ?_
  intro event s t stage next left hopen h
  exact ⟨h.closed.trans hopen, id⟩

def Stage.ending : Stage → Option Ending
  | leaving _ ending | ended ending => some ending
  | _ => none

theorem PolicyStep.overloaded (h : PolicyStep event s stage t next left)
    (hstage : stage.ending ≠ some (.refused .overloaded))
    (hnext : next.ending = some (.refused .overloaded)) : s.admitted.tryAcquire = none := by
  cases h with
  | overload h => exact h
  | turnAway | unidentified | vanish | upgrade => cases hnext
  | giveUp _ hending | skip hending | finish hending _ =>
      exact absurd (Option.some.inj hnext) hending
  | releaseExecution | releaseAdmission | releaseGuard => exact absurd hnext hstage
  | wait _ hwait => cases hwait <;> cases hnext
  | _ => cases hnext

structure AdmissionControlled (limits : ServerLimits) (s : Host) : Prop where
  running : total (Process.counted Stage.runs) s.processes ≤ limits.maxConcurrentRequests
  admitted : total (Process.counted Stage.holdsAdmission) s.processes ≤
    limits.maxConcurrentRequests + limits.queueCapacity
  execution_permits : s.shared.execution.available +
    total (Process.counted Stage.holdsExecution) s.processes =
    limits.maxConcurrentRequests
  admission_permits : s.shared.admitted.available +
    total (Process.counted Stage.holdsAdmission) s.processes =
    limits.maxConcurrentRequests + limits.queueCapacity
  active : s.shared.gate.active = total (Process.counted Stage.holdsGuard) s.processes
  overloaded : ∀ i event t stage next, s.processes[i]? = some (.request stage) →
    admission.step (.process i event) s = some t → t.processes[i]? = some (.request next) →
    stage.ending ≠ some (.refused .overloaded) → next.ending = some (.refused .overloaded) →
    total (Process.counted Stage.holdsAdmission) s.processes =
      limits.maxConcurrentRequests + limits.queueCapacity
  /-- Whoever arrives after admission closed never holds a guard. -/
  late : s.shared.gate.phase ≠ .accepting → ∀ labels (t : Host), Runs admission.step s labels t →
    ∀ i stage, s.processes.length ≤ i → t.processes[i]? = some (.request stage) →
      stage.holdsGuard = 0
  /-- Once the stop token is cancelled, a handler runs only if it ran before or
  was past the check of the poll that starts it. -/
  stopped : s.shared.stopped = true → ∀ labels (t : Host), Runs admission.step s labels t →
    ∀ (i : Nat) (polled calling : Bool),
      t.processes[i]? = some (Process.request (.running polled calling)) →
    ∃ stage : Stage, s.processes[i]? = some (Process.request stage) ∧ stage.Launched
  released : (∀ stage, .request stage ∈ s.processes → ∃ ending, stage = .ended ending) →
    s.shared.execution.available = limits.maxConcurrentRequests ∧
    s.shared.admitted.available = limits.maxConcurrentRequests + limits.queueCapacity ∧
      s.shared.gate.active = 0

theorem saturatingAdd_limits (limits : ServerLimits) :
    saturatingAdd limits.maxConcurrentRequests limits.queueCapacity =
      limits.maxConcurrentRequests + limits.queueCapacity := by
  have hmax := limits.maxConcurrentRequests_le
  have hqueue := limits.queueCapacity_le
  unfold saturatingAdd usizeMax
  omega

theorem counted_le {count other : Stage → Nat} (h : ∀ stage, count stage ≤ other stage)
    (processes : List Process) :
    total (Process.counted count) processes ≤ total (Process.counted other) processes := by
  refine total_le fun p _ => ?_
  cases p with
  | request stage => exact h stage
  | session | engineCall => exact Nat.le_refl 0

theorem runs_le_holdsExecution (stage : Stage) : stage.runs ≤ stage.holdsExecution := by
  cases stage with
  | running | starting => simp [Stage.runs, Stage.holdsExecution]
  | leaving next => exact Nat.zero_le _
  | _ => exact Nat.le_refl 0

theorem counted_ended (count : Stage → Nat) (hcount : ∀ ending, count (.ended ending) = 0)
    {processes : List Process}
    (h : ∀ stage, .request stage ∈ processes → ∃ ending, stage = .ended ending) :
    total (Process.counted count) processes = 0 := by
  refine total_eq_zero fun p hp => ?_
  cases p with
  | request stage =>
      obtain ⟨ending, rfl⟩ := h stage hp
      exact hcount ending
  | session | engineCall => rfl

theorem step_processes {i : Nat} {s t : Host} {stage next : Stage}
    (hstage : s.processes[i]? = some (.request stage))
    (h : admission.step (.process i event) s = some t)
    (hnext : t.processes[i]? = some (.request next)) :
    ∃ rest, PolicyStep event s.shared stage t.shared next rest := by
  rcases Program.step_cases
    h with ⟨_, _, hlabel, _⟩ | ⟨hlabel, _⟩ | ⟨j, event', p, shared, q, rest, hlabel, hp, hadvance,
    rfl⟩
  · cases hlabel
  · cases hlabel
  · cases hlabel
    rw [hstage] at hp
    cases hp
    obtain ⟨⟨t', next', rest'⟩, hstep, hout⟩ := Option.map_eq_some_iff.mp hadvance
    cases hout
    have hi : i < s.processes.length := (List.getElem?_eq_some_iff.mp hstage).1
    rw [List.getElem?_append_left (by simpa using hi), List.getElem?_set_self hi] at hnext
    cases hnext
    exact ⟨_, policy_cases hstep⟩

theorem admission_is_controlled_up_to_the_stop_check (limits : ServerLimits)
    (labels : List (Label Move Event)) (s : Host)
    (h : Runs admission.step (Host.start limits) labels s) : AdmissionControlled limits s := by
  have hexecution := (execution_balanced limits).runs (Host.start limits) rfl h
  have hadmission :=
    (admission_balanced limits).runs (Host.start limits) (saturatingAdd_limits limits) h
  have hgate := gate_balanced.runs (Host.start limits) rfl h
  have hopen := (stable_open.runs (i := 0) rfl h (by simp [Host.start])).1
  have hrunning := counted_le runs_le_holdsExecution s.processes
  refine ⟨by omega, by omega, hexecution, hadmission, by omega, ?_, ?_, ?_, ?_⟩
  · intro i event t stage next hstage hstep hnext hnot hending
    obtain ⟨left, hpolicy⟩ := step_processes hstage hstep hnext
    have hnone := Semaphore.tryAcquire_eq_none hopen (hpolicy.overloaded hnot hending)
    omega
  · intro hphase labels t hruns i stage hi hstage
    have hnew := (stable_closed.runs (i := i) hphase hruns fun p hp => ?_).2
    · exact hnew _ hstage stage rfl
    · rw [List.getElem?_eq_none hi] at hp
      cases hp
  · intro hstopped labels t hruns i polled calling hrunning
    by_contra hnone
    have hold := (stable_stopped.runs (i := i) hstopped hruns ?_).2
    · exact hold _ hrunning _ rfl (Or.inr ⟨polled, calling, rfl⟩)
    · rintro p hp stage rfl hlaunched
      exact hnone ⟨stage, hp, hlaunched⟩
  · intro hended
    have hone := counted_ended Stage.holdsExecution (fun _ => rfl) hended
    have htwo := counted_ended Stage.holdsAdmission (fun _ => rfl) hended
    have hthree := counted_ended Stage.holdsGuard (fun _ => rfl) hended
    omega

def oneAtATime : ServerLimits := ⟨1, 1, by decide, by decide, by decide, by decide⟩

/-- The first request, as far as the check of the poll that starts its handler. -/
def launching : List (Label Move Event) :=
  [.arrive, .process 0 .enter, .process 0 .acquireAdmission, .process 0 (.identify true),
    .process 0 .checkStop,
    .process 0 .bodyArrives, .process 0 .checkStop, .process 0 .acquire, .process 0 .checkStop]

theorem a_launching_request_is_controlled :
    ∃ s, run admission.step (Host.start oneAtATime) launching = some s ∧
    AdmissionControlled oneAtATime s :=
  ⟨_, rfl,
    admission_is_controlled_up_to_the_stop_check oneAtATime launching _ (runs_iff_run.mpr rfl)⟩

/-- Between the check of the stop token and the first poll of the handler the
drain times out. -/
theorem a_handler_starts_after_the_stop :
    ∃ (labels : List (Label Move Event)) (s t : Host),
      Runs admission.step (Host.start oneAtATime) labels s ∧ s.shared.stopped = true ∧
    s.processes[0]? = some (Process.request (.starting true)) ∧
    admission.step (.process 0 .startHandler) s = some t ∧
    t.processes[0]? = some (Process.request (.running true false)) :=
  ⟨launching ++ [.environment .signal, .environment .drainTimesOut, .environment .cancelStop], _, _,
    runs_iff_run.mpr rfl, rfl, rfl, rfl, rfl⟩

end ImpossibleVoice.Server

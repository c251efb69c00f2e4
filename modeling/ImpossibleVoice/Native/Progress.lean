import ImpossibleVoice.Lib.Progress
import ImpossibleVoice.Native.Lifecycle

namespace ImpossibleVoice.Native

open Lib Audio

def Task.Idle : Task → Prop
  | .runtime | .engine _ | .stream _ _ _ | .ended => True
  | _ => False

def Task.awaited : Task → Option Handle
  | .creating handle .waiting => some (.recognizer, handle)
  | .decoding _ handle _ .waiting => some (.recognizer, handle)
  | .retrieving owner .waiting => some owner.handle
  | _ => none

/-- What may happen next to a thread inside a call: an answer of the library, as
it pleases, or the next step. -/
def Due (s : Shared) (event : Event) : Task → Prop
  | .creating _ .locked =>
      ∃ result, event = .pointer result ∧ Fresh (s.heap.streams.map Prod.fst) result
  | .decoding _ _ _ (.asking (_ + 1)) => ∃ yes, event = .ready yes
  | .retrieving _ .asking =>
      ∃ result, event = .pointer result ∧ Fresh (s.heap.outputs.map Prod.snd) result
  | _ => event = .proceed

def Free (s : Shared) (task : Task) : Prop :=
  (∃ event, Due s event task) ∧ ∀ event, Due s event task → (advance event s task).isSome = true

def Creation.rank : Creation → Nat
  | waiting => 4
  | locked => 3
  | made _ => 2
  | failed | cloned _ => 1

def Decoding.rank : Decoding → Nat
  | waiting => 2 * maxDecodeSteps + 3
  | asking left => 2 * left + 2
  | working left => 2 * left + 3
  | leaving _ => 1

def Retrieval.rank : Retrieval → Nat
  | waiting => 5
  | asking => 4
  | reading _ => 3
  | freeing _ => 2
  | leaving => 1

/-- How many steps of its own a thread is at most from the end of its call;
`finish` fetches the text after decoding. -/
def Task.rank : Task → Nat
  | .creating _ at' => at'.rank
  | .decoding _ _ _ at' => 5 + at'.rank
  | .retrieving _ at' => at'.rank
  | .dropping _ => 4
  | .destroying _ => 3
  | .releasing => 2
  | .unloading => 1
  | _ => 0

def callBound : Nat := 2 * maxDecodeSteps + 8

theorem rank_eq_zero {task : Task} : task.rank = 0 ↔ task.Idle := by
  cases task with
  | creating engine at' => cases at' <;> simp [Task.rank, Task.Idle, Creation.rank]
  | decoding stream engine finished at' => simp [Task.rank, Task.Idle]
  | retrieving owner at' => cases at' <;> simp [Task.rank, Task.Idle, Retrieval.rank]
  | _ => simp [Task.rank, Task.Idle]

variable {s t : Shared} {event : Event} {task q : Task} {left : List Task} {handle : Handle}

/-- A step that leaves less than `n` to do, and nothing but idle threads behind. -/
structure Spends (n : Nat) (q : Task) (left : List Task) : Prop where
  rank : q.rank < n
  left : ∀ r ∈ left, r.Idle

theorem Spends.alone {n : Nat} (h : q.rank < n) : Spends n q [] := ⟨h, fun _ hr => by cases hr⟩

theorem Spends.beside {n : Nat} {other : Task} (h : q.rank < n) (hother : other.Idle) :
    Spends n q [other] := by
  refine ⟨h, fun r hr => ?_⟩
  rw [List.mem_singleton.mp hr]
  exact hother

section Steps

variable {engine stream n : Nat} {finished : Bool}

theorem spends_lock {next : Task} (h : s.lock handle next = some (t, q, left))
    (hnext : next.rank < n) : Spends n q left := by
  rw [Shared.lock] at h
  split at h
  · cases h
  · cases h
    exact .alone hnext

theorem spends_create {at' : Creation} (h : s.create engine event at' = some (t, q, left)) :
    Spends at'.rank q left := by
  cases at' with
  | waiting =>
      cases event with
      | proceed => exact spends_lock h (by simp [Task.rank, Creation.rank])
      | _ => cases h
  | locked =>
      cases event with
      | pointer result =>
          simp only [Shared.create] at h
          split at h
          · cases h
            cases result <;> exact .alone (by simp [Task.rank, Creation.rank])
          · cases h
      | _ => cases h
  | failed | made =>
      cases event with
      | proceed =>
          cases h
          exact .alone (by simp [Task.rank, Creation.rank])
      | _ => cases h
  | cloned =>
      cases event with
      | proceed =>
          cases h
          exact .beside (by simp [Task.rank, Creation.rank]) trivial
      | _ => cases h

theorem spends_decode {at' : Decoding}
    (h : s.decode stream engine finished event at' = some (t, q, left)) :
    Spends (5 + at'.rank) q left := by
  cases at' with
  | waiting =>
      cases event with
      | proceed =>
          apply spends_lock h
          simp only [Task.rank, Decoding.rank]
          omega
      | _ => cases h
  | asking count =>
      cases count with
      | zero =>
          cases event with
          | proceed =>
              cases h
              exact .alone (by simp [Task.rank, Decoding.rank])
          | _ => cases h
      | succ count =>
          cases event with
          | ready yes =>
              cases h
              cases yes <;> exact .alone (by simp [Task.rank, Decoding.rank]; omega)
          | _ => cases h
  | working count =>
      cases event with
      | proceed =>
          cases h
          exact .alone (by simp [Task.rank, Decoding.rank])
      | _ => cases h
  | leaving drained =>
      cases event with
      | proceed =>
          cases h
          apply Spends.alone
          split <;> simp [Task.rank, Retrieval.rank, Decoding.rank]
      | _ => cases h

theorem spends_retrieve {owner : Owner} {at' : Retrieval}
    (h : s.retrieve owner event at' = some (t, q, left)) : Spends at'.rank q left := by
  cases at' with
  | waiting =>
      cases event with
      | proceed => exact spends_lock h (by simp [Task.rank, Retrieval.rank])
      | _ => cases h
  | asking =>
      cases event with
      | pointer result =>
          simp only [Shared.retrieve] at h
          split at h
          · cases h
            cases result <;> exact .alone (by simp [Task.rank, Retrieval.rank])
          · cases h
      | _ => cases h
  | reading | freeing =>
      cases event with
      | proceed =>
          cases h
          exact .alone (by simp [Task.rank, Retrieval.rank])
      | _ => cases h
  | leaving =>
      cases event with
      | proceed =>
          cases h
          cases owner <;> exact .alone (by simp [Owner.idle, Task.rank, Retrieval.rank])
      | _ => cases h

theorem spends_dropEngine (h : s.dropEngine handle = some (t, q, left)) : Spends 4 q left := by
  cases h
  apply Spends.alone
  split <;> simp [Task.rank]

theorem spends_dropApi (h : s.dropApi = some (t, q, left)) : Spends 2 q left := by
  cases h
  apply Spends.alone
  split <;> decide

theorem spends_openEngine {kind : Kind} {threads : Nat} {result : Option Nat}
    (h : s.openEngine kind threads result = some (t, q, left)) : Spends 1 q left := by
  unfold Shared.openEngine at h
  split at h
  · cases h
    exact .alone (by decide)
  · split at h
    · cases result with
      | none =>
          cases h
          exact .alone (by decide)
      | some pointer =>
          cases h
          exact .beside (by decide) trivial
    · cases h

theorem Spends.mono {m : Nat} (h : Spends m q left) (hm : m ≤ n) : Spends n q left :=
  ⟨Nat.lt_of_lt_of_le h.rank hm, h.left⟩

end Steps

theorem spends_working (hwork : task.rank ≠ 0) (h : advance event s task = some (t, q, left)) :
    Spends task.rank q left := by
  cases task with
  | runtime | engine | stream | ended => exact absurd rfl hwork
  | creating engine at' => exact spends_create h
  | decoding stream engine finished at' => exact spends_decode h
  | retrieving owner at' => exact spends_retrieve h
  | dropping handle =>
      cases event with
      | proceed => exact spends_dropEngine h
      | _ => cases h
  | releasing =>
      cases event with
      | proceed => exact spends_dropApi h
      | _ => cases h
  | destroying | unloading =>
      cases event with
      | proceed =>
          cases h
          exact .alone (by simp [Task.rank])
      | _ => cases h

theorem spends_idle (hidle : task.rank = 0) (h : advance event s task = some (t, q, left)) :
    Spends (callBound + 1) q left := by
  have hsmall (n : Nat) (hn : n ≤ 6) : n < callBound + 1 := by
    rw [callBound]
    omega
  cases task with
  | runtime =>
      cases event with
      | clone =>
          cases h
          exact .beside (hsmall 0 (by decide)) trivial
      | openEngine kind threads result => exact (spends_openEngine h).mono (hsmall 0 (by decide))
      | drop => exact (spends_dropApi h).mono (hsmall 1 (by decide))
      | _ => cases h
  | engine handle =>
      cases event with
      | clone =>
          cases h
          exact .beside (hsmall 0 (by decide)) trivial
      | drop => exact (spends_dropEngine h).mono (hsmall 3 (by decide))
      | createStream =>
          simp only [advance, Shared.useEngine] at h
          split at h
          · cases h
            exact .alone (hsmall 4 (by decide))
          · cases h
      | generate text speed maxSamples =>
          simp only [advance, Shared.useEngine] at h
          split at h
          · split at h
            · cases h
              exact .alone (hsmall 0 (by decide))
            · cases h
              exact .alone (hsmall 5 (by decide))
          · cases h
      | _ => cases h
  | stream pointer engine finished =>
      have hdecode : 5 + (Decoding.waiting).rank < callBound + 1 := by
        rw [Decoding.rank, callBound]
        omega
      cases event with
      | accept samples =>
          simp only [advance, Shared.useStream] at h
          split at h
          · cases h
            exact .alone (hsmall 0 (by decide))
          · cases h
            exact .alone hdecode
      | finish =>
          simp only [advance, Shared.useStream] at h
          split at h
          · cases h
            exact .alone (hsmall 0 (by decide))
          · cases h
            exact .alone hdecode
      | text =>
          cases h
          exact .alone (hsmall 5 (by decide))
      | drop =>
          cases h
          exact .alone (hsmall 4 (by decide))
      | _ => cases h
  | ended => cases h
  | decoding => exact absurd (rank_eq_zero.mp hidle) id
  | creating | retrieving | dropping | destroying | releasing | unloading =>
      exact absurd (rank_eq_zero.mp hidle) id

theorem descends : Descends wrapper Task.rank :=
  fun _ _ _ _ _ _ h hwork => (spends_working hwork h).rank

theorem bounded : Stable wrapper (fun _ => True) fun task => task.rank ≤ callBound where
  fresh := Nat.zero_le _
  environment move := move.elim
  advance event s task t q left _ h := by
    have hleft (h : ∀ r ∈ left, r.Idle) : ∀ r ∈ left, r.rank ≤ callBound := fun r hr => by
      rw [rank_eq_zero.mpr (h r hr)]
      exact Nat.zero_le _
    by_cases hwork : task.rank = 0
    · have hspends := spends_idle hwork h
      exact ⟨trivial, fun _ => Nat.le_of_lt_succ hspends.rank, hleft hspends.left⟩
    · have hspends := spends_working hwork h
      exact ⟨trivial, fun hle => hspends.rank.le.trans hle, hleft hspends.left⟩

theorem rank_le_callBound {labels : List (Label Empty Event)} {s : System Shared Task}
    (h : Runs wrapper.step start labels s) (htask : task ∈ s.processes) :
    task.rank ≤ callBound := by
  obtain ⟨i, hi⟩ := List.mem_iff_getElem?.mp htask
  refine (bounded.runs trivial h fun p hp => ?_).2 task hi
  rw [List.mem_singleton.mp (List.mem_of_getElem? hp)]
  exact Nat.zero_le _

theorem exists_due (s : Shared) (task : Task) : ∃ event, Due s event task := by
  cases task with
  | creating engine at' =>
      cases at' with
      | locked => exact ⟨.pointer none, none, rfl, by simp [Fresh]⟩
      | _ => exact ⟨.proceed, rfl⟩
  | decoding stream engine finished at' =>
      cases at' with
      | asking left =>
          cases left with
          | zero => exact ⟨.proceed, rfl⟩
          | succ left => exact ⟨.ready true, true, rfl⟩
      | _ => exact ⟨.proceed, rfl⟩
  | retrieving owner at' =>
      cases at' with
      | asking => exact ⟨.pointer none, none, rfl, by simp [Fresh]⟩
      | _ => exact ⟨.proceed, rfl⟩
  | _ => exact ⟨.proceed, rfl⟩

theorem lock_isSome {next : Task} (h : s.locked handle = false) :
    (s.lock handle next).isSome = true := by
  rw [Shared.lock, if_neg (by simp [h])]
  rfl

/-- A thread inside a call goes on whatever the library answers, unless it waits
for a gate that is taken. -/
theorem free_of_unlocked (hwork : task.rank ≠ 0)
    (hgate : ∀ handle, task.awaited = some handle → s.locked handle = false) : Free s task := by
  refine ⟨exists_due s task, fun event hdue => ?_⟩
  cases task with
  | runtime | engine | stream | ended => exact absurd rfl hwork
  | creating engine at' =>
      cases at' with
      | waiting =>
          cases hdue
          exact lock_isSome (hgate _ rfl)
      | locked =>
          obtain ⟨result, rfl, hfresh⟩ := hdue
          simp only [advance, Shared.create, if_pos hfresh]
          rfl
      | failed | made | cloned =>
          cases hdue
          rfl
  | decoding stream engine finished at' =>
      cases at' with
      | waiting =>
          cases hdue
          exact lock_isSome (hgate _ rfl)
      | asking left =>
          cases left with
          | zero =>
              cases hdue
              rfl
          | succ left =>
              obtain ⟨yes, rfl⟩ := hdue
              rfl
      | working | leaving =>
          cases hdue
          rfl
  | retrieving owner at' =>
      cases at' with
      | waiting =>
          cases hdue
          exact lock_isSome (hgate _ rfl)
      | asking =>
          obtain ⟨result, rfl, hfresh⟩ := hdue
          simp only [advance, Shared.retrieve, if_pos hfresh]
          rfl
      | reading | freeing | leaving =>
          cases hdue
          rfl
  | dropping | destroying | releasing | unloading =>
      cases hdue
      rfl

/-- Whoever holds a gate waits for none. -/
theorem working_of_lock (h : .lock handle ∈ task.tokens) : task.rank ≠ 0 ∧ task.awaited = none := by
  cases task with
  | creating engine at' =>
      cases at' <;> simp_all [Creation.tokens, Task.rank, Creation.rank, Task.awaited]
  | decoding stream engine finished at' =>
      cases at' <;> simp_all [Decoding.tokens, Task.rank, Task.awaited]
  | retrieving owner at' =>
      cases owner <;> cases at' <;>
        simp_all [Owner.tokens, Retrieval.tokens, Task.rank, Retrieval.rank, Task.awaited]
  | _ => simp at h

/-- No call of the wrapper is ever stuck: a thread inside one can go on whatever
the library answers, or waits for a gate whose holder can; and after `callBound`
steps of its own it has been idle, with no gate in its hands. -/
theorem no_call_is_stuck (labels : List (Label Empty Event)) (s : System Shared Task)
    (h : Runs wrapper.step start labels s) :
    (∀ task ∈ s.processes, task.Idle ∨ Free s.shared task ∨
      ∃ handle, task.awaited = some handle ∧ ∃ holder ∈ s.processes, .lock handle ∈ holder.tokens ∧
      Free s.shared holder) ∧ ∀ more t, Runs wrapper.step s more t →
    ∀ (i : Nat) (task : Task), s.processes[i]? = some task →
    callBound < more.countP (Label.isOf i) →
    Visits wrapper s more i fun task => task.Idle ∧ ∀ handle, .lock handle ∉ task.tokens := by
  refine ⟨fun task htask => ?_, fun more t hmore i task hi hcount => ?_⟩
  · by_cases hwork : task.rank = 0
    · exact .inl (rank_eq_zero.mp hwork)
    right
    by_cases hgate : ∀ handle, task.awaited = some handle → s.shared.locked handle = false
    · exact .inl (free_of_unlocked hwork hgate)
    · right
      obtain ⟨handle, hgate⟩ := not_forall.mp hgate
      obtain ⟨hawaited, hlocked⟩ := Classical.not_imp.mp hgate
      have hbalance := (conserves.runs accounted_start h).balance (.lock handle)
      have hheld : 0 < total (held (.lock handle)) s.processes := by
        simp only [stock, owed, Bool.not_eq_false _ |>.mp hlocked, Bool.toNat_true] at hbalance
        omega
      obtain ⟨holder, hmem, hlock⟩ := exists_holder hheld
      obtain ⟨hworking, hnone⟩ := working_of_lock hlock
      refine ⟨handle, hawaited, holder, hmem, hlock,
        free_of_unlocked hworking fun other hother => ?_⟩
      rw [hnone] at hother
      cases hother
  · obtain ⟨q, -, hvisits | hpaid⟩ := descends.runs hmore hi
    · refine hvisits.imp fun r hr =>
        ⟨rank_eq_zero.mp hr, fun handle hlock => (working_of_lock hlock).1 hr⟩
    · have hle := rank_le_callBound h (List.mem_of_getElem? hi)
      omega

/-- Two threads make a stream of one recognizer; the first is inside the gate. -/
def contended : List (Label Empty Event) :=
  [.process 0 (.openEngine .recognizer 1 (some 7)), .process 1 .clone, .process 1 .createStream,
    .process 2 .createStream,
    .process 1 .proceed]

theorem a_waiting_thread_is_not_stuck :
    ∃ s, Runs wrapper.step start contended s ∧
    ∃ holder ∈ s.processes, .lock (.recognizer, 7) ∈ holder.tokens ∧ Free s.shared holder := by
  have hwaits : (run wrapper.step start contended).any (fun s =>
      decide (.creating 7 .waiting ∈ s.processes) && s.shared.locked (.recognizer, 7)) = true := by
    decide +kernel
  obtain ⟨s, hrun, hboth⟩ := (Option.any_eq_true _ _).mp hwaits
  rw [Bool.and_eq_true, decide_eq_true_iff] at hboth
  have hruns := runs_iff_run.mpr hrun
  obtain hidle | ⟨⟨event, hdue⟩, hfree⟩ | ⟨handle, hawaited, hholder⟩ :=
    (no_call_is_stuck contended s hruns).1 _ hboth.1
  · exact hidle.elim
  · cases hdue
    have hgoes := hfree .proceed rfl
    rw [show advance .proceed s.shared (.creating 7 .waiting) = none from if_pos hboth.2] at hgoes
    cases hgoes
  · cases hawaited
    exact ⟨s, hruns, hholder⟩

end ImpossibleVoice.Native

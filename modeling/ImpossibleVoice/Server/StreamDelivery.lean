import ImpossibleVoice.Server.Grpc
import Mathlib.Data.List.Induction

namespace ImpossibleVoice.Server

open Lib
open Stt (Transcript)

structure Production where
  task : Task
  items : List Item
  running : Bool

def Production.start : Production := ⟨.start, [], true⟩

def Production.next (backend : VoiceBackend) (p : Production) (selected : Selected) : Production :=
  if p.running = true then
    let turn := onSelected backend p.task selected
    ⟨turn.task, p.items ++ turn.items, turn.continues⟩
  else p

def produce (backend : VoiceBackend) (taken : List Selected) : Production :=
  taken.foldl (Production.next backend) .start

theorem produce_snoc (backend : VoiceBackend) (taken : List Selected) (selected : Selected) :
    produce backend (taken ++ [selected]) = (produce backend taken).next backend selected := by
  rw [produce, List.foldl_append]
  rfl

theorem Production.next_running {p : Production} (h : p.running = true) (backend : VoiceBackend)
    (selected : Selected) :
    p.next backend selected =
      ⟨(onSelected backend p.task selected).task,
      p.items ++ (onSelected backend p.task selected).items,
      (onSelected backend p.task selected).continues⟩ := by
  rw [next, if_pos h]

theorem Production.next_of_stopped {backend : VoiceBackend} {p : Production} (h : p.running = false)
    (selected : Selected) : p.next backend selected = p := by
  rw [next, if_neg (by simp [h])]

/-- The call refines its production: its queue carries what is produced, and
nothing else is done. -/
structure Refines (backend : VoiceBackend) (s : StreamCall) : Prop where
  task : s.task = (produce backend s.taken).task
  carries : s.output.Carries (produce backend s.taken).items
  running : s.running = true → (produce backend s.taken).running = true
  stopped : s.output.reading = true → s.running = false → (produce backend s.taken).running = false
  room : s.output.queue.length ≤ outputQueue

variable {backend : VoiceBackend} {s t : StreamCall}

theorem Refines.start : Refines backend .start :=
  ⟨rfl, rfl, fun _ => rfl, fun _ h => absurd h (by decide), Nat.zero_le _⟩

theorem Refines.turn (h : Refines backend s) (hrunning : s.running = true) (selected : Selected) :
    Refines backend (s.turn backend selected) := by
  have hnext := Production.next_running (h.running hrunning) backend selected
  rw [← produce_snoc, ← h.task] at hnext
  refine ⟨?_, ?_, ?_, ?_, h.room⟩ <;> simp only [StreamCall.turn, hnext]
  · exact h.carries.emit _
  · exact fun hcontinues => hcontinues
  · exact fun _ hcontinues => hcontinues

theorem Refines.of_inbox (h : Refines backend s) (inbox : List Incoming) :
    Refines backend { s with inbox } :=
  ⟨h.task, h.carries, h.running, h.stopped, h.room⟩

theorem Refines.of_stop (h : Refines backend s) (stop : Option RequestStop) :
    Refines backend { s with stop } :=
  ⟨h.task, h.carries, h.running, h.stopped, h.room⟩

/-- What a turn of `select!` can be. -/
theorem select_eq_some (h : s.select backend = some t) : s.output.pending = [] ∧ s.running = true ∧
    ((∃ reason, s.stop = some reason ∧ t = s.turn backend (.stopped reason)) ∨
      ∃ incoming rest, s.stop = none ∧ s.inbox = incoming :: rest ∧
        t = { s with inbox := rest }.turn backend (.input incoming)) := by
  unfold StreamCall.select at h
  split at h
  · next hready =>
      refine ⟨hready.1, hready.2, ?_⟩
      split at h
      · next reason hstop =>
          cases h
          exact Or.inl ⟨reason, hstop, rfl⟩
      · next incoming rest hstop hinbox =>
          cases h
          exact Or.inr ⟨incoming, rest, hstop, hinbox, rfl⟩
      · cases h
  · cases h

theorem Refines.step (h : Refines backend s) {label : Label}
    (hstep : s.step backend label = some t) : Refines backend t := by
  cases label with
  | stop reason =>
      cases hstep
      exact h.of_stop _
  | arrive incoming =>
      cases hstep
      exact h.of_inbox _
  | select =>
      obtain ⟨_, hrunning, ⟨reason, _, rfl⟩ | ⟨incoming, rest, _, _, rfl⟩⟩ := select_eq_some hstep
      · exact h.turn hrunning _
      · exact (h.of_inbox rest).turn hrunning _
  | send =>
      obtain ⟨output, hsend, rfl⟩ := Option.map_eq_some_iff.mp hstep
      have hreading := Pipe.send_reading hsend
      refine ⟨h.task, h.carries.send hsend, fun hrunning => h.running ?_, fun hreads hstopped => ?_,
        Pipe.queue_length_send h.room hsend⟩
      · exact (Bool.and_eq_true_iff.mp hrunning).1
      · rw [hreads] at hreading
        refine h.stopped hreading.symm ?_
        simpa [← hreading] using hstopped
  | receive =>
      obtain ⟨output, hreceive, rfl⟩ := Option.map_eq_some_iff.mp hstep
      obtain ⟨hreading, _⟩ := Pipe.receive_eq_some hreceive
      exact ⟨h.task, h.carries.receive hreceive, h.running, fun _ => h.stopped hreading,
        Pipe.queue_length_receive h.room hreceive⟩
  | drop =>
      obtain ⟨output, hdrop, rfl⟩ := Option.map_eq_some_iff.mp hstep
      obtain ⟨_, rfl⟩ := Pipe.drop_eq_some hdrop
      exact ⟨h.task, h.carries.drop hdrop, h.running, nofun, Nat.zero_le _⟩

theorem refines_of_reaches {labels : List Label} (h : StreamCall.Reaches backend labels s) :
    Refines backend s :=
  h.invariant (P := fun _ s => Refines backend s) Refines.start fun _ _ _ _ hs hstep =>
    hs.step hstep

def Label.incoming : Label → Option Incoming
  | arrive incoming => some incoming
  | _ => none

def Selected.incoming : Selected → Option Incoming
  | input incoming => some incoming
  | _ => none

def arrivals (labels : List Label) : List Incoming := labels.filterMap Label.incoming

def consumed (taken : List Selected) : List Incoming := taken.filterMap Selected.incoming

theorem consumed_snoc (taken : List Selected) (selected : Selected) :
    consumed (taken ++ [selected]) = consumed taken ++ selected.incoming.toList := by
  rw [consumed, List.filterMap_append]
  cases selected <;> rfl

theorem consumed_append_inbox {labels : List Label} (h : StreamCall.Reaches backend labels s) :
    consumed s.taken ++ s.inbox = arrivals labels := by
  refine h.invariant (P := fun labels s => consumed s.taken ++ s.inbox = arrivals labels) rfl ?_
  intro labels s label t ih hstep
  rw [arrivals, List.filterMap_append, ← arrivals, ← ih]
  cases label with
  | stop reason =>
      cases hstep
      exact (List.append_nil _).symm
  | arrive incoming =>
      cases hstep
      exact (List.append_assoc _ _ _).symm
  | select =>
      obtain ⟨_, _, ⟨reason, _, rfl⟩ | ⟨incoming, rest, _, hinbox, rfl⟩⟩ := select_eq_some hstep
      · simp [StreamCall.turn, consumed_snoc, Selected.incoming, Label.incoming]
      · simp [StreamCall.turn, consumed_snoc, Selected.incoming, Label.incoming, hinbox]
  | send | receive | drop =>
      obtain ⟨output, _, rfl⟩ := Option.map_eq_some_iff.mp hstep
      exact (List.append_nil _).symm

def Payload (bytes : List UInt8) : Prop := bytes ≠ [] ∧ bytes.length ≤ maxStreamAudioBytes

def pushCalls (pushes : List (List UInt8 × List Transcript)) : List VoiceCall :=
  pushes.map fun push => .pushPcm16 push.1 (.ok push.2)

inductive LastCall : List VoiceCall → Prop
  | none : LastCall []
  | pushFailed {bytes : List UInt8} (h : Payload bytes) (error : VoiceBackendError) :
      LastCall [.pushPcm16 bytes (.error error)]
  | finish (reply : Except VoiceBackendError Transcript) : LastCall [.finish reply]

/-- At most one opening, pushes of legal payloads on the open session, and
nothing after a `finish` or an error. -/
inductive CallOrder : List VoiceCall → Prop
  | unopened : CallOrder []
  | refused (rate : UInt32) (error : VoiceBackendError) :
      CallOrder [.startTranscription rate (.error error)]
  | opened (rate : UInt32) {pushes : List (List UInt8 × List Transcript)} {tail : List VoiceCall}
      (hpushes : ∀ push ∈ pushes, Payload push.1) (htail : LastCall tail) :
      CallOrder (.startTranscription rate (.ok ()) :: pushCalls pushes ++ tail)

def VoiceCall.updates : VoiceCall → List Transcript
  | pushPcm16 _ (.ok updates) => updates
  | _ => []

def VoiceCall.payload : VoiceCall → Option (List UInt8)
  | pushPcm16 bytes _ => some bytes
  | _ => none

def updatesOf (calls : List VoiceCall) : List Transcript := calls.flatMap VoiceCall.updates

def payloadsOf (calls : List VoiceCall) : List (List UInt8) := calls.filterMap VoiceCall.payload

def Incoming.audio : Incoming → Option (List UInt8)
  | message (some (.audio bytes)) => some bytes
  | _ => none

def audiosOf (incoming : List Incoming) : List (List UInt8) := incoming.filterMap Incoming.audio

def delivered (calls : List VoiceCall) : List Item :=
  (updatesOf calls).map fun update => .ok (.ofUpdate update)

theorem delivered_append (front back : List VoiceCall) :
    delivered (front ++ back) = delivered front ++ delivered back := by
  rw [delivered, updatesOf, List.flatMap_append, List.map_append]
  rfl

/-- How a stream ends: with the final transcript, with one error, or with
nothing after the client's own cancellation. -/
inductive Outcome (calls : List VoiceCall) (incoming : List Incoming) : List Item → Prop
  | final (update : Transcript) (hlast : calls.getLast? = some (.finish (.ok update))) :
      Outcome calls incoming [.ok ⟨update.text, true⟩]
  | failed (status : Status) (hfinish : ∀ update, .finish (.ok update) ∉ calls)
      (hstatus : ∀ call ∈ calls, ∀ error, call.failure = some error →
        status = mapBackendError error) :
      Outcome calls incoming [.error status]
  | cancelled (hcancel : .message (some (.cancel true)) ∈ incoming)
      (hfinish : ∀ update, .finish (.ok update) ∉ calls)
      (hstatus : ∀ call ∈ calls, call.failure = none) : Outcome calls incoming []

structure Production.Open (incoming : List Incoming) (p : Production) : Prop where
  running : p.running = true
  committed : p.task.committed = false
  calls : p.task.session = none ∧ p.task.calls = [] ∨ p.task.session = some .boxed ∧ ∃ rate pushes,
    p.task.calls = .startTranscription rate (.ok ()) :: pushCalls pushes ∧
      ∀ push ∈ pushes, Payload push.1
  payloads : payloadsOf p.task.calls = audiosOf incoming
  items : p.items = delivered p.task.calls

structure Production.Closed (incoming : List Incoming) (p : Production) : Prop where
  running : p.running = false
  order : CallOrder p.task.calls
  payloads : payloadsOf p.task.calls <+: audiosOf incoming
  items : ∃ outcome, Outcome p.task.calls incoming outcome ∧
    p.items = delivered p.task.calls ++ outcome

namespace Production

variable {incoming : List Incoming} {p : Production}

theorem Closed.mono (h : p.Closed incoming) (more : List Incoming) :
    p.Closed (incoming ++ more) := by
  obtain ⟨outcome, houtcome, hitems⟩ := h.items
  refine ⟨h.running, h.order, h.payloads.trans ?_, outcome, ?_, hitems⟩
  · rw [audiosOf, audiosOf, List.filterMap_append]
    exact List.prefix_append _ _
  · cases houtcome with
    | final update hlast => exact .final update hlast
    | failed status hfinish hstatus => exact .failed status hfinish hstatus
    | cancelled hcancel hfinish hstatus =>
        exact .cancelled (List.mem_append_left _ hcancel) hfinish hstatus

theorem Open.order (h : p.Open incoming) : CallOrder p.task.calls := by
  rcases h.calls with ⟨_, hcalls⟩ | ⟨_, rate, pushes, hcalls, hpushes⟩
  · rw [hcalls]
    exact .unopened
  · rw [hcalls, ← List.append_nil (_ :: _)]
    exact .opened rate hpushes .none

theorem Open.call_ok (h : p.Open incoming) {call : VoiceCall} (hcall : call ∈ p.task.calls) :
    call.failure = none ∧ ∀ reply, call ≠ .finish reply := by
  rcases h.calls with ⟨_, hcalls⟩ | ⟨_, rate, pushes, hcalls, _⟩
  · rw [hcalls] at hcall
    exact absurd hcall List.not_mem_nil
  · rw [hcalls] at hcall
    rcases List.mem_cons.mp hcall with rfl | hcall
    · exact ⟨rfl, nofun⟩
    · obtain ⟨push, _, rfl⟩ := List.mem_map.mp hcall
      exact ⟨rfl, nofun⟩

theorem Open.refuse (h : p.Open incoming) (more : List Incoming) (status : Status) :
    Closed (incoming ++ more) ⟨p.task, p.items ++ [.error status], false⟩ := by
  refine ⟨rfl, h.order, ?_, _,
    .failed status (fun _ hcall => (h.call_ok hcall).2 _ rfl) fun call hcall error herror => ?_, ?_⟩
  · rw [h.payloads, audiosOf, audiosOf, List.filterMap_append]
    exact List.prefix_append _ _
  · exact absurd ((h.call_ok hcall).1.symm.trans herror) (by simp)
  · rw [h.items]

theorem Open.fail (h : p.Open incoming) {more : List Incoming} {call : VoiceCall}
    {error : VoiceBackendError} (hfailure : call.failure = some error) {task : Task}
    (hcalls : task.calls = p.task.calls ++ [call]) (horder : CallOrder task.calls)
    (hpayload : call.payload.toList <+: audiosOf more) :
    Closed (incoming ++ more) ⟨task, p.items ++ [.error (mapBackendError error)], false⟩ := by
  have hfinish : ∀ update, call ≠ .finish (.ok update) := by
    rintro update rfl
    cases hfailure
  have hupdates : delivered [call] = [] := by
    cases call with
    | startTranscription | finish | synthesize => rfl
    | pushPcm16 bytes reply =>
        cases reply with
        | error => rfl
        | ok => cases hfailure
  refine ⟨rfl, horder, ?_, _, .failed (mapBackendError error) (fun update hcall => ?_)
    (fun other hcall e he => ?_), ?_⟩
  · rw [hcalls, payloadsOf, List.filterMap_append, ← payloadsOf, h.payloads, audiosOf, audiosOf,
      List.filterMap_append]
    refine List.prefix_append_right_inj _ |>.mpr ?_
    cases hp : call.payload with
    | none =>
        rw [List.filterMap_cons_none hp]
        exact List.nil_prefix
    | some bytes =>
        rw [List.filterMap_cons_some hp]
        rwa [hp] at hpayload
  · rw [hcalls] at hcall
    rcases List.mem_append.mp hcall with hcall | hcall
    · exact (h.call_ok hcall).2 _ rfl
    · exact hfinish update (List.mem_singleton.mp hcall).symm
  · rw [hcalls] at hcall
    rcases List.mem_append.mp hcall with hcall | hcall
    · exact absurd ((h.call_ok hcall).1.symm.trans he) (by simp)
    · rw [List.mem_singleton.mp hcall, hfailure] at he
      cases he
      rfl
  · rw [h.items, hcalls, delivered_append, hupdates, List.append_nil]

def After (incoming : List Incoming) (items : List Item) (turn : Turn) : Prop :=
  Open incoming ⟨turn.task, items ++ turn.items, turn.continues⟩ ∨
    Closed incoming ⟨turn.task, items ++ turn.items, turn.continues⟩

theorem Open.onConfig (h : p.Open incoming) (hsession : p.task.session = none)
    (backend : VoiceBackend) (rate : UInt32) :
    After (incoming ++ [.message (some (.config rate))]) p.items
      (onConfig backend p.task rate) := by
  have hcalls : p.task.calls = [] := by
    rcases h.calls with ⟨_, hcalls⟩ | ⟨hopen, _⟩
    · exact hcalls
    · rw [hsession] at hopen
      cases hopen
  unfold Server.onConfig
  cases backend.startTranscription p.task.calls rate with
  | error error =>
      have horder : CallOrder (p.task.calls ++ [.startTranscription rate (.error error)]) := by
        rw [hcalls]
        exact .refused rate error
      exact Or.inr (h.fail rfl rfl horder List.nil_prefix)
  | ok opened =>
      refine Or.inl
        ⟨by simp [settle, Task.called, h.committed], h.committed,
        Or.inr ⟨rfl, rate, [], ?_, by simp⟩, ?_, ?_⟩
      · simp [settle, Task.called, hcalls, pushCalls]
      · have hpayloads := h.payloads
        rw [hcalls] at hpayloads
        rw [audiosOf, List.filterMap_append, ← audiosOf, ← hpayloads]
        simp only [settle, Task.called, hcalls]
        rfl
      · rw [h.items, hcalls]
        simp [settle, Task.called, hcalls, delivered, updatesOf, VoiceCall.updates]

theorem Open.onAudio (h : p.Open incoming) (hsession : p.task.session.isSome = true)
    (backend : VoiceBackend) {bytes : List UInt8} (hbytes : Payload bytes) :
    After (incoming ++ [.message (some (.audio bytes))]) p.items
      (onAudio backend p.task bytes) := by
  obtain ⟨hopen, rate, pushes, hcalls, hpushes⟩ :=
    h.calls.resolve_left fun hnone => by simp [hnone.1] at hsession
  unfold Server.onAudio
  cases backend.pushPcm16 p.task.calls bytes with
  | error error =>
      have horder : CallOrder (p.task.calls ++ [.pushPcm16 bytes (.error error)]) := by
        rw [hcalls]
        exact .opened rate hpushes (.pushFailed hbytes error)
      exact Or.inr (h.fail rfl rfl horder (List.prefix_refl _))
  | ok updates =>
      refine Or.inl ⟨by simp [settle, Task.called, h.committed], h.committed,
        Or.inr ⟨hopen, rate, pushes ++ [(bytes, updates)], ?_, ?_⟩, ?_, ?_⟩
      · simp [settle, Task.called, hcalls, pushCalls]
      · intro push hpush
        rcases List.mem_append.mp hpush with hpush | hpush
        · exact hpushes push hpush
        · rw [List.mem_singleton.mp hpush]
          exact hbytes
      · have hpayloads := h.payloads
        rw [audiosOf, List.filterMap_append, ← audiosOf, ← hpayloads]
        exact List.filterMap_append
      · rw [h.items]
        simp only [settle, Task.called, delivered_append]
        simp [delivered, updatesOf, VoiceCall.updates]

theorem Open.onCommit (h : p.Open incoming) (hsession : p.task.session.isSome = true)
    (backend : VoiceBackend) :
    After (incoming ++ [.message (some (.commit true))]) p.items (onCommit backend p.task) := by
  obtain ⟨hopen, rate, pushes, hcalls, hpushes⟩ :=
    h.calls.resolve_left fun hnone => by simp [hnone.1] at hsession
  have horder (reply : Except VoiceBackendError Transcript) :
      CallOrder (p.task.calls ++ [.finish reply]) := by
    rw [hcalls]
    exact .opened rate hpushes (.finish reply)
  unfold Server.onCommit
  cases backend.finish p.task.calls with
  | error error =>
      exact Or.inr (h.fail rfl rfl (horder _) List.nil_prefix)
  | ok update =>
      refine Or.inr ⟨rfl, horder _, ?_, _, .final update ?_, ?_⟩
      · have hpayloads := h.payloads
        rw [audiosOf, List.filterMap_append, ← audiosOf, ← hpayloads]
        simp only [Task.called, payloadsOf, List.filterMap_append]
        exact List.prefix_refl _
      · simp [Task.called]
      · rw [h.items]
        simp [Task.called, delivered, updatesOf, VoiceCall.updates]

theorem Open.onMessage (h : p.Open incoming) (backend : VoiceBackend) (event : Option StreamEvent) :
    After (incoming ++ [.message event]) p.items (onMessage backend p.task event) := by
  have hrefuse (message : Incoming) :
      After (incoming ++ [message]) p.items (settle p.task [] (.error .invalidInput)) :=
    Or.inr (h.refuse [message] (mapBackendError .invalidInput))
  match event with
  | some (.config rate) =>
      unfold Server.onMessage
      simp only
      split
      · next hguard => exact h.onConfig hguard.1 backend rate
      · exact hrefuse _
  | some (.audio bytes) =>
      unfold Server.onMessage
      simp only
      split
      · next hguard => exact h.onAudio hguard.1 backend hguard.2.2
      · exact hrefuse _
  | some (.commit true) =>
      unfold Server.onMessage
      simp only
      split
      · next hguard => exact h.onCommit hguard.1 backend
      · exact hrefuse _
  | some (.cancel true) =>
      refine Or.inr
        ⟨rfl, h.order, ?_, [], .cancelled (by simp) (fun _ hcall => (h.call_ok hcall).2 _ rfl)
        fun _ hcall => (h.call_ok hcall).1, ?_⟩
      · have hpayloads := h.payloads
        rw [audiosOf, List.filterMap_append, ← audiosOf, ← hpayloads]
        exact List.prefix_append _ _
      · rw [h.items]
        rfl
  | some (.commit false) | some (.cancel false) | none => exact hrefuse _

theorem Open.next (h : p.Open incoming) (backend : VoiceBackend) (selected : Selected) :
    (p.next backend selected).Open (incoming ++ selected.incoming.toList) ∨
      (p.next backend selected).Closed (incoming ++ selected.incoming.toList) := by
  rw [next_running h.running]
  match selected with
  | .stopped stop => exact Or.inr (h.refuse [] stop.status)
  | .input .failed => exact Or.inr (h.refuse [.failed] _)
  | .input .ended =>
      rw [onSelected, if_neg (by simp [h.committed])]
      exact Or.inr (h.refuse [.ended] _)
  | .input (.message event) => exact h.onMessage backend event

end Production

theorem produce_open_or_closed (backend : VoiceBackend) (taken : List Selected) :
    (produce backend taken).Open (consumed taken) ∨
    (produce backend taken).Closed (consumed taken) := by
  induction taken using List.reverseRec with
  | nil => exact Or.inl ⟨rfl, rfl, Or.inl ⟨rfl, rfl⟩, rfl, rfl⟩
  | append_singleton taken selected ih =>
      rw [produce_snoc, consumed_snoc]
      rcases ih with hopen | hclosed
      · exact hopen.next backend selected
      · rw [Production.next_of_stopped hclosed.running]
        exact Or.inr (hclosed.mono _)

theorem consumed_prefix {labels : List Label} (h : StreamCall.Reaches backend labels s) :
    consumed s.taken <+: arrivals labels := ⟨s.inbox, consumed_append_inbox h⟩

/-- A task and a draining client are stuck only at the end of the stream, or
while the client's next message is awaited. -/
theorem finished_or_waiting_of_quiet (hreading : s.output.reading = true) (h : s.Quiet backend) :
    s.Finished ∨ s.Waiting := by
  obtain ⟨hselect, hsend, hreceive⟩ := h
  have hqueue := Pipe.receive_eq_none (Option.map_eq_none_iff.mp hreceive) hreading
  have hpending : s.output.pending = [] := by
    rcases Pipe.send_eq_none (Option.map_eq_none_iff.mp hsend) with hpending | ⟨_, hfull⟩
    · exact hpending
    · rw [hqueue] at hfull
      exact absurd hfull (by decide)
  cases hrunning : s.running with
  | false => exact Or.inl ⟨hpending, hrunning, hqueue⟩
  | true =>
      right
      rw [StreamCall.step, StreamCall.select, if_pos ⟨hpending, hrunning⟩] at hselect
      split at hselect
      · cases hselect
      · cases hselect
      · next hstop hinbox => exact ⟨hpending, hrunning, hqueue, hinbox, hstop⟩

/-- Legal calls on payloads in the order of their arrival, and for the client
every update once and in order, then one outcome. A client that leaves has a
prefix of that; one that drains the queue never waits in vain. -/
structure Delivers (backend : VoiceBackend) (incoming : List Incoming) (s : StreamCall) : Prop where
  order : CallOrder s.task.calls
  payloads : payloadsOf s.task.calls <+: audiosOf incoming
  room : s.output.queue.length ≤ outputQueue
  received_prefix : ∃ outcome, (outcome = [] ∨ Outcome s.task.calls incoming outcome) ∧
    s.output.received <+: delivered s.task.calls ++ outcome
  finished : s.output.reading = true → s.Finished →
    ∃ outcome, Outcome s.task.calls incoming outcome ∧
    s.output.received = delivered s.task.calls ++ outcome
  waiting : s.output.reading = true → s.Waiting → s.output.received = delivered s.task.calls
  progress : s.output.reading = true → s.Quiet backend → s.Finished ∨ s.Waiting

/-- However the task and its client interleave. -/
theorem stream_delivers_every_transcript_once (backend : VoiceBackend) (labels : List Label)
    (s : StreamCall) (h : StreamCall.Reaches backend labels s) :
    Delivers backend (arrivals labels) s := by
  have href := refines_of_reaches h
  obtain ⟨rest, hrest⟩ := consumed_prefix h
  rcases produce_open_or_closed backend s.taken with hopen | hclosed
  · have hcarries := href.carries
    rw [hopen.items, ← href.task] at hcarries
    refine ⟨href.task ▸
      hopen.order, ?_, href.room, ⟨[], Or.inl rfl, by simpa using hcarries.received_prefix⟩,
      fun hreading hfinished => ?_, fun hreading hwaiting => ?_, finished_or_waiting_of_quiet⟩
    · rw [href.task, hopen.payloads, ← hrest, audiosOf, audiosOf, List.filterMap_append]
      exact List.prefix_append _ _
    · exact absurd (href.stopped hreading hfinished.2.1) (by simp [hopen.running])
    · have hall := hcarries.of_reading hreading
      rwa [hwaiting.1, hwaiting.2.2.1, List.append_nil, List.append_nil] at hall
  · have hlater := hclosed.mono rest
    rw [hrest] at hlater
    obtain ⟨outcome, houtcome, hitems⟩ := hlater.items
    have hcarries := href.carries
    rw [hitems, ← href.task] at hcarries
    rw [← href.task] at houtcome
    refine ⟨href.task ▸ hlater.order, href.task ▸ hlater.payloads, href.room,
      ⟨outcome, Or.inr houtcome, hcarries.received_prefix⟩, fun hreading hfinished =>
        ⟨outcome, houtcome, ?_⟩,
      fun _ hwaiting => ?_, finished_or_waiting_of_quiet⟩
    · have hall := hcarries.of_reading hreading
      rwa [hfinished.1, hfinished.2.2, List.append_nil, List.append_nil] at hall
    · exact absurd (href.running hwaiting.2.1) (by simp [hclosed.running])

def oneCommand : List Label :=
  [.arrive (.message (some (.config 16000))), .select, .arrive (.message (some (.audio [0, 0]))),
    .select, .send,
    .arrive (.message (some (.commit true))), .select, .receive, .send, .receive]

def oneCommandServed : StreamCall :=
  (run (StreamCall.step fakeBackend) .start oneCommand).getD .start

theorem one_command_is_served :
    (oneCommandServed.output.received = [.ok ⟨"partial-2", false⟩, .ok ⟨"final-2", true⟩]) ∧
      Delivers fakeBackend (arrivals oneCommand) oneCommandServed :=
  ⟨rfl,
    stream_delivers_every_transcript_once fakeBackend oneCommand oneCommandServed
    (runs_iff_run.mpr rfl)⟩

end ImpossibleVoice.Server

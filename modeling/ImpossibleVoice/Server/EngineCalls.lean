import ImpossibleVoice.Server.Capacity
import ImpossibleVoice.Stt.Rules
import ImpossibleVoice.Tts.Rules
import Mathlib.Logic.Relation

namespace ImpossibleVoice.Server.Capacity

open Lib Relation

def ofStt : Stt.SttError → Failure
  | .invalidInput => .invalidInput
  | .busy => .busy
  | .cancelled => .cancelled
  | .deadlineExceeded => .deadlineExceeded
  | .audio => .audio
  | .engine => .engine

def ofTts : Tts.TtsError → Failure
  | .invalidInput => .invalidInput
  | .busy => .busy
  | .cancelled => .cancelled
  | .deadlineExceeded => .deadlineExceeded
  | .output => .output
  | .engine => .engine

def Blames (reports : Failure → Bool) (points : List Point) (failure : Failure) : Prop :=
  ∃ point ∈ points, point.fails reports failure = true

/-- How an operation that finds `n` permits out may fail: before it has its own,
for want of one, or after that. -/
def Refused (reports : Failure → Bool) (op : Operation) (maximum n : Nat) (failure : Failure) :
    Prop :=
  Blames reports op.entry failure ∨ (failure = .busy ∧ maximum ≤ n) ∨
    (n < maximum ∧ Blames reports op.body failure)

section

variable {E : Type} [DecidableEq E] {engines : Engines E} {e : E} {active : Active E}
  {op : Operation}
  {phase : Phase} {points rest : List Point} {answer : Option Failure} {failure : Failure}

/-- One caller's own steps, while the others rest. -/
def Goes (engines : Engines E) : Active E × Caller E → Active E × Caller E → Prop :=
  ReflTransGen fun s t => ∃ event, advance engines event s.1 s.2 = some (t.1, t.2, [])

theorem goes_step {s t : Active E × Caller E} (event : Event E)
    (h : advance engines event s.1 s.2 = some (t.1, t.2, [])) : Goes engines s t :=
  ReflTransGen.single ⟨event, h⟩

theorem goes_passes (points : List Point) :
    Goes engines (active, .running e phase (points ++ rest)) (active, .running e phase rest) := by
  induction points with
  | nil => exact .refl
  | cons point points ih => exact ih.head ⟨.pass, rfl⟩

theorem goes_passed :
    Goes engines (active, .running e phase points) (active, .running e phase []) := by
  have hpasses :
      Goes engines (active, .running e phase (points ++ [])) (active, .running e phase []) :=
    goes_passes points
  rwa [List.append_nil] at hpasses

theorem goes_fails (h : Blames (engines.reports e) points failure) :
    Goes engines (active, .running e phase points) (active, phase.failed e failure) := by
  obtain ⟨point, hmem, hfails⟩ := h
  obtain ⟨front, back, rfl⟩ := List.append_of_mem hmem
  apply (goes_passes front).tail
  exact ⟨.fail failure, if_pos hfails⟩

theorem goes_called (hkind : op.kind = engines.kind e) :
    Goes engines (active, .arrived) (active, .running e (.entering op) op.entry) :=
  goes_step (.call e op) (if_pos hkind)

theorem goes_acquired (hkind : op.kind = engines.kind e) (hfree : active e < engines.maximum e) :
    Goes engines (active, .arrived)
      (Function.update active e (active e + 1), .running e (.working op) op.body) := by
  apply ((goes_called hkind).trans goes_passed).tail
  refine ⟨.pass, ?_⟩
  simp only [advance, acquire, if_pos hfree, Phase.returned]

theorem release_acquired : release e (Function.update active e (active e + 1)) = active := by
  simp [release]

/-- A call that opens no session gives its permit back. -/
theorem goes_answered (hkind : op.kind = engines.kind e) (hop : op ≠ .startStream)
    (hfree : active e < engines.maximum e) :
    Goes engines (active, .arrived) (active, .ended e none) := by
  have hreturned : Goes engines (active, .arrived)
      (Function.update active e (active e + 1), .leaving e none) := by
    apply ((goes_acquired hkind hfree).trans goes_passed).tail
    refine ⟨.pass, ?_⟩
    cases op with
    | transcribe | synthesize => rfl
    | startStream => exact absurd rfl hop
  apply hreturned.tail
  exact ⟨.release, by simp only [advance, release_acquired]⟩

theorem goes_opened (hkind : Operation.startStream.kind = engines.kind e)
    (hfree : active e < engines.maximum e) :
    Goes engines (active, .arrived) (Function.update active e (active e + 1), .session e none) :=
  ((goes_acquired hkind hfree).trans goes_passed).tail ⟨.pass, rfl⟩

theorem goes_refused (hkind : op.kind = engines.kind e)
    (h : Refused (engines.reports e) op (engines.maximum e) (active e) failure) :
    Goes engines (active, .arrived) (active, .ended e (some failure)) := by
  obtain hentry | ⟨rfl, hfull⟩ | ⟨hfree, hbody⟩ := h
  · exact (goes_called hkind).trans (goes_fails hentry)
  · apply ((goes_called hkind).trans goes_passed).tail
    refine ⟨.pass, ?_⟩
    simp only [advance, acquire, if_neg (Nat.not_lt.mpr hfull)]
  · apply ((goes_acquired hkind hfree).trans (goes_fails hbody)).tail
    exact ⟨.release, by simp only [advance, Phase.failed, release_acquired]⟩

theorem goes_pushed (answer : Option Failure) :
    Goes engines (active, .session e answer) (active, .session e none) :=
  ((goes_step (.push none) rfl).trans goes_passed).tail ⟨.pass, rfl⟩

theorem goes_push_fails (h : Blames (engines.reports e) (pushPoints (some [true])) failure) :
    Goes engines (active, .session e answer) (active, .session e (some failure)) := by
  have hcalled : Goes engines (active, .session e answer)
      (active, .running e .pushing (pushPoints (some [true]))) :=
        goes_step (.push (some [true])) rfl
  exact hcalled.trans (goes_fails h)

theorem goes_finished (answer : Option Failure) :
    Goes engines (active, .session e answer) (release e active, .ended e none) := by
  have hreturned : Goes engines (active, .session e answer) (active, .leaving e none) :=
    ((goes_step (.finish true true) rfl).trans goes_passed).tail ⟨.pass, rfl⟩
  exact hreturned.tail ⟨.release, rfl⟩

theorem goes_finish_fails (h : Blames (engines.reports e) (finishPoints true true) failure) :
    Goes engines (active, .session e answer) (release e active, .ended e (some failure)) := by
  have hcalled : Goes engines (active, .session e answer)
      (active, .running e .finishing (finishPoints true true)) := goes_step (.finish true true) rfl
  exact (hcalled.trans (goes_fails h)).tail ⟨.release, rfl⟩

theorem release_apply (h : active e ≠ 0) : release e active e = active e - 1 := by
  rw [release, Function.update_self, if_neg h]

end

section

open Stt Audio

variable {reports : Failure → Bool} {points : List Point} {context : RequestContext}

def Reported (reports : Failure → Bool) (backend : Stt.Backend) : Prop :=
  ∀ history call e, backend history call = .error e → reports (ofStt e) = true

theorem check_triple (counted : Nat → Prop) (h : .check ∈ points) :
    Triple (fun w => counted w.active) (ensureActive context) (fun _ w => counted w.active)
      fun e w => counted w.active ∧ Blames reports points (ofStt e) := by
  refine Triple.bind (Triple.gets (Q := fun _ w => counted w.active) fun _ hw => hw) fun time => ?_
  refine Triple.bind (Triple.modify (Q := fun _ w => counted w.active) fun _ hw => hw) fun _ => ?_
  refine Triple.bind (Triple.failIf fun w hw _ => ⟨hw, _, h, rfl⟩) fun _ =>
    Triple.of_fact fun _ => ?_
  exact (Triple.failIf fun w hw _ => ⟨hw, _, h, rfl⟩).conseq (fun _ hw => hw)
    (fun _ _ hw => hw.1) fun _ _ hw => hw

/-- Nothing but the limiter touches the counter, and errors come of the points. -/
theorem sttSteps {backend : Stt.Backend} (hreports : Reported reports backend) (points : List Point)
    (counted : Nat → Prop) (hbackend : .backend ∈ points) (haudio : .audio ∈ points) :
    Stt.Steps backend (fun w => counted w.active)
      (fun e w => counted w.active ∧ Blames reports points (ofStt e)) where
  call call := by
    refine Triple.bind (Triple.gets (Q := fun _ w => counted w.active) fun _ hw => hw)
      fun history => ?_
    refine Triple.bind (Triple.modify (Q := fun _ w => counted w.active) fun _ hw => hw) fun _ => ?_
    cases hreply : backend history call with
    | ok text => exact Triple.pure fun _ hw => hw
    | error e => exact fun w hw => ⟨hw, _, hbackend, hreports _ _ _ hreply⟩
  audio _ hw := ⟨hw, _, haudio, rfl⟩

theorem sttRules {backend : Stt.Backend} (hreports : Reported reports backend)
    (context : RequestContext) (points : List Point) (counted : Nat → Prop)
    (hcheck : .check ∈ points) (hbackend : .backend ∈ points) (haudio : .audio ∈ points) :
    Stt.Rules backend context (fun w => counted w.active) (fun _ => True)
      (fun e w => counted w.active ∧ Blames reports points (ofStt e)) where
  toSteps := sttSteps hreports points counted hbackend haudio
  check := by
    apply (check_triple counted hcheck).conseq
    · exact fun _ hw => hw
    · exact fun _ _ hw => ⟨hw, trivial⟩
    · exact fun _ _ hw => hw

theorem entry_triple (context : RequestContext) (op : Operation) (h : .check ∈ op.entry)
    (maximum n : Nat) :
    Triple (fun w => w.active = n) (ensureActive context) (fun _ w => w.active = n)
      fun e w => w.active = n ∧ Refused reports op maximum n (ofStt e) := by
  apply (check_triple (· = n) h).conseq
  · exact fun _ hw => hw
  · exact fun _ _ hw => hw
  · exact fun _ _ hw => ⟨hw.1, .inl hw.2⟩

theorem acquire_triple (op : Operation) (maximum n : Nat) :
    Triple (fun w => w.active = n) (Stt.acquire maximum) (fun _ w => w.active = n + 1 ∧ n < maximum)
      fun e w => w.active = n ∧ Refused reports op maximum n (ofStt e) := by
  rintro w rfl
  by_cases hfull : maximum ≤ w.active
  · rw [Stt.acquire, run_bind_of_ok (run_gets _ _), run_bind_of_error (run_failIf_pos hfull _ _)]
    exact ⟨rfl, .inr (.inl ⟨rfl, hfull⟩)⟩
  · rw [run_acquire_ok (Nat.not_le.mp hfull)]
    exact ⟨rfl, Nat.not_le.mp hfull⟩

variable {E : Type} [DecidableEq E] {engines : Engines E} {e : E} {active : Active E}
  {engine : SttEngine}

/-- The engine `e` of the model is this one. -/
structure Transcribes (engines : Engines E) (e : E) (engine : SttEngine) : Prop where
  kind : engines.kind e = .stt
  maximum : engines.maximum e = engine.limits.maxConcurrent
  reported : Reported (engines.reports e) engine.backend

/-- A transcription is a run of one caller, with its counter and its answer. -/
theorem transcribe_goes (h : Transcribes engines e engine) (audio : MonoPcm) :
    Triple (fun w => w.active = active e) (engine.transcribe audio context)
      (fun _ w => w.active = active e ∧ Goes engines (active, .arrived) (active, .ended e none))
      fun error w => w.active = active e ∧
        Goes engines (active, .arrived) (active, .ended e (some (ofStt error))) := by
  have hkind : Operation.transcribe.kind = engines.kind e := h.kind.symm
  have hmain := Rules.transcribe (Q := fun w => w.active = active e ∧ active e < engines.maximum e)
    engine audio (entry_triple context .transcribe (by decide) _ _)
    (acquire_triple .transcribe _ (active e))
    (sttRules h.reported context Operation.transcribe.body
      (fun k => k = active e + 1 ∧ active e < engine.limits.maxConcurrent) (by decide)
        (by decide) (by decide))
    (fun w hw _ => ⟨congrArg (· - 1) hw.1, h.maximum ▸ hw.2⟩)
    (fun error w hw => ⟨congrArg (· - 1) hw.1.1, .inr (.inr ⟨hw.1.2, hw.2⟩)⟩)
  apply hmain.conseq
  · exact fun _ hw => hw
  · exact fun _ w hw => ⟨hw.1, goes_answered hkind (by decide) hw.2⟩
  · exact fun error w hw => ⟨hw.1, goes_refused hkind (h.maximum ▸ hw.2)⟩

theorem startStream_goes (h : Transcribes engines e engine) (sourceSampleRate : Nat) :
    Triple (fun w => w.active = active e) (engine.startStream sourceSampleRate context)
      (fun s w => w.active = active e + 1 ∧ s.world.active = active e + 1 ∧
        Goes engines (active, .arrived) (Function.update active e (active e + 1), .session e none))
      fun error w => w.active = active e ∧
        Goes engines (active, .arrived) (active, .ended e (some (ofStt error))) := by
  have hkind : Operation.startStream.kind = engines.kind e := h.kind.symm
  have hmain := Steps.startStream engine sourceSampleRate
    (entry_triple context .startStream (by decide) _ _) (acquire_triple .startStream _ (active e))
    (sttSteps h.reported Operation.startStream.body
      (fun k => k = active e + 1 ∧ active e < engine.limits.maxConcurrent) (by decide) (by decide))
    (fun error w hw => ⟨congrArg (· - 1) hw.1.1, .inr (.inr ⟨hw.1.2, hw.2⟩)⟩)
  apply hmain.conseq
  · exact fun _ hw => hw
  · exact fun s w hw => ⟨hw.1.1, hw.2.1, goes_opened hkind (h.maximum ▸ hw.1.2)⟩
  · exact fun error w hw => ⟨hw.1, goes_refused hkind (h.maximum ▸ hw.2)⟩

theorem pushPcm16_goes (h : Transcribes engines e engine) (bytes : List UInt8)
    (answer : Option Failure) :
    Triple (fun s => s.world.active = active e) (StreamingSession.pushPcm16 engine context bytes)
      (fun _ s => s.world.active = active e ∧
        Goes engines (active, .session e answer) (active, .session e none))
      fun error s => s.world.active = active e ∧
        Goes engines (active, .session e answer) (active, .session e (some (ofStt error))) := by
  have rules := sttRules h.reported context (pushPoints (some [true])) (· = active e) (by decide)
    (by decide) (by decide)
  apply (rules.pushPcm16 (fun _ hw => ⟨hw, .input, by decide, rfl⟩) bytes).conseq
  · exact fun _ hs => hs
  · exact fun _ s hs => ⟨hs.1, goes_pushed answer⟩
  · exact fun error s hs => ⟨hs.1, goes_push_fails hs.2⟩

/-- The end of a session gives its permit back, whatever it answers. -/
theorem finish_goes (h : Transcribes engines e engine) (hcounted : active e ≠ 0)
    (answer : Option Failure) :
    Triple (fun s => s.world.active = active e) (StreamingSession.finish engine context)
      (fun _ s => s.world.active = release e active e ∧
      Goes engines (active, .session e answer) (release e active, .ended e none)) fun error s =>
      s.world.active = release e active e ∧
    Goes engines (active, .session e answer) (release e active, .ended e (some (ofStt error))) := by
  have rules := sttRules h.reported context (finishPoints true true) (· = active e) (by decide)
    (by decide) (by decide)
  have hreleased {k : Nat} (hk : k = active e) : k - 1 = release e active e := by
    rw [release_apply hcounted, hk]
  have hmain : InSession (fun w => w.active = active e) (StreamingSession.finish engine context)
      (fun w => w.active = release e active e) fun error w => w.active = release e active e ∧
        Blames (engines.reports e) (finishPoints true true) (ofStt error) := by
    apply rules.finish
    · exact fun _ hw => ⟨hw, .input, by decide, rfl⟩
    · exact fun _ hw _ => hreleased hw
    · exact fun _ _ hw => ⟨hreleased hw.1, hw.2⟩
  apply hmain.conseq
  · exact fun _ hs => hs
  · exact fun _ s hs => ⟨hs, goes_finished answer⟩
  · exact fun error s hs => ⟨hs.1, goes_finish_fails hs.2⟩

end

section

open Stt (RequestContext)
open Tts Audio

variable {reports : Failure → Bool} {context : RequestContext} {E : Type} [DecidableEq E]
  {engines : Engines E} {e : E} {active : Active E} {engine : TtsEngine}

structure Synthesizes (engines : Engines E) (e : E) (engine : TtsEngine) : Prop where
  kind : engines.kind e = .tts
  maximum : engines.maximum e = engine.limits.maxConcurrent
  reported : ∀ history call error, engine.backend history call = .error error →
    engines.reports e (ofTts error) = true

theorem ttsCheck_triple (points : List Point) (counted : Nat → Prop) (h : .check ∈ points) :
    Triple (fun w => counted w.active) (Tts.ensureActive context) (fun _ w => counted w.active)
      fun e w => counted w.active ∧ Blames reports points (ofTts e) := by
  refine Triple.bind (Triple.gets (Q := fun _ w => counted w.active) fun _ hw => hw) fun time => ?_
  refine Triple.bind (Triple.modify (Q := fun _ w => counted w.active) fun _ hw => hw) fun _ => ?_
  refine Triple.bind (Triple.failIf fun w hw _ => ⟨hw, _, h, rfl⟩) fun _ =>
    Triple.of_fact fun _ => ?_
  exact (Triple.failIf fun w hw _ => ⟨hw, _, h, rfl⟩).conseq (fun _ hw => hw)
    (fun _ _ hw => hw.1) fun _ _ hw => hw

omit [DecidableEq E] in
theorem ttsRules (h : Synthesizes engines e engine) (points : List Point) (counted : Nat → Prop)
    (hcheck : .check ∈ points) (hbackend : .backend ∈ points) (houtput : .output ∈ points) :
    Tts.Rules engine.backend context (fun w => counted w.active) (fun _ => True)
      (fun error w => counted w.active ∧ Blames (engines.reports e) points (ofTts error)) where
  check := by
    apply (ttsCheck_triple points counted hcheck).conseq
    · exact fun _ hw => hw
    · exact fun _ _ hw => ⟨hw, trivial⟩
    · exact fun _ _ hw => hw
  call call := by
    intro w hw
    rw [run_generate]
    cases hreply : engine.backend w.history call with
    | ok generated => exact hw
    | error error => exact ⟨hw, _, hbackend, h.reported _ _ _ hreply⟩
  output _ hw := ⟨hw, _, houtput, rfl⟩

theorem ttsAcquire_triple (op : Operation) (maximum n : Nat) :
    Triple (fun w => w.active = n) (Tts.acquire maximum) (fun _ w => w.active = n + 1 ∧ n < maximum)
      fun e w => w.active = n ∧ Refused reports op maximum n (ofTts e) := by
  rintro w rfl
  rw [run_acquire]
  by_cases hfull : maximum ≤ w.active
  · rw [if_pos hfull]
    exact ⟨rfl, .inr (.inl ⟨rfl, hfull⟩)⟩
  · rw [if_neg hfull]
    exact ⟨rfl, Nat.not_le.mp hfull⟩

theorem synthesize_goes (h : Synthesizes engines e engine) (text : String) (speed : F32) :
    Triple (fun w => w.active = active e) (engine.synthesize text speed context)
      (fun _ w => w.active = active e ∧ Goes engines (active, .arrived) (active, .ended e none))
      fun error w => w.active = active e ∧
        Goes engines (active, .arrived) (active, .ended e (some (ofTts error))) := by
  have hkind : Operation.synthesize.kind = engines.kind e := h.kind.symm
  have hentry : Triple (fun w => w.active = active e) (Tts.ensureActive context)
      (fun _ w => w.active = active e) fun error w => w.active = active e ∧
        Refused (engines.reports e) .synthesize engine.limits.maxConcurrent (active e)
          (ofTts error) := by
    apply (ttsCheck_triple Operation.synthesize.entry (· = active e) (by decide)).conseq
    · exact fun _ hw => hw
    · exact fun _ _ hw => hw
    · exact fun _ _ hw => ⟨hw.1, .inl hw.2⟩
  have hmain := Rules.synthesize (Q := fun w => w.active = active e ∧ active e < engines.maximum e)
    engine text speed (fun _ hw => ⟨hw, .inl ⟨.input, by decide, rfl⟩⟩) hentry
    (ttsAcquire_triple .synthesize _ (active e))
    (ttsRules h Operation.synthesize.body
      (fun k => k = active e + 1 ∧ active e < engine.limits.maxConcurrent) (by decide) (by decide)
      (by decide))
    (fun w hw _ => ⟨congrArg (· - 1) hw.1, h.maximum ▸ hw.2⟩)
    (fun error w hw => ⟨congrArg (· - 1) hw.1.1, .inr (.inr ⟨hw.1.2, hw.2⟩)⟩)
  apply hmain.conseq
  · exact fun _ hw => hw
  · exact fun _ w hw => ⟨hw.1, goes_answered hkind (by decide) hw.2⟩
  · exact fun error w hw => ⟨hw.1, goes_refused hkind (h.maximum ▸ hw.2)⟩

end

end ImpossibleVoice.Server.Capacity

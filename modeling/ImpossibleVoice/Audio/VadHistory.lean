import ImpossibleVoice.Audio.Vad

namespace ImpossibleVoice.Audio

open Lib

@[ext] structure Frame where
  voiced : Bool
  length : Nat
deriving DecidableEq

def runLength (voiced : Bool) : List Frame → Nat
  | [] => 0
  | f :: past => if f.voiced = voiced then f.length + runLength voiced past else 0

def totalLength : List Frame → Nat
  | [] => 0
  | f :: past => f.length + totalLength past

abbrev Trace := List (Frame × VadEvent)

namespace Trace

def frames (trace : Trace) : List Frame := trace.map Prod.fst

def current : Trace → Trace
  | [] => []
  | entry :: past => if entry.2 = .ended then [] else entry :: current past

def signals : Trace → List VadEvent
  | [] => []
  | entry :: past => if entry.2 = .none then signals past else entry.2 :: signals past

end Trace

def alternating : Nat → List VadEvent
  | 0 => []
  | n + 1 => (if n % 2 = 0 then .started else .ended) :: alternating n

/-- Either bound that closes an utterance, `later` being the frames after the one
that opened it and `opening` those up to it. -/
def Closes (pause limit : Nat) (later opening : List Frame) : Prop :=
  pause ≤ runLength false (later ++ opening) ∨ limit ≤ totalLength later + runLength true opening

instance (pause limit : Nat) (later opening : List Frame) :
    Decidable (Closes pause limit later opening) :=
  inferInstanceAs (Decidable (_ ∨ _))

/-- The event that the run lengths call for at the frame `f`, after what was
heard `since` the beginning or the last `Ended`. -/
structure RunLengthLaw (onset pause limit : Nat) (since : Trace) (f : Frame) (event : VadEvent) :
    Prop where
  started : event = .started ↔ onset ≤ runLength true (f :: since.frames) ∧
    ∀ earlier : Trace, earlier <:+ since → runLength true earlier.frames < onset
  ended : event = .ended ↔
    ∃ (later : Trace) (g : Frame) (early : Trace), since = later ++ (g, .started) :: early ∧
    Closes pause limit (f :: later.frames) (g :: early.frames) ∧
    ∀ between : Trace, between ≠ [] → between <:+ later →
      ¬ Closes pause limit between.frames (g :: early.frames)

theorem runLength_le (voiced : Bool) (past : List Frame) :
    runLength voiced past ≤ totalLength past := by
  induction past with
  | nil => exact Nat.le_refl 0
  | cons f past ih =>
      rw [runLength, totalLength]
      split <;> omega

theorem totalLength_append (front back : List Frame) :
    totalLength (front ++ back) = totalLength front + totalLength back := by
  induction front with
  | nil => exact (Nat.zero_add _).symm
  | cons f front ih => rw [List.cons_append, totalLength, totalLength, ih, Nat.add_assoc]

theorem Trace.frames_append (front back : Trace) :
    frames (front ++ back) = frames front ++ frames back :=
  List.map_append

theorem Trace.totalLength_current (trace : Trace) :
    totalLength trace.current.frames ≤ totalLength trace.frames := by
  induction trace with
  | nil => exact Nat.le_refl 0
  | cons entry past ih =>
      rw [current]
      split
      · exact Nat.zero_le _
      · exact Nat.add_le_add_left ih _

namespace EnergyVad

def hear (vad : EnergyVad) (f : Frame) : VadEvent × EnergyVad :=
  (vad.count f.voiced f.length).transition f.length

def afterAll (vad : EnergyVad) : List Frame → EnergyVad
  | [] => vad
  | f :: past => ((afterAll vad past).hear f).2

def trace (vad : EnergyVad) : List Frame → Trace
  | [] => []
  | f :: past => (f, ((vad.afterAll past).hear f).1) :: trace vad past

theorem frames_trace (vad : EnergyVad) (past : List Frame) : (vad.trace past).frames = past := by
  induction past with
  | nil => rfl
  | cons f past ih => exact congrArg (f :: ·) ih

def onset (vad : EnergyVad) : Nat := vad.samplesFor vad.config.minSpeechMs

def pause (vad : EnergyVad) : Nat := vad.samplesFor vad.config.trailingSilenceMs

def limit (vad : EnergyVad) : Nat := vad.samplesFor vad.config.maxUtteranceMs

/-- No utterance is open: the voiced run has been counted since the last `Ended`. -/
structure Idle (vad : EnergyVad) (since : Trace) : Prop where
  inactive : vad.active = false
  silence : vad.silenceRun = 0
  speech : vad.speechRun = runLength true since.frames
  quiet : ∀ earlier : Trace, earlier <:+ since → runLength true earlier.frames < vad.onset
  unmarked : ∀ entry ∈ since, entry.2 = .none

structure Speaking (vad : EnergyVad) (later : Trace) (g : Frame) (early : Trace) : Prop where
  active : vad.active = true
  silence : vad.silenceRun = runLength false (later.frames ++ g :: early.frames)
  utterance : vad.utteranceSamples = totalLength later.frames + runLength true (g :: early.frames)
  loud : vad.onset ≤ runLength true (g :: early.frames)
  unclosed : ∀ between : Trace, between ≠ [] → between <:+ later →
    ¬ Closes vad.pause vad.limit between.frames (g :: early.frames)
  unmarked : ∀ entry ∈ later ++ early, entry.2 = .none

/-- What the counters say about the frames heard since the last `Ended`. -/
inductive Follows (vad : EnergyVad) : Trace → Prop
  | idle {since} (h : Idle vad since) : Follows vad since
  | speaking {later g early} (h : Speaking vad later g early) :
      Follows vad (later ++ (g, .started) :: early)

theorem count_active (vad : EnergyVad) (voiced : Bool) (len : Nat) :
    (vad.count voiced len).active = vad.active := by
  rw [count]
  split
  · rfl
  · split <;> rfl

theorem count_utterance (vad : EnergyVad) (voiced : Bool) (len : Nat) :
    (vad.count voiced len).utteranceSamples = vad.utteranceSamples := by
  rw [count]
  split
  · rfl
  · split <;> rfl

theorem count_config (vad : EnergyVad) (voiced : Bool) (len : Nat) :
    (vad.count voiced len).config = vad.config ∧
    (vad.count voiced len).sampleRate = vad.sampleRate := by
  rw [count]
  split
  · exact ⟨rfl, rfl⟩
  · split <;> exact ⟨rfl, rfl⟩

theorem hear_config (vad : EnergyVad) (f : Frame) :
    (vad.hear f).2.config = vad.config ∧ (vad.hear f).2.sampleRate = vad.sampleRate := by
  have hcount := vad.count_config f.voiced f.length
  rw [hear, transition]
  split
  · dsimp only
    split <;> exact hcount
  · split <;> exact hcount

theorem hear_bounds (vad : EnergyVad) (f : Frame) : (vad.hear f).2.onset = vad.onset ∧
    (vad.hear f).2.pause = vad.pause ∧ (vad.hear f).2.limit = vad.limit := by
  obtain ⟨hconfig, hrate⟩ := vad.hear_config f
  simp only [onset, pause, limit, samplesFor, hconfig, hrate, and_self]

theorem count_speech {vad : EnergyVad} {f : Frame} {past : List Frame}
    (hspeech : vad.speechRun = runLength true past) (hbound : totalLength (f :: past) < 2 ^ 64) :
    (vad.count f.voiced f.length).speechRun = runLength true (f :: past) := by
  have hrun := runLength_le true past
  rw [totalLength] at hbound
  obtain ⟨voiced, len⟩ := f
  cases voiced with
  | false =>
      rw [count, if_neg Bool.false_ne_true]
      split <;> rfl
  | true =>
      have hadd : saturatingAdd 64 vad.speechRun len = vad.speechRun + len :=
        Nat.min_eq_left (by rw [hspeech]; dsimp only at hbound; omega)
      rw [count, if_pos rfl, runLength, if_pos rfl, ← hspeech, Nat.add_comm]
      exact hadd

theorem count_silence {vad : EnergyVad} {f : Frame} {past : List Frame}
    (hactive : vad.active = true) (hsilence : vad.silenceRun = runLength false past)
    (hbound : totalLength (f :: past) < 2 ^ 64) :
    (vad.count f.voiced f.length).silenceRun = runLength false (f :: past) := by
  have hrun := runLength_le false past
  rw [totalLength] at hbound
  obtain ⟨voiced, len⟩ := f
  cases voiced with
  | true => rfl
  | false =>
      have hadd : saturatingAdd 64 vad.silenceRun len = vad.silenceRun + len :=
        Nat.min_eq_left (by rw [hsilence]; dsimp only at hbound; omega)
      rw [count, if_neg Bool.false_ne_true, if_pos hactive, runLength, if_pos rfl, ← hsilence,
        Nat.add_comm]
      exact hadd

theorem count_silence_idle {vad : EnergyVad} (hactive : vad.active = false)
    (hsilence : vad.silenceRun = 0) (voiced : Bool) (len : Nat) :
    (vad.count voiced len).silenceRun = 0 := by
  cases voiced with
  | true => rfl
  | false =>
      rw [count, if_neg Bool.false_ne_true, if_neg (by rw [hactive]; exact Bool.false_ne_true),
        hsilence]

theorem count_bounds (vad : EnergyVad) (voiced : Bool) (len : Nat) :
    (vad.count voiced len).onset = vad.onset ∧ (vad.count voiced len).pause = vad.pause ∧
    (vad.count voiced len).limit = vad.limit := by
  obtain ⟨hconfig, hrate⟩ := vad.count_config voiced len
  simp only [onset, pause, limit, samplesFor, hconfig, hrate, and_self]

theorem transition_idle {vad : EnergyVad} (hactive : vad.active = false) (len : Nat) :
    vad.transition len = if vad.onset ≤ vad.speechRun then
      (.started, { vad with active := true, utteranceSamples := vad.speechRun })
      else (.none, vad) := by
  rw [transition, if_neg (by rw [hactive]; exact Bool.false_ne_true)]
  rfl

theorem transition_active {vad : EnergyVad} (hactive : vad.active = true) {len : Nat}
    (hbound : vad.utteranceSamples + len < 2 ^ 64) : vad.transition len =
    if vad.pause ≤ vad.silenceRun ∨ vad.limit ≤ vad.utteranceSamples + len then (.ended, vad.reset)
    else (.none, { vad with utteranceSamples := vad.utteranceSamples + len }) := by
  have hadd : saturatingAdd 64 vad.utteranceSamples len = vad.utteranceSamples + len :=
    Nat.min_eq_left (by omega)
  rw [transition, if_pos hactive, hadd]
  rfl

theorem Idle.opens {vad : EnergyVad} {since : Trace} (h : Idle vad since) {f : Frame}
    (hbound : totalLength (f :: since.frames) < 2 ^ 64) (hpos : 0 < vad.onset)
    (hloud : vad.onset ≤ runLength true (f :: since.frames)) :
    (vad.hear f).1 = .started ∧ Speaking (vad.hear f).2 [] f since := by
  have hspeech := count_speech h.speech hbound
  have hhear : vad.hear f = (.started, { vad.count f.voiced f.length with
      active := true, utteranceSamples := (vad.count f.voiced f.length).speechRun }) := by
    rw [EnergyVad.hear, transition_idle ((count_active vad _ _).trans h.inactive),
      (vad.count_bounds _ _).1, if_pos (by rw [hspeech]; exact hloud)]
  have hvoiced : f.voiced = true := by
    by_contra hno
    rw [runLength, if_neg hno] at hloud
    omega
  have hsilent : runLength false (f :: since.frames) = 0 := by
    rw [runLength, hvoiced]
    rfl
  refine ⟨by rw [hhear], by rw [hhear], ?_, ?_, ?_, ?_, h.unmarked⟩
  · rw [hhear]
    exact (count_silence_idle h.inactive h.silence _ _).trans hsilent.symm
  · rw [hhear]
    exact hspeech.trans (Nat.zero_add _).symm
  · rw [(vad.hear_bounds f).1]
    exact hloud
  · intro between hne hsuffix
    exact absurd (List.suffix_nil.mp hsuffix) hne

theorem Idle.stays {vad : EnergyVad} {since : Trace} (h : Idle vad since) {f : Frame}
    (hbound : totalLength (f :: since.frames) < 2 ^ 64)
    (hquiet : runLength true (f :: since.frames) < vad.onset) :
    (vad.hear f).1 = .none ∧ Idle (vad.hear f).2 ((f, .none) :: since) := by
  have hspeech := count_speech h.speech hbound
  have hhear : vad.hear f = (.none, vad.count f.voiced f.length) := by
    rw [EnergyVad.hear, transition_idle ((count_active vad _ _).trans h.inactive),
      (vad.count_bounds _ _).1, hspeech, if_neg (Nat.not_le.mpr hquiet)]
  refine ⟨by rw [hhear], ?_, ?_, ?_, ?_, ?_⟩
  · rw [hhear]
    exact (count_active vad _ _).trans h.inactive
  · rw [hhear]
    exact count_silence_idle h.inactive h.silence _ _
  · rw [hhear]
    exact hspeech
  · intro earlier hsuffix
    rw [(vad.hear_bounds f).1]
    obtain rfl | hsuffix := List.suffix_cons_iff.mp hsuffix
    · exact hquiet
    · exact h.quiet earlier hsuffix
  · intro entry hentry
    obtain rfl | hentry := List.mem_cons.mp hentry
    · rfl
    · exact h.unmarked entry hentry

theorem Speaking.hear_eq {vad : EnergyVad} {later early : Trace} {g : Frame}
    (h : Speaking vad later g early)
    {f : Frame} (hbound : totalLength (f :: (later.frames ++ g :: early.frames)) < 2 ^ 64) :
      vad.hear f =
    if Closes vad.pause vad.limit (f :: later.frames) (g :: early.frames) then
      (.ended, (vad.count f.voiced f.length).reset)
    else (.none, { vad.count f.voiced f.length with
      utteranceSamples := (vad.count f.voiced f.length).utteranceSamples + f.length }) := by
  have hutterance := vad.count_utterance f.voiced f.length
  have hopening := runLength_le true (g :: early.frames)
  have htotal : totalLength (f :: (later.frames ++ g :: early.frames)) =
      f.length + (totalLength later.frames + totalLength (g :: early.frames)) :=
    congrArg (f.length + ·) (totalLength_append _ _)
  have hsum : vad.utteranceSamples + f.length =
      totalLength (f :: later.frames) + runLength true (g :: early.frames) := by
    rw [h.utterance, totalLength]
    omega
  have hcloses : (vad.count f.voiced f.length).pause ≤ (vad.count f.voiced f.length).silenceRun ∨
      (vad.count f.voiced f.length).limit ≤
        (vad.count f.voiced f.length).utteranceSamples + f.length ↔
      Closes vad.pause vad.limit (f :: later.frames) (g :: early.frames) := by
    rw [count_silence h.active h.silence hbound, (vad.count_bounds _ _).2.1,
      (vad.count_bounds _ _).2.2, hutterance, hsum]
    rfl
  rw [EnergyVad.hear, transition_active ((count_active vad _ _).trans h.active)
    (by rw [hutterance, h.utterance]; omega)]
  exact if_congr hcloses rfl rfl

theorem Speaking.stays {vad : EnergyVad} {later early : Trace} {g : Frame}
    (h : Speaking vad later g early) {f : Frame}
    (hbound : totalLength (f :: (later.frames ++ g :: early.frames)) < 2 ^ 64)
    (hopen : ¬ Closes vad.pause vad.limit (f :: later.frames) (g :: early.frames)) :
    (vad.hear f).1 = .none ∧ Speaking (vad.hear f).2 ((f, .none) :: later) g early := by
  have hhear := h.hear_eq hbound
  rw [if_neg hopen] at hhear
  refine ⟨by rw [hhear], ?_, ?_, ?_, ?_, ?_, ?_⟩
  · rw [hhear]
    exact (count_active vad _ _).trans h.active
  · rw [hhear]
    exact count_silence h.active h.silence hbound
  · rw [hhear]
    change (vad.count f.voiced f.length).utteranceSamples + f.length =
      f.length + totalLength later.frames + runLength true (g :: early.frames)
    rw [vad.count_utterance, h.utterance]
    omega
  · rw [(vad.hear_bounds f).1]
    exact h.loud
  · intro between hne hsuffix
    rw [(vad.hear_bounds f).2.1, (vad.hear_bounds f).2.2]
    obtain rfl | hsuffix := List.suffix_cons_iff.mp hsuffix
    · exact hopen
    · exact h.unclosed between hne hsuffix
  · intro entry hentry
    obtain rfl | hentry := List.mem_cons.mp hentry
    · rfl
    · exact h.unmarked entry hentry

theorem Idle.law {vad : EnergyVad} {since : Trace} (h : Idle vad since) {f : Frame}
    (hbound : totalLength (f :: since.frames) < 2 ^ 64) (hpos : 0 < vad.onset) :
    RunLengthLaw vad.onset vad.pause vad.limit since f (vad.hear f).1 := by
  have hopened (later : Trace) (g : Frame) (early : Trace) :
      since ≠ later ++ (g, .started) :: early := by
    rintro rfl
    exact absurd (h.unmarked (g, .started) (by simp)) (by simp)
  by_cases hloud : vad.onset ≤ runLength true (f :: since.frames)
  · rw [(h.opens hbound hpos hloud).1]
    exact ⟨⟨fun _ => ⟨hloud, h.quiet⟩, fun _ => rfl⟩,
      ⟨fun hevent => by simp at hevent,
        fun ⟨later, g, early, heq, _⟩ => absurd heq (hopened later g early)⟩⟩
  · rw [(h.stays hbound (Nat.lt_of_not_le hloud)).1]
    exact ⟨⟨fun hevent => by simp at hevent, fun hlaw => absurd hlaw.1 hloud⟩,
      ⟨fun hevent => by simp at hevent,
        fun ⟨later, g, early, heq, _⟩ => absurd heq (hopened later g early)⟩⟩

theorem opening_unique {later later' early early' : Trace} {g g' : Frame}
    (hunmarked : ∀ entry ∈ later ++ early, entry.2 = VadEvent.none)
    (heq : later ++ (g, .started) :: early = later' ++ (g', .started) :: early') :
    later = later' ∧ g = g' ∧ early = early' := by
  induction later generalizing later' with
  | nil =>
      cases later' with
      | nil =>
          obtain ⟨hhead, htail⟩ := List.cons.inj heq
          exact ⟨rfl, congrArg Prod.fst hhead, htail⟩
      | cons entry later' =>
          obtain ⟨-, rfl⟩ := List.cons.inj heq
          exact absurd (hunmarked (g', .started) (by simp)) (by simp)
  | cons entry later ih =>
      cases later' with
      | nil =>
          obtain ⟨rfl, -⟩ := List.cons.inj heq
          exact absurd (hunmarked (g', .started) (by simp)) (by simp)
      | cons entry' later' =>
          obtain ⟨rfl, htail⟩ := List.cons.inj heq
          obtain ⟨rfl, rfl, rfl⟩ := ih (fun e he => hunmarked e (List.mem_cons_of_mem _ he)) htail
          exact ⟨rfl, rfl, rfl⟩

theorem Speaking.law {vad : EnergyVad} {later early : Trace} {g : Frame}
    (h : Speaking vad later g early) {f : Frame}
    (hbound : totalLength (f :: (later.frames ++ g :: early.frames)) < 2 ^ 64) :
    RunLengthLaw vad.onset vad.pause vad.limit (later ++ (g, .started) :: early) f
      (vad.hear f).1 := by
  have hopened : ¬ ∀ earlier : Trace, earlier <:+ later ++ (g, .started) :: early →
      runLength true earlier.frames < vad.onset := fun hquiet =>
    absurd (hquiet ((g, .started) :: early) (List.suffix_append _ _)) (Nat.not_lt.mpr h.loud)
  have hclosing : (∃ (later' : Trace) (g' : Frame) (early' : Trace),
      later ++ (g, .started) :: early = later' ++ (g', .started) :: early' ∧
      Closes vad.pause vad.limit (f :: later'.frames) (g' :: early'.frames) ∧
      ∀ between : Trace, between ≠ [] → between <:+ later' →
        ¬ Closes vad.pause vad.limit between.frames (g' :: early'.frames)) ↔
      Closes vad.pause vad.limit (f :: later.frames) (g :: early.frames) := by
    constructor
    · rintro ⟨later', g', early', heq, hcloses, -⟩
      obtain ⟨rfl, rfl, rfl⟩ := opening_unique h.unmarked heq
      exact hcloses
    · exact fun hcloses => ⟨later, g, early, rfl, hcloses, h.unclosed⟩
  have hhear := h.hear_eq hbound
  by_cases hcloses : Closes vad.pause vad.limit (f :: later.frames) (g :: early.frames)
  · rw [hhear, if_pos hcloses]
    exact ⟨⟨fun hevent => by simp at hevent, fun hlaw => absurd hlaw.2 hopened⟩,
      ⟨fun _ => hclosing.mpr hcloses, fun _ => rfl⟩⟩
  · rw [(h.stays hbound hcloses).1]
    exact ⟨⟨fun hevent => by simp at hevent, fun hlaw => absurd hlaw.2 hopened⟩,
      ⟨fun hevent => by simp at hevent, fun hlaw => absurd (hclosing.mp hlaw) hcloses⟩⟩

structure Fresh (vad : EnergyVad) : Prop where
  inactive : vad.active = false
  speech : vad.speechRun = 0
  silence : vad.silenceRun = 0
  utterance : vad.utteranceSamples = 0
  onset_pos : 0 < vad.onset

theorem Fresh.idle {vad : EnergyVad} (h : Fresh vad) : Idle vad [] := by
  refine ⟨h.inactive, h.silence, h.speech, ?_, fun _ hmem => absurd hmem List.not_mem_nil⟩
  intro earlier hsuffix
  rw [List.suffix_nil.mp hsuffix]
  exact h.onset_pos

theorem afterAll_config (vad : EnergyVad) (past : List Frame) :
    (vad.afterAll past).config = vad.config ∧ (vad.afterAll past).sampleRate = vad.sampleRate := by
  induction past with
  | nil => exact ⟨rfl, rfl⟩
  | cons f past ih =>
      obtain ⟨hconfig, hrate⟩ := (vad.afterAll past).hear_config f
      exact ⟨hconfig.trans ih.1, hrate.trans ih.2⟩

theorem afterAll_bounds (vad : EnergyVad) (past : List Frame) :
    (vad.afterAll past).onset = vad.onset ∧ (vad.afterAll past).pause = vad.pause ∧
    (vad.afterAll past).limit = vad.limit := by
  obtain ⟨hconfig, hrate⟩ := vad.afterAll_config past
  simp only [onset, pause, limit, samplesFor, hconfig, hrate, and_self]

theorem Fresh.reset_eq {vad state : EnergyVad} (hfresh : Fresh vad)
    (hconfig : state.config = vad.config ∧ state.sampleRate = vad.sampleRate) :
    state.reset = vad := by
  ext1
  · exact hconfig.1
  · exact hconfig.2
  · exact hfresh.speech.symm
  · exact hfresh.silence.symm
  · exact hfresh.utterance.symm
  · exact hfresh.inactive.symm

theorem Follows.hear {vad state : EnergyVad} (hfresh : Fresh vad)
    (hconfig : state.config = vad.config ∧ state.sampleRate = vad.sampleRate) {since : Trace}
    (h : Follows state since) {f : Frame} (hbound : totalLength (f :: since.frames) < 2 ^ 64)
    (hpos : 0 < state.onset) :
    RunLengthLaw state.onset state.pause state.limit since f (state.hear f).1 ∧
      ((state.hear f).1 = .ended → (state.hear f).2 = vad) ∧
      ((state.hear f).1 ≠ .ended → Follows (state.hear f).2 ((f, (state.hear f).1) :: since)) := by
  cases h with
  | idle h =>
      refine ⟨h.law hbound hpos, ?_⟩
      by_cases hloud : state.onset ≤ runLength true (f :: since.frames)
      · obtain ⟨hevent, hspeaking⟩ := h.opens hbound hpos hloud
        rw [hevent]
        exact ⟨fun h => by simp at h, fun _ => .speaking hspeaking⟩
      · obtain ⟨hevent, hidle⟩ := h.stays hbound (Nat.lt_of_not_le hloud)
        rw [hevent]
        exact ⟨fun h => by simp at h, fun _ => .idle hidle⟩
  | @speaking later g early h =>
      rw [Trace.frames_append] at hbound
      refine ⟨h.law hbound, ?_⟩
      by_cases hcloses : Closes state.pause state.limit (f :: later.frames) (g :: early.frames)
      · rw [h.hear_eq hbound, if_pos hcloses]
        obtain ⟨hcount, hrate⟩ := state.count_config f.voiced f.length
        exact ⟨fun _ => hfresh.reset_eq ⟨hcount.trans hconfig.1, hrate.trans hconfig.2⟩,
          fun h => absurd rfl h⟩
      · obtain ⟨hevent, hspeaking⟩ := h.stays hbound hcloses
        rw [hevent]
        exact ⟨fun h => by simp at h, fun _ => .speaking hspeaking⟩

/-- The counters follow what was heard since the last `Ended`, along every history. -/
theorem follows_current {vad : EnergyVad} (hfresh : Fresh vad) {past : List Frame}
    (hbound : totalLength past < 2 ^ 64) :
    Follows (vad.afterAll past) (vad.trace past).current := by
  induction past with
  | nil => exact .idle hfresh.idle
  | cons f past ih =>
      have hpast : totalLength past < 2 ^ 64 := Nat.lt_of_le_of_lt (Nat.le_add_left _ _) hbound
      have hsince := (vad.trace past).totalLength_current
      rw [frames_trace] at hsince
      obtain ⟨-, hended, hgoes⟩ := (ih hpast).hear hfresh (vad.afterAll_config past) (f := f)
        (Nat.lt_of_le_of_lt (Nat.add_le_add_left hsince _) hbound)
        (by rw [(vad.afterAll_bounds past).1]; exact hfresh.onset_pos)
      rw [trace, Trace.current]
      by_cases hevent : ((vad.afterAll past).hear f).1 = .ended
      · rw [if_pos hevent, afterAll, hended hevent]
        exact .idle hfresh.idle
      · rw [if_neg hevent]
        exact hgoes hevent

theorem law_of_fresh {vad : EnergyVad} (hfresh : Fresh vad) {past : List Frame} {f : Frame}
    (hbound : totalLength (f :: past) < 2 ^ 64) :
    RunLengthLaw vad.onset vad.pause vad.limit (vad.trace past).current f
      ((vad.afterAll past).hear f).1 ∧
    (((vad.afterAll past).hear f).1 = .ended → vad.afterAll (f :: past) = vad) := by
  have hpast : totalLength past < 2 ^ 64 := Nat.lt_of_le_of_lt (Nat.le_add_left _ _) hbound
  have hsince := (vad.trace past).totalLength_current
  rw [frames_trace] at hsince
  obtain ⟨honset, hpause, hlimit⟩ := vad.afterAll_bounds past
  obtain ⟨hlaw, hended, -⟩ :=
    (follows_current hfresh hpast).hear hfresh (vad.afterAll_config past) (f := f)
    (Nat.lt_of_le_of_lt (Nat.add_le_add_left hsince _) hbound)
      (by rw [honset]; exact hfresh.onset_pos)
  rw [honset, hpause, hlimit] at hlaw
  exact ⟨hlaw, hended⟩

theorem hear_active (vad : EnergyVad) (f : Frame) :
    ((vad.hear f).1 = .none ∧ (vad.hear f).2.active = vad.active) ∨
    ((vad.hear f).1 = .started ∧ vad.active = false ∧ (vad.hear f).2.active = true) ∨
    ((vad.hear f).1 = .ended ∧ vad.active = true ∧ (vad.hear f).2.active = false) := by
  have hcount := vad.count_active f.voiced f.length
  rw [hear, transition]
  by_cases hactive : (vad.count f.voiced f.length).active = true
  · rw [if_pos hactive]
    dsimp only
    split
    · exact .inr (.inr ⟨rfl, hcount.symm.trans hactive, rfl⟩)
    · exact .inl ⟨rfl, hcount⟩
  · rw [if_neg hactive]
    split
    · exact .inr (.inl ⟨rfl, hcount.symm.trans (Bool.eq_false_iff.mpr hactive), rfl⟩)
    · exact .inl ⟨rfl, hcount⟩

theorem signals_alternate {vad : EnergyVad} (hinactive : vad.active = false) (past : List Frame) :
    (vad.trace past).signals = alternating (vad.trace past).signals.length ∧
      (vad.afterAll past).active = decide ((vad.trace past).signals.length % 2 = 1) := by
  induction past with
  | nil => exact ⟨rfl, hinactive⟩
  | cons f past ih =>
      obtain ⟨hsignals, hactive⟩ := ih
      rw [trace, afterAll, Trace.signals]
      obtain ⟨hevent, hflag⟩ | ⟨hevent, hbefore, hflag⟩ | ⟨hevent, hbefore, hflag⟩ :=
        (vad.afterAll past).hear_active f
      · rw [if_pos hevent, hflag]
        exact ⟨hsignals, hactive⟩
      · have hparity : (vad.trace past).signals.length % 2 = 0 := by
          rw [hactive, decide_eq_false_iff_not] at hbefore
          omega
        rw [if_neg (by rw [hevent]; simp), hevent, hflag, List.length_cons, alternating,
          if_pos hparity, ← hsignals]
        exact ⟨rfl, (decide_eq_true (by omega)).symm⟩
      · have hparity : (vad.trace past).signals.length % 2 = 1 := by
          rw [hactive, decide_eq_true_iff] at hbefore
          exact hbefore
        rw [if_neg (by rw [hevent]; simp), hevent, hflag, List.length_cons, alternating,
          if_neg (by omega), ← hsignals]
        exact ⟨rfl, (decide_eq_false (by omega)).symm⟩

/-- A history that brings the detector back to where it began is forgotten. -/
theorem trace_append {vad : EnergyVad} {past : List Frame} (hback : vad.afterAll past = vad)
    (later : List Frame) :
    vad.afterAll (later ++ past) = vad.afterAll later ∧
    vad.trace (later ++ past) = vad.trace later ++ vad.trace past := by
  induction later with
  | nil => exact ⟨hback, rfl⟩
  | cons f later ih =>
      obtain ⟨hafter, htrace⟩ := ih
      rw [List.cons_append, afterAll, trace, hafter, htrace]
      exact ⟨rfl, rfl⟩

theorem samplesFor_pos {vad : EnergyVad} {milliseconds : UInt32}
    (hrate : vad.sampleRate ∈ supportedSampleRates) (hms : milliseconds ≠ 0) :
    0 < vad.samplesFor milliseconds := by
  have hbounds := supported_bounds hrate
  have hpos : 0 < milliseconds.toNat := Nat.pos_of_ne_zero fun h => hms (UInt32.toNat_inj.mp h)
  have hmul : 1000 * 1 ≤ vad.sampleRate * milliseconds.toNat := Nat.mul_le_mul (by omega) hpos
  rw [samplesFor, saturatingMul]
  omega

theorem fresh_of_new {config : VadConfig} {sampleRate : Nat} {vad : EnergyVad}
    (hnew : new config sampleRate = .ok vad) : vad.config = config ∧ Fresh vad := by
  rw [new] at hnew
  cases hvalid : validateRate sampleRate with
  | error e => rw [hvalid] at hnew; exact absurd hnew (by simp [bind, Except.bind])
  | ok u =>
      rw [hvalid] at hnew
      simp only [bind, Except.bind] at hnew
      split at hnew
      · exact absurd hnew (by simp)
      · rename_i hconfig
        obtain rfl := Except.ok.inj hnew
        have hms : config.minSpeechMs ≠ 0 := fun h => hconfig (.inr (.inr (.inl h)))
        exact ⟨rfl, rfl, rfl, rfl, rfl, samplesFor_pos (validateRate_eq_ok hvalid) hms⟩

/-- What `process` accepts. -/
def acceptable (frame : List F32) : Bool :=
  frame ≠ [] ∧ frame.all F32.isFinite ∧ frame.length < 2 ^ 32

def classify (vad : EnergyVad) (frame : List F32) : Frame :=
  ⟨vad.voiced (frame.map F32.value), frame.length⟩

def heard (vad : EnergyVad) (past : List (List F32)) : List Frame :=
  (past.filter acceptable).map vad.classify

/-- The answers of `process` to a history and the detector after it, newest first. -/
def detect (vad : EnergyVad) : List (List F32) → List (Except AudioError VadEvent) × EnergyVad
  | [] => ([], vad)
  | frame :: past =>
    match (process frame).run (detect vad past).2 with
    | .ok event next => (.ok event :: (detect vad past).1, next)
    | .error e next => (.error e :: (detect vad past).1, next)

theorem run_process_acceptable (vad : EnergyVad) {frame : List F32} (h : acceptable frame = true) :
    (process frame).run vad =
      .ok (vad.hear (vad.classify frame)).1 (vad.hear (vad.classify frame)).2 := by
  obtain ⟨hne, hfinite, hlen⟩ := of_decide_eq_true h
  have hvalid : ¬ (frame = [] ∨ frame.any (fun s => !s.isFinite) = true) := by
    rintro (hnil | hany)
    · exact hne hnil
    · obtain ⟨sample, hmem, hbad⟩ := List.any_eq_true.mp hany
      rw [List.all_eq_true.mp hfinite sample hmem] at hbad
      exact absurd hbad (by decide)
  rw [process, run_bind_of_ok (run_failIf_neg hvalid _ _), tryNarrow_of_lt hlen, okOr_some,
    run_bind_of_ok (run_fromExcept_ok _ _), run_bind_of_ok (EStateM.run_get _), classify, hear,
    ← List.length_map (f := F32.value)]
  rfl

theorem run_process_refused (vad : EnergyVad) {frame : List F32} (h : acceptable frame = false) :
    (process frame).run vad = .error ⟨"voice activity frame is invalid"⟩ vad := by
  by_cases hvalid : frame = [] ∨ frame.any (fun s => !s.isFinite) = true
  · rw [process, run_bind_of_error (run_failIf_pos hvalid _ _)]
  · have hlen : ¬ frame.length < 2 ^ 32 := by
      intro hlen
      refine of_decide_eq_false h
        ⟨fun hnil => hvalid (.inl hnil), List.all_eq_true.mpr fun sample hmem => ?_, hlen⟩
      by_contra hbad
      exact hvalid (.inr (List.any_eq_true.mpr ⟨sample, hmem, by simpa using hbad⟩))
    rw [process, run_bind_of_ok (run_failIf_neg hvalid _ _), tryNarrow, if_neg hlen]
    rfl

/-- Along a history `process` hears the frames it accepts and answers the others
with an error. -/
theorem detect_eq (vad : EnergyVad) (past : List (List F32)) :
    (vad.detect past).2 = vad.afterAll (vad.heard past) ∧
      (vad.detect past).1.filterMap Except.toOption = (vad.trace (vad.heard past)).map Prod.snd ∧
      (vad.detect past).1.map Except.isOk = past.map acceptable := by
  induction past with
  | nil => exact ⟨rfl, rfl, rfl⟩
  | cons frame past ih =>
      obtain ⟨hafter, hevents, hoks⟩ := ih
      cases h : acceptable frame with
      | true =>
          have hclassify : (vad.detect past).2.classify frame = vad.classify frame := by
            rw [hafter, classify, classify, voiced, (vad.afterAll_config _).1, voiced]
          have hheard : vad.heard (frame :: past) = vad.classify frame :: vad.heard past := by
            rw [heard, List.filter_cons_of_pos h]
            rfl
          rw [detect, run_process_acceptable _ h, hclassify, hheard, afterAll, trace, ← hafter]
          exact ⟨rfl, congrArg (_ :: ·) hevents, congrArg₂ List.cons h.symm hoks⟩
      | false =>
          have hheard : vad.heard (frame :: past) = vad.heard past := by
            rw [heard, List.filter_cons_of_neg (by rw [h]; exact Bool.false_ne_true)]
            rfl
          rw [detect, run_process_refused _ h, hheard]
          exact ⟨hafter, hevents, congrArg₂ List.cons h.symm hoks⟩

theorem alternating_head (n : Nat) : (alternating n).head? = some .started ↔ n % 2 = 1 := by
  cases n with
  | zero => simp [alternating]
  | succ n =>
      rw [alternating, List.head?_cons, Option.some_inj]
      split <;> simp <;> omega

/-- The detector implements its run-length definition on every history. -/
theorem detector_follows_run_lengths {config : VadConfig} {sampleRate : Nat} {vad : EnergyVad}
    (hnew : new config sampleRate = .ok vad) :
    (∀ past : List (List F32), (vad.detect past).1.map Except.isOk = past.map acceptable ∧
      (vad.detect past).1.filterMap Except.toOption = (vad.trace (vad.heard past)).map Prod.snd ∧
      (vad.detect past).2 = vad.afterAll (vad.heard past)) ∧
    (∀ (past : List Frame) (f : Frame), totalLength (f :: past) < 2 ^ 64 →
      RunLengthLaw (vad.samplesFor config.minSpeechMs) (vad.samplesFor config.trailingSilenceMs)
        (vad.samplesFor config.maxUtteranceMs) (vad.trace past).current f
        ((vad.afterAll past).hear f).1 ∧
      (((vad.afterAll past).hear f).1 = .ended →
        ∀ later : List Frame, vad.afterAll (later ++ f :: past) = vad.afterAll later ∧
          vad.trace (later ++ f :: past) = vad.trace later ++ vad.trace (f :: past))) ∧
    ∀ past : List Frame,
      (vad.trace past).signals = alternating (vad.trace past).signals.length ∧
      ((vad.afterAll past).active = true ↔ (vad.trace past).signals.head? = some .started) := by
  obtain ⟨rfl, hfresh⟩ := fresh_of_new hnew
  refine ⟨fun past => ?_, fun past f hbound => ?_, fun past => ?_⟩
  · obtain ⟨hafter, hevents, hoks⟩ := vad.detect_eq past
    exact ⟨hoks, hevents, hafter⟩
  · obtain ⟨hlaw, hended⟩ := law_of_fresh hfresh hbound
    exact ⟨hlaw, fun hevent => trace_append (hended hevent)⟩
  · obtain ⟨hsignals, hactive⟩ := signals_alternate hfresh.inactive past
    refine ⟨hsignals, ?_⟩
    rw [hactive, decide_eq_true_iff, hsignals, alternating_head, ← hsignals]

/-- At 8 kHz two voiced frames of 80 ms open an utterance, and 600 ms of silence close it. -/
theorem default_detector_runs :
    let vad : EnergyVad := ⟨.default fun _ => true, 8000, 0, 0, 0, false⟩
    let past : List Frame := [⟨true, 640⟩, ⟨true, 640⟩]
    (vad.trace (⟨false, 4800⟩ :: past)).map Prod.snd = [.ended, .started, .none] ∧
      vad.afterAll (past ++ ⟨false, 4800⟩ :: past) = vad.afterAll past := by
  intro vad past
  have hnew : new (.default fun _ => true) 8000 = .ok vad := new_default _ rfl
  obtain ⟨-, hlaw, -⟩ := detector_follows_run_lengths hnew
  have hevents : (vad.trace (⟨false, 4800⟩ :: past)).map Prod.snd = [.ended, .started, .none] := by
    decide +kernel
  refine ⟨hevents, ((hlaw past ⟨false, 4800⟩ (by decide)).2 ?_ past).1⟩
  decide +kernel

end EnergyVad

end ImpossibleVoice.Audio

import ImpossibleVoice.Audio.VadHistory

namespace ImpossibleVoice.Audio.EnergyVad

open Lib

def Bounded (vad : EnergyVad) : Prop := vad.active = true → vad.utteranceSamples < vad.limit

instance (vad : EnergyVad) : Decidable vad.Bounded := inferInstanceAs (Decidable (_ → _))

/-- An accepted frame that is heard while no utterance is open, and whose voiced
run is already as long as an utterance may be. -/
def OpensFull (vad : EnergyVad) (frame : List F32) : Prop :=
  acceptable frame = true ∧ vad.active = false ∧ vad.voiced (frame.map F32.value) = true ∧
    vad.limit ≤ vad.speechRun + frame.length

theorem samplesFor_mono (vad : EnergyVad) {a b : UInt32} (h : a ≤ b) :
    vad.samplesFor a ≤ vad.samplesFor b := by
  apply Nat.div_le_div_right
  apply min_le_min_right
  exact Nat.mul_le_mul_left _ (UInt32.le_iff_toNat_le.mp h)

theorem samplesFor_lt (vad : EnergyVad) (ms : UInt32) : vad.samplesFor ms < 2 ^ 64 := by
  rw [samplesFor, saturatingMul]
  omega

theorem bounded_hear_active {vad : EnergyVad} (hactive : vad.active = true) (f : Frame) :
    (vad.hear f).2.Bounded := by
  have hcount := (count_active vad f.voiced f.length).trans hactive
  intro hopen
  rw [(vad.hear_bounds f).2.2, ← (vad.count_bounds f.voiced f.length).2.2]
  rw [hear, transition, if_pos hcount] at hopen ⊢
  dsimp only at hopen ⊢
  split at hopen
  · cases hopen
  · rename_i hno
    rw [if_neg hno]
    exact Nat.not_le.mp (not_or.mp hno).2

/-- The frame that opens an utterance is not held to the bound. -/
theorem bounded_hear_idle {vad : EnergyVad} (hactive : vad.active = false) (hpos : 0 < vad.onset)
    (hle : vad.onset ≤ vad.limit) (f : Frame) :
    (vad.hear f).2.Bounded ↔ ¬ (f.voiced = true ∧ vad.limit ≤ vad.speechRun + f.length) := by
  have hcount := (count_active vad f.voiced f.length).trans hactive
  have hlimit := vad.samplesFor_lt vad.config.maxUtteranceMs
  rw [Bounded, (vad.hear_bounds f).2.2, hear, transition_idle hcount,
    (vad.count_bounds f.voiced f.length).1]
  obtain ⟨voiced, len⟩ := f
  cases voiced with
  | false =>
      have hspeech : (vad.count false len).speechRun = 0 := by
        rw [count, if_neg Bool.false_ne_true]
        split <;> rfl
      rw [if_neg (by rw [hspeech]; omega)]
      simp [hcount]
  | true =>
      have hspeech : (vad.count true len).speechRun = min (vad.speechRun + len) (2 ^ 64 - 1) := rfl
      change vad.limit < 2 ^ 64 at hlimit
      dsimp only at hcount ⊢
      rw [hspeech]
      split
      · simp only [true_and, forall_const]
        omega
      · rename_i hshort
        simp only [hcount, true_and, Bool.false_eq_true, false_implies, true_iff]
        omega

/-- What the detector's own configuration check gives: a bound of at least the onset. -/
structure Configured (vad : EnergyVad) : Prop where
  onset_pos : 0 < vad.onset
  onset_le : vad.onset ≤ vad.limit

theorem configured_of_new {config : VadConfig} {sampleRate : Nat} {vad : EnergyVad}
    (hnew : new config sampleRate = .ok vad) : Configured vad := by
  refine ⟨(fresh_of_new hnew).2.onset_pos, vad.samplesFor_mono ?_⟩
  rw [(fresh_of_new hnew).1]
  rw [new] at hnew
  by_contra hlt
  have hinvalid : config.maxUtteranceMs < config.minSpeechMs := UInt32.not_le.mp hlt
  rw [if_pos (.inr (.inr (.inr (.inr hinvalid))))] at hnew
  cases hvalid : validateRate sampleRate with
  | error e =>
      rw [hvalid] at hnew
      cases hnew
  | ok u =>
      rw [hvalid] at hnew
      cases hnew

theorem Configured.detect {vad : EnergyVad} (h : Configured vad) (past : List (List F32)) :
    Configured (vad.detect past).2 := by
  obtain ⟨honset, -, hlimit⟩ := vad.afterAll_bounds (vad.heard past)
  rw [(vad.detect_eq past).1]
  refine ⟨?_, ?_⟩
  · rw [honset]
    exact h.onset_pos
  · rw [honset, hlimit]
    exact h.onset_le

/-- One call goes beyond the bound exactly when it opens an utterance that is full already. -/
theorem bounded_detect_cons {vad : EnergyVad} (hconfigured : Configured vad)
    {past : List (List F32)} (hbounded : (vad.detect past).2.Bounded) (frame : List F32) :
    (vad.detect (frame :: past)).2.Bounded ↔ ¬ (vad.detect past).2.OpensFull frame := by
  have hstate := hconfigured.detect past
  rw [detect]
  cases haccepted : acceptable frame with
  | false =>
      rw [run_process_refused _ haccepted]
      simp [OpensFull, haccepted, hbounded]
  | true =>
      rw [run_process_acceptable _ haccepted]
      cases hactive : (vad.detect past).2.active with
      | true => simp [OpensFull, hactive, bounded_hear_active hactive]
      | false =>
          simp only [OpensFull, haccepted, hactive, true_and]
          exact bounded_hear_idle hactive hstate.onset_pos hstate.onset_le _

/-- Over a whole run, every open utterance is within the bound exactly when none was
opened by a frame that filled it at once. -/
theorem utterances_are_bounded_iff_none_opens_full {config : VadConfig} {sampleRate : Nat}
    {vad : EnergyVad} (hnew : new config sampleRate = .ok vad) (past : List (List F32)) :
    (∀ earlier, earlier <:+ past → (vad.detect earlier).2.Bounded) ↔
      ∀ frame earlier, frame :: earlier <:+ past → ¬ (vad.detect earlier).2.OpensFull frame := by
  have hconfigured := configured_of_new hnew
  constructor
  · intro h frame earlier hsuffix
    exact (bounded_detect_cons hconfigured
      (h earlier ((List.suffix_cons frame earlier).trans hsuffix)) frame).mp
      (h _ hsuffix)
  · intro h earlier hsuffix
    induction earlier with
    | nil =>
        intro hactive
        rw [detect, (fresh_of_new hnew).2.inactive] at hactive
        cases hactive
    | cons frame earlier ih =>
        have hbounded := ih ((List.suffix_cons frame earlier).trans hsuffix)
        exact (bounded_detect_cons hconfigured hbounded frame).mpr (h frame earlier hsuffix)

/-- At 8 kHz one millisecond of speech opens an utterance that may last two. -/
theorem a_short_opening_is_bounded :
    let vad : EnergyVad := ⟨.brief, 8000, 0, 0, 0, false⟩
    let opening : List F32 := List.replicate 8 (.finite 1)
    (vad.detect [opening]).1 = [.ok .started] ∧ ∀ earlier, earlier <:+ [opening] →
      (vad.detect earlier).2.Bounded := by
  intro vad opening
  have hnew : new .brief 8000 = .ok vad := new_brief rfl
  refine ⟨by decide +kernel, (utterances_are_bounded_iff_none_opens_full hnew [opening]).mpr ?_⟩
  intro frame earlier hsuffix
  obtain ⟨rfl, rfl⟩ : frame = opening ∧ earlier = [] := by
    obtain heq | hsuffix := List.suffix_cons_iff.mp hsuffix
    · exact List.cons_eq_cons.mp heq
    · exact absurd (List.suffix_nil.mp hsuffix) (List.cons_ne_nil _ _)
  rintro ⟨-, -, -, hfull⟩
  exact absurd hfull (by decide +kernel)

/-- Two milliseconds at once open an utterance that is over its bound, and leave it open. -/
theorem a_full_opening_is_not_closed :
    ¬ ∀ (config : VadConfig) (sampleRate : Nat) (vad : EnergyVad), new config sampleRate = .ok vad →
    ∀ past : List (List F32), (∀ frame ∈ past, acceptable frame = true) →
    (vad.detect past).2.Bounded := by
  intro h
  have hnew : new .brief 8000 = .ok ⟨.brief, 8000, 0, 0, 0, false⟩ := new_brief rfl
  exact absurd (h _ _ _ hnew [List.replicate 16 (.finite 1)] (by decide +kernel))
    (by decide +kernel)

end ImpossibleVoice.Audio.EnergyVad

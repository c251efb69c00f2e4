import ImpossibleVoice.Lib.MachineInt

namespace ImpossibleVoice.Audio

open Lib

def supportedSampleRates : List Nat := [8000, 16000, 22050, 24000, 32000, 44100, 48000]

structure AudioError where
  message : String
deriving DecidableEq, Repr

def okOr {α : Type} (value : Option α) (message : String) : Except AudioError α :=
  match value with
  | some a => .ok a
  | none => .error ⟨message⟩

@[simp] theorem okOr_some {α : Type} (a : α) (message : String) : okOr (some a) message = .ok a :=
  rfl

@[simp] theorem okOr_none {α : Type} (message : String) :
    okOr (none : Option α) message = .error ⟨message⟩ := rfl

def validateRate (sampleRate : Nat) : Except AudioError Unit :=
  if sampleRate ∈ supportedSampleRates then .ok () else .error ⟨"audio sample rate is unsupported"⟩

theorem validateRate_ok {rate : Nat} (h : rate ∈ supportedSampleRates) :
    validateRate rate = .ok () :=
  if_pos h

theorem validateRate_eq_ok {rate : Nat} {u : Unit} (h : validateRate rate = .ok u) :
    rate ∈ supportedSampleRates := by
  unfold validateRate at h
  split at h
  · assumption
  · exact absurd h (by simp)

theorem supported_bounds {rate : Nat} (h : rate ∈ supportedSampleRates) :
    8000 ≤ rate ∧ rate ≤ 48000 := by
  simp only [supportedSampleRates, List.mem_cons, List.not_mem_nil, or_false] at h
  omega

/-- Admission limits applied before allocating decoded audio. Both fields of
the source are 64 bits wide on the supported platforms. -/
structure AudioLimits where
  maxEncodedBytes : UInt64
  maxDurationMs : UInt64
  encoded_ne_zero : maxEncodedBytes ≠ 0
  duration_ne_zero : maxDurationMs ≠ 0

def AudioLimits.new (maxEncodedBytes maxDurationMs : UInt64) : Except AudioError AudioLimits :=
  if h : maxEncodedBytes = 0 ∨ maxDurationMs = 0 then .error ⟨"audio limits must be non-zero"⟩
  else .ok ⟨maxEncodedBytes, maxDurationMs, fun he => h (.inl he), fun hd => h (.inr hd)⟩

def AudioLimits.default : AudioLimits := ⟨32 * 1024 * 1024, 5 * 60 * 1000, by decide, by decide⟩

def AudioLimits.admitAudio (limits : AudioLimits) (encodedBytes sampleRate samples : Nat) :
    Except AudioError Unit :=
  if limits.maxEncodedBytes.toNat < encodedBytes then
    .error ⟨"encoded audio exceeds its byte limit"⟩
  else do
    let durationNumerator ← okOr (checkedMul 64 samples 1000) "audio duration exceeds its limit"
    let durationLimit ← okOr (checkedMul 64 sampleRate limits.maxDurationMs.toNat)
      "audio duration exceeds its limit"
    if durationLimit < durationNumerator then .error ⟨"audio duration exceeds its limit"⟩
      else .ok ()

/-- The condition under which `admitAudio` lets a recording through: the product of
rate and duration bound must itself fit 64 bits. -/
def AudioLimits.Admits (limits : AudioLimits) (encodedBytes sampleRate samples : Nat) : Prop :=
  encodedBytes ≤ limits.maxEncodedBytes.toNat ∧
    sampleRate * limits.maxDurationMs.toNat < 2 ^ 64 ∧
    samples * 1000 ≤ sampleRate * limits.maxDurationMs.toNat

instance (limits : AudioLimits) (encodedBytes sampleRate samples : Nat) :
    Decidable (limits.Admits encodedBytes sampleRate samples) :=
  inferInstanceAs (Decidable (_ ∧ _ ∧ _))

theorem AudioLimits.admitAudio_ok {limits : AudioLimits} {bytes rate samples : Nat}
    (h : limits.Admits bytes rate samples) : limits.admitAudio bytes rate samples = .ok () := by
  obtain ⟨hb, hl, hd⟩ := h
  simp [admitAudio, Nat.not_lt.mpr hb, checkedMul_of_lt hl,
    checkedMul_of_lt (Nat.lt_of_le_of_lt hd hl), bind, Except.bind, hd]

theorem AudioLimits.admitAudio_error {limits : AudioLimits} {bytes rate samples : Nat}
    (h : ¬ limits.Admits bytes rate samples) :
    ∃ e, limits.admitAudio bytes rate samples = .error e := by
  unfold admitAudio
  split
  · exact ⟨_, rfl⟩
  · rename_i hb
    unfold checkedMul
    split
    · split
      · rename_i hs hl
        have hd : rate * limits.maxDurationMs.toNat < samples * 1000 := by
          by_contra hd
          exact h ⟨Nat.not_lt.mp hb, hl, Nat.not_lt.mp hd⟩
        exact ⟨⟨"audio duration exceeds its limit"⟩, by simp [bind, Except.bind, hd]⟩
      · exact ⟨_, rfl⟩
    · exact ⟨_, rfl⟩

theorem AudioLimits.admitAudio_eq_ok {limits : AudioLimits} {bytes rate samples : Nat} :
    limits.admitAudio bytes rate samples = .ok () ↔ limits.Admits bytes rate samples := by
  refine ⟨fun h => ?_, admitAudio_ok⟩
  by_contra hrefused
  obtain ⟨e, herror⟩ := admitAudio_error hrefused
  rw [herror] at h
  cases h

/-- Admission at a total is admission at every smaller total. -/
theorem AudioLimits.Admits.mono {limits : AudioLimits} {bytes bytes' rate samples samples' : Nat}
    (h : limits.Admits bytes' rate samples') (hb : bytes ≤ bytes') (hs : samples ≤ samples') :
    limits.Admits bytes rate samples :=
  ⟨hb.trans h.1, h.2.1, (Nat.mul_le_mul_right 1000 hs).trans h.2.2⟩

end ImpossibleVoice.Audio

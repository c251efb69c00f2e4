import ImpossibleVoice.Audio.Incremental
import ImpossibleVoice.Audio.Wav

namespace ImpossibleVoice.Audio

open Lib

namespace AudioLimits

instance : LE AudioLimits :=
  ⟨fun limits raised => limits.maxEncodedBytes ≤ raised.maxEncodedBytes ∧
    limits.maxDurationMs ≤ raised.maxDurationMs⟩

def Exceeds (limits : AudioLimits) (rate samples : Nat) : Prop :=
  limits.maxEncodedBytes.toNat < 2 * samples ∨ rate * limits.maxDurationMs.toNat < 1000 * samples

/-- The longest duration in samples, a thousandfold, fits the 64 bits it is computed in. -/
def Representable (limits : AudioLimits) (rate : Nat) : Prop :=
  rate * limits.maxDurationMs.toNat < 2 ^ 64

instance (limits : AudioLimits) (rate samples : Nat) : Decidable (limits.Exceeds rate samples) :=
  inferInstanceAs (Decidable (_ ∨ _))

instance (limits : AudioLimits) (rate : Nat) : Decidable (limits.Representable rate) :=
  inferInstanceAs (Decidable (_ < _))

variable {limits raised : AudioLimits} {rate samples : Nat}

theorem admits_iff : limits.Admits (2 * samples) rate samples ↔
    ¬ limits.Exceeds rate samples ∧ limits.Representable rate := by
  rw [Admits, Exceeds, Representable]
  omega

theorem Exceeds.of_raised (hle : limits ≤ raised) (h : raised.Exceeds rate samples) :
    limits.Exceeds rate samples := by
  have hbytes : limits.maxEncodedBytes.toNat ≤ raised.maxEncodedBytes.toNat :=
    UInt64.le_iff_toNat_le.mp hle.1
  have hduration : rate * limits.maxDurationMs.toNat ≤ rate * raised.maxDurationMs.toNat :=
    Nat.mul_le_mul_left rate (UInt64.le_iff_toNat_le.mp hle.2)
  rw [Exceeds] at h ⊢
  omega

end AudioLimits

def AudioError.ForLimits (e : AudioError) : Prop :=
  e.message = "encoded audio exceeds its byte limit" ∨
    e.message = "audio duration exceeds its limit"

def RefusedForLimits {α : Type} (answer : Except AudioError α) : Prop :=
  ∃ e, answer = .error e ∧ e.ForLimits

/-- An answer that is given under `admitted` and else refused for the limits. -/
structure Gate {α : Type} (answer : Except AudioError α) (admitted : Prop) : Prop where
  given : admitted → answer.isOk = true
  refused : ¬ admitted → RefusedForLimits answer

theorem Gate.isOk_iff {α : Type} {answer : Except AudioError α} {admitted : Prop}
    (h : Gate answer admitted) : answer.isOk = true ↔ admitted := by
  refine ⟨fun hok => ?_, h.given⟩
  by_contra hno
  obtain ⟨e, herror, -⟩ := h.refused hno
  rw [herror] at hok
  cases hok

theorem Gate.refused_iff {α : Type} {answer : Except AudioError α} {admitted : Prop}
    (h : Gate answer admitted) : RefusedForLimits answer ↔ ¬ admitted := by
  refine ⟨?_, h.refused⟩
  rintro ⟨e, herror, -⟩ hadmitted
  have hok := h.given hadmitted
  rw [herror] at hok
  cases hok

/-- A gate of this form is exact unless it overflows for nothing. -/
theorem Gate.exact_iff {α : Type} {answer : Except AudioError α} {exceeds fits : Prop}
    (h : Gate answer (¬ exceeds ∧ fits)) :
    (RefusedForLimits answer ↔ exceeds) ↔ fits ∨ exceeds := by
  rw [h.refused_iff]
  tauto

/-- The refusals for the limits are exactly those that `exceeds` calls for, except where the
arithmetic of `rate` overflows for nothing. -/
def ExactUnder {α : Type} (answer : AudioLimits → Except AudioError α)
    (exceeds : AudioLimits → Prop) (rate : Nat) : Prop :=
  ∀ limits : AudioLimits, (RefusedForLimits (answer limits) ↔ exceeds limits) ↔
    limits.Representable rate ∨ exceeds limits

/-- What is accepted stays accepted under higher limits, as long as these do not overflow. -/
def RaisedUnder {α : Type} (answer : AudioLimits → Except AudioError α) (rate : Nat) : Prop :=
  ∀ limits raised : AudioLimits, limits ≤ raised → (answer limits).isOk = true →
    ((answer raised).isOk = true ↔ raised.Representable rate)

section

variable {α : Type} {answer : AudioLimits → Except AudioError α}
  {exceeds : AudioLimits → Prop} {rate : Nat}

theorem exactUnder_of_gate
    (h : ∀ limits, Gate (answer limits) (¬ exceeds limits ∧ limits.Representable rate)) :
    ExactUnder answer exceeds rate :=
  fun limits => (h limits).exact_iff

theorem raisedUnder_of_gate
    (h : ∀ limits, Gate (answer limits) (¬ exceeds limits ∧ limits.Representable rate))
    (hraised : ∀ limits raised, limits ≤ raised → exceeds raised → exceeds limits) :
    RaisedUnder answer rate := by
  intro limits raised hle hok
  obtain ⟨hwithin, -⟩ := (h limits).isOk_iff.mp hok
  rw [(h raised).isOk_iff]
  exact ⟨fun hadmitted => hadmitted.2,
    fun hfits => ⟨fun hexceeds => hwithin (hraised _ _ hle hexceeds), hfits⟩⟩

end

theorem admitAudio_forLimits {limits : AudioLimits} {bytes rate samples : Nat} {e : AudioError}
    (h : limits.admitAudio bytes rate samples = .error e) : e.ForLimits := by
  rw [AudioLimits.admitAudio] at h
  split at h
  · cases h
    exact .inl rfl
  · cases hproduct : checkedMul 64 samples 1000 with
    | none =>
        rw [hproduct] at h
        cases h
        exact .inr rfl
    | some numerator =>
        rw [hproduct, okOr_some] at h
        cases hlimit : checkedMul 64 rate limits.maxDurationMs.toNat with
        | none =>
            rw [hlimit] at h
            cases h
            exact .inr rfl
        | some most =>
            rw [hlimit, okOr_some] at h
            simp only [bind, Except.bind] at h
            split at h
            · cases h
              exact .inr rfl
            · cases h

theorem admitAudio_gate (limits : AudioLimits) (bytes rate samples : Nat) :
    Gate (limits.admitAudio bytes rate samples) (limits.Admits bytes rate samples) := by
  refine ⟨fun h => by rw [AudioLimits.admitAudio_ok h]; rfl, fun h => ?_⟩
  obtain ⟨e, herror⟩ := AudioLimits.admitAudio_error h
  exact ⟨e, herror, admitAudio_forLimits herror⟩

variable {rate n : Nat}

theorem fromPcm16Le_gate (hrate : rate ∈ supportedSampleRates) {bytes : List UInt8}
    (hlen : bytes.length = 2 * n) (hn : 0 < n) (limits : AudioLimits) :
    Gate (MonoPcm.fromPcm16Le bytes rate limits)
      (¬ limits.Exceeds rate n ∧ limits.Representable rate) := by
  have hne : bytes ≠ [] := fun hnil => by rw [hnil, List.length_nil] at hlen; omega
  have hdecoded : decodePcm16 bytes ≠ [] := fun h => hne ((decodePcm16_eq_nil (by omega)).mp h)
  have hrun : MonoPcm.fromPcm16Le bytes rate limits = (limits.admitAudio (2 * n) rate n).map
      (fun _ => ⟨rate, decodePcm16 bytes, hrate, hdecoded, decodePcm16_in_range bytes⟩) := by
    rw [MonoPcm.fromPcm16Le, validateRate_ok hrate, if_neg (by rw [not_or]; exact ⟨hne, by omega⟩),
      MonoPcm.new_finite hrate hdecoded (decodePcm16_in_range bytes), hlen,
        Nat.mul_div_cancel_left n (by omega)]
    cases limits.admitAudio (2 * n) rate n <;> rfl
  rw [hrun, ← AudioLimits.admits_iff]
  have hgate := admitAudio_gate limits (2 * n) rate n
  refine ⟨fun h => ?_, fun h => ?_⟩
  · rw [AudioLimits.admitAudio_ok h]
    rfl
  · obtain ⟨e, herror, hlimits⟩ := hgate.refused h
    exact ⟨e, by rw [herror]; rfl, hlimits⟩

theorem validatePcm_gate (m : MonoPcm) (limits : AudioLimits) :
    Gate (limits.validatePcm m)
      (¬ limits.Exceeds m.sampleRate m.samples.length ∧ limits.Representable m.sampleRate) := by
  have hgate := admitAudio_gate limits (2 * m.samples.length) m.sampleRate m.samples.length
  rw [AudioLimits.admits_iff] at hgate
  by_cases hlt : m.samples.length * 2 < 2 ^ 64
  · have hrun : limits.validatePcm m =
        limits.admitAudio (2 * m.samples.length) m.sampleRate m.samples.length := by
      rw [AudioLimits.validatePcm, checkedMul_of_lt hlt, Nat.mul_comm 2]
      rfl
    rw [hrun]
    exact hgate
  · have hmax := limits.maxEncodedBytes.toNat_lt
    refine ⟨fun h => absurd (.inl (by omega)) h.1, fun _ => ?_⟩
    rw [AudioLimits.validatePcm, checkedMul_of_ge (Nat.not_lt.mp hlt)]
    exact ⟨_, rfl, .inl rfl⟩

namespace IncrementalPcm16

variable {limits : AudioLimits}

def reply (decoder : IncrementalPcm16) (bytes : List UInt8) : Except AudioError (List ℚ) :=
  match (push bytes).run decoder with
  | .ok piece _ => .ok piece
  | .error e _ => .error e

def takeAll (rate : Nat) (frames : List (List UInt8)) (limits : AudioLimits) :
    Except AudioError (List ℚ) := do
  let decoder ← new rate limits
  match (collect push frames).run decoder with
  | .ok pieces _ => .ok pieces
  | .error e _ => .error e

theorem push_forLimits (bytes : List UInt8) :
    Triple (fun _ => True) (push bytes) (fun _ _ => True) fun e _ => e.ForLimits := by
  refine Triple.bind (Triple.get (Q := fun _ _ => True) fun _ _ => trivial) fun decoder => ?_
  refine Triple.bind (Q := fun _ _ => True) ?_ fun total => ?_
  · intro s _
    cases checkedAdd 64 decoder.existingBytes bytes.length with
    | none => exact .inl rfl
    | some total => trivial
  · refine Triple.bind (Q := fun _ _ => True) ?_ fun _ => ?_
    · intro s _
      cases hadmits : decoder.limits.admitAudio total decoder.sampleRate (total / 2) with
      | error e => exact admitAudio_forLimits hadmits
      | ok _ => trivial
    · refine Triple.bind (Triple.modify (Q := fun _ _ => True) fun _ _ => trivial) fun _ => ?_
      exact Triple.bind (Triple.modify (Q := fun _ _ => True) fun _ _ => trivial) fun _ =>
        Triple.pure fun _ _ => trivial

/-- A caller that goes on after refusals has the decoder of the frames that were accepted. -/
theorem pushEach_decoder {taken : List UInt8} (htaken : taken.length < 2 ^ 64)
    (frames : List (List UInt8)) :
    (pushEach (after rate limits taken) frames).2 =
      after rate limits (taken ++ (accepted (after rate limits taken) frames).flatten) ∧
    (taken ++ (accepted (after rate limits taken) frames).flatten).length < 2 ^ 64 := by
  induction frames generalizing taken with
  | nil =>
      change after rate limits taken = after rate limits (taken ++ []) ∧
        (taken ++ []).length < 2 ^ 64
      rw [List.append_nil]
      exact ⟨rfl, htaken⟩
  | cons frame frames ih =>
      by_cases hadmits : limits.Admits (taken ++ frame).length rate ((taken ++ frame).length / 2)
      · have hpush := run_push hadmits
        have haccepted : accepted (after rate limits taken) (frame :: frames) =
            frame :: accepted (after rate limits (taken ++ frame)) frames := by
          rw [accepted, pushEach, hpush]
          rfl
        rw [haccepted, List.flatten_cons, ← List.append_assoc, pushEach, hpush]
        exact ih (Nat.lt_of_le_of_lt hadmits.1 limits.maxEncodedBytes.toNat_lt)
      · obtain ⟨e, hpush⟩ := run_push_error htaken hadmits
        have haccepted : accepted (after rate limits taken) (frame :: frames) =
            accepted (after rate limits taken) frames := by
          rw [accepted, pushEach, hpush]
          rfl
        rw [haccepted, pushEach, hpush]
        exact ih htaken

theorem reply_gate {taken bytes : List UInt8} (htaken : taken.length < 2 ^ 64)
    (hlen : (taken ++ bytes).length = 2 * n) :
    Gate (reply (after rate limits taken) bytes)
      (¬ limits.Exceeds rate n ∧ limits.Representable rate) := by
  have hhalf : (taken ++ bytes).length / 2 = n := by omega
  rw [← AudioLimits.admits_iff, ← hlen, ← hhalf]
  refine ⟨fun h => by rw [reply, run_push h]; rfl, fun h => ?_⟩
  obtain ⟨e, herror⟩ := run_push_error htaken h
  exact ⟨e, by rw [reply, herror], (push_forLimits bytes).error trivial herror⟩

theorem takeAll_gate (hrate : rate ∈ supportedSampleRates) {frames : List (List UInt8)}
    (hne : frames ≠ []) (hlen : frames.flatten.length = 2 * n) (limits : AudioLimits) :
    Gate (takeAll rate frames limits) (¬ limits.Exceeds rate n ∧ limits.Representable rate) := by
  have hhalf : frames.flatten.length / 2 = n := by omega
  rw [← AudioLimits.admits_iff, ← hlen, ← hhalf, takeAll, new_ok hrate]
  refine ⟨fun h => ?_, fun h => ?_⟩
  · have hrun : (collect push frames).run (after rate limits []) = _ := run_collect_push h
    simp only [bind, Except.bind, hrun]
    rfl
  · cases hrun : (collect push frames).run (after rate limits []) with
    | ok pieces final => exact absurd ((collect_push_eq_ok (by decide) hrun).2 hne) h
    | error e t =>
        have hforLimits :=
          (Triple.collect (P := fun _ => True) push_forLimits frames).error trivial hrun
        exact ⟨e, by simp only [bind, Except.bind, hrun], hforLimits⟩

end IncrementalPcm16

structure WavFile (bytes : List UInt8) (rate : Nat) (pcm : List UInt8) : Prop where
  long : 12 ≤ bytes.length
  riff : bytes.take 4 = riffTag
  wave : (bytes.drop 8).take 4 = waveTag
  declared : leField bytes 4 4 = bytes.length - 8
  chunks : ∃ cs fmt, Chunks (bytes.drop 12) cs ∧ firstPayload fmtTag cs = some fmt ∧
    DescribesPcm16 fmt rate ∧
    firstPayload dataTag cs = some pcm

theorem WavFile.refused {bytes pcm : List UInt8} (h : WavFile bytes rate pcm)
    {limits : AudioLimits} {e : AudioError}
    (herror : limits.admitAudio bytes.length 48000 0 = .error e) :
    MonoPcm.fromWav bytes limits = .error e := by
  have hcontainer : (scanContainer bytes limits).run WavScan.start =
      .error e ((WavScan.start.reading 0 4).reading 8 12) := by
    rw [scanContainer, run_bind_of_ok (run_failIf_neg (Nat.not_lt.mpr h.long) _ _),
      run_bind_of_ok (run_slice _ _ _ _),
      run_bind_of_ok (run_failIf_neg (by simpa using h.riff) _ _),
      run_bind_of_ok (run_slice _ _ _ _),
      run_bind_of_ok (run_failIf_neg (by simpa using h.wave) _ _), herror,
      run_bind_of_error (run_fromExcept_error _ _)]
  rw [MonoPcm.fromWav, scanWav, run_bind_of_error hcontainer]

theorem WavFile.gate {bytes pcm : List UInt8} (h : WavFile bytes rate pcm)
    (hrate : rate ∈ supportedSampleRates) (hlen : pcm.length = 2 * n) (hn : 0 < n)
    (limits : AudioLimits) :
    Gate (MonoPcm.fromWav bytes limits)
      (¬ (limits.maxEncodedBytes.toNat < bytes.length ∨ limits.Exceeds rate n) ∧
      limits.Representable 48000) := by
  have hbounds := supported_bounds hrate
  have hrates : rate * limits.maxDurationMs.toNat ≤ 48000 * limits.maxDurationMs.toNat :=
    Nat.mul_le_mul_right _ hbounds.2
  have hpcm := fromPcm16Le_gate hrate hlen hn limits
  by_cases hadmits : limits.Admits bytes.length 48000 0
  · obtain ⟨cs, fmt, hcs, hfmt, hdesc, hdata⟩ := h.chunks
    rw [fromWav_of_chunks ⟨h.long, h.riff, h.wave, AudioLimits.admitAudio_ok hadmits, h.declared⟩
      hcs hfmt hdesc hdata]
    have hfits : limits.Representable rate := Nat.lt_of_le_of_lt hrates hadmits.2.1
    refine ⟨fun hgiven => hpcm.given ⟨fun hexceeds => hgiven.1 (.inr hexceeds), hfits⟩,
      fun hrefused => hpcm.refused ?_⟩
    rintro ⟨hwithin, -⟩
    refine hrefused ⟨?_, hadmits.2.1⟩
    rintro (hlong | hexceeds)
    · exact absurd hadmits.1 (Nat.not_le.mpr hlong)
    · exact hwithin hexceeds
  · obtain ⟨e, herror⟩ := AudioLimits.admitAudio_error hadmits
    refine ⟨fun hgiven => ?_, fun _ => ⟨e, h.refused herror, admitAudio_forLimits herror⟩⟩
    refine absurd ⟨?_, hgiven.2, ?_⟩ hadmits
    · exact Nat.not_lt.mp fun hlong => hgiven.1 (.inl hlong)
    · rw [Nat.zero_mul]
      exact Nat.zero_le _

/-- The four paths, each with the rate in whose arithmetic it decides. A container adds its
own size, and decides at 48 kHz. -/
theorem admission_is_exact_unless_it_overflows (hrate : rate ∈ supportedSampleRates) (n : Nat) :
    (∀ bytes : List UInt8, bytes.length = 2 * n → 0 < n →
      ExactUnder (MonoPcm.fromPcm16Le bytes rate) (fun limits => limits.Exceeds rate n) rate ∧
      RaisedUnder (MonoPcm.fromPcm16Le bytes rate) rate) ∧
    (∀ m : MonoPcm, m.sampleRate = rate → m.samples.length = n →
      ExactUnder (fun limits => limits.validatePcm m) (fun limits => limits.Exceeds rate n) rate ∧
      RaisedUnder (fun limits => limits.validatePcm m) rate) ∧
    (∀ (limits : AudioLimits) (decoder : IncrementalPcm16) (frames : List (List UInt8))
      (bytes : List UInt8),
      IncrementalPcm16.new rate limits = .ok decoder →
      ((decoder.accepted frames).flatten ++ bytes).length = 2 * n →
      ((RefusedForLimits ((decoder.pushEach frames).2.reply bytes) ↔ limits.Exceeds rate n) ↔
        limits.Representable rate ∨ limits.Exceeds rate n)) ∧
    (∀ frames : List (List UInt8), frames ≠ [] → frames.flatten.length = 2 * n →
      RaisedUnder (IncrementalPcm16.takeAll rate frames) rate) ∧
    ∀ bytes pcm : List UInt8, WavFile bytes rate pcm → pcm.length = 2 * n → 0 < n →
      ExactUnder (MonoPcm.fromWav bytes)
        (fun limits => limits.maxEncodedBytes.toNat < bytes.length ∨ limits.Exceeds rate n) 48000 ∧
      RaisedUnder (MonoPcm.fromWav bytes) 48000 := by
  have hraised (limits raised : AudioLimits) (hle : limits ≤ raised) :
      raised.Exceeds rate n → limits.Exceeds rate n :=
    AudioLimits.Exceeds.of_raised hle
  refine ⟨fun bytes hlen hn => ?_, fun m hm hlen => ?_,
    fun limits decoder frames bytes hnew hlen => ?_,
    fun frames hne hlen => ?_, fun bytes pcm hfile hlen hn => ?_⟩
  · have hgate := fromPcm16Le_gate hrate hlen hn
    exact ⟨exactUnder_of_gate hgate, raisedUnder_of_gate hgate hraised⟩
  · subst hm hlen
    have hgate := validatePcm_gate m
    exact ⟨exactUnder_of_gate hgate, raisedUnder_of_gate hgate hraised⟩
  · obtain rfl : IncrementalPcm16.after rate limits [] = decoder :=
      Except.ok.inj ((IncrementalPcm16.new_ok hrate limits).symm.trans hnew)
    have hfresh : ([] : List UInt8).length < 2 ^ 64 := by decide
    obtain ⟨hdecoder, hlt⟩ := IncrementalPcm16.pushEach_decoder hfresh frames
    rw [hdecoder]
    exact (IncrementalPcm16.reply_gate hlt hlen).exact_iff
  · exact raisedUnder_of_gate (IncrementalPcm16.takeAll_gate hrate hne hlen) hraised
  · have hgate := hfile.gate hrate hlen hn
    refine ⟨exactUnder_of_gate hgate, raisedUnder_of_gate hgate fun limits raised hle => ?_⟩
    have hbytes : limits.maxEncodedBytes.toNat ≤ raised.maxEncodedBytes.toNat :=
      UInt64.le_iff_toNat_le.mp hle.1
    rintro (hlong | hexceeds)
    · exact .inl (Nat.lt_of_le_of_lt hbytes hlong)
    · exact .inr (hraised limits raised hle hexceeds)

/-- Four bytes hold two samples and not three, and two stay accepted under the default
limits, but not under the longest duration bound there is. -/
theorem two_samples_fill_four_bytes :
    RefusedForLimits
      (MonoPcm.fromPcm16Le [0, 64, 0, 64, 0, 64] 8000 ⟨4, 1000, by decide, by decide⟩) ∧
    (MonoPcm.fromPcm16Le [0, 64, 0, 64] 8000 .default).isOk = true ∧
    ¬ (MonoPcm.fromPcm16Le [0, 64, 0, 64] 8000
      ⟨4, 18446744073709551615, by decide, by decide⟩).isOk = true := by
  have hrate : 8000 ∈ supportedSampleRates := by decide
  have hfill : (MonoPcm.fromPcm16Le [0, 64, 0, 64] 8000 ⟨4, 1000, by decide, by decide⟩).isOk =
      true := by decide +kernel
  obtain ⟨hthree, -⟩ := admission_is_exact_unless_it_overflows hrate 3
  obtain ⟨htwo, -⟩ := admission_is_exact_unless_it_overflows hrate 2
  obtain ⟨hexact, -⟩ := hthree [0, 64, 0, 64, 0, 64] rfl (by decide)
  obtain ⟨-, hraised⟩ := htwo [0, 64, 0, 64] rfl (by decide)
  refine ⟨((hexact _).mpr (.inl (by decide))).mpr (by decide),
    (hraised _ _ ⟨by decide, by decide⟩ hfill).mpr (by decide), fun h => ?_⟩
  exact absurd ((hraised _ _ ⟨by decide, by decide⟩ hfill).mp h) (by decide)

/-- One sample is refused under the longest duration bound there is. -/
theorem the_longest_duration_admits_nothing :
    ¬ ∀ (limits : AudioLimits) (rate n : Nat) (bytes : List UInt8), rate ∈ supportedSampleRates →
    bytes.length = 2 * n → 0 < n →
    (RefusedForLimits (MonoPcm.fromPcm16Le bytes rate limits) ↔ limits.Exceeds rate n) := by
  intro h
  have hrate : 8000 ∈ supportedSampleRates := by decide
  have hlen : ([0, 64] : List UInt8).length = 2 * 1 := rfl
  have hiff :=
    h ⟨2, 18446744073709551615, by decide, by decide⟩ 8000 1 [0, 64] hrate hlen Nat.one_pos
  rw [(fromPcm16Le_gate hrate hlen Nat.one_pos _).refused_iff] at hiff
  exact absurd (hiff.mp (by decide)) (by decide)

end ImpossibleVoice.Audio

import ImpossibleVoice.Audio.Pcm
import ImpossibleVoice.Lib.Effect

namespace ImpossibleVoice.Audio

open Lib

@[ext] structure IncrementalPcm16 where
  sampleRate : Nat
  limits : AudioLimits
  samples : List ℚ
  pending : Option UInt8

def oddByte : List UInt8 → Option UInt8
  | _ :: _ :: rest => oddByte rest
  | [low] => some low
  | [] => none

namespace IncrementalPcm16

def new (sampleRate : Nat) (limits : AudioLimits) : Except AudioError IncrementalPcm16 := do
  validateRate sampleRate
  .ok ⟨sampleRate, limits, [], none⟩

def decodeFrame (pending : Option UInt8) (bytes : List UInt8) : List ℚ × Option UInt8 :=
  match pending, bytes with
  | some low, high :: rest => (decodeSample low high :: decodePcm16 rest, oddByte rest)
  | some low, [] => ([], some low)
  | none, bytes => (decodePcm16 bytes, oddByte bytes)

def existingBytes (decoder : IncrementalPcm16) : Nat :=
  saturatingMul 64 decoder.samples.length 2 + decoder.pending.toList.length

def push (bytes : List UInt8) : EStateM AudioError IncrementalPcm16 (List ℚ) := do
  let decoder ← get
  let totalBytes ← fromExcept
    (okOr (checkedAdd 64 decoder.existingBytes bytes.length) "encoded audio exceeds its byte limit")
  fromExcept (decoder.limits.admitAudio totalBytes decoder.sampleRate (totalBytes / 2))
  modify fun d => { d with pending := (decodeFrame decoder.pending bytes).2 }
  modify fun d => { d with samples := d.samples ++ (decodeFrame decoder.pending bytes).1 }
  pure (decodeFrame decoder.pending bytes).1

def finish (decoder : IncrementalPcm16) : Except AudioError MonoPcm :=
  if decoder.pending.isSome then .error ⟨"PCM16 stream ended with a partial sample"⟩
  else MonoPcm.new decoder.sampleRate (decoder.samples.map .finite)

end IncrementalPcm16

theorem oddByte_append (front rest : List UInt8) :
    oddByte (front ++ rest) = oddByte ((oddByte front).toList ++ rest) := by
  induction front using oddByte.induct with
  | case1 low high front ih => simp only [List.cons_append, oddByte, ih]
  | case2 | case3 => rfl

theorem decodePcm16_split (front rest : List UInt8) :
    decodePcm16 (front ++ rest) =
      decodePcm16 front ++ decodePcm16 ((oddByte front).toList ++ rest) := by
  induction front using oddByte.induct with
  | case1 low high front ih => simp only [List.cons_append, decodePcm16, oddByte, ih]
  | case2 | case3 => rfl

theorem length_eq_decoded (bytes : List UInt8) :
    2 * (decodePcm16 bytes).length + (oddByte bytes).toList.length = bytes.length := by
  induction bytes using oddByte.induct with
  | case1 low high rest ih => simp only [decodePcm16, oddByte, List.length_cons]; omega
  | case2 | case3 => rfl

theorem oddByte_eq_none {bytes : List UInt8} : oddByte bytes = none ↔ bytes.length % 2 = 0 := by
  have h := length_eq_decoded bytes
  cases ho : oddByte bytes with
  | none => rw [ho, Option.toList_none, List.length_nil] at h; simp only [true_iff]; omega
  | some low =>
      rw [ho, Option.toList_some, List.length_singleton] at h; simp only [reduceCtorEq,
        false_iff]; omega

namespace IncrementalPcm16

theorem decodeFrame_eq (pending : Option UInt8) (bytes : List UInt8) :
    decodeFrame pending bytes =
      (decodePcm16 (pending.toList ++ bytes), oddByte (pending.toList ++ bytes)) := by
  cases pending with
  | none => rfl
  | some low => cases bytes <;> rfl

variable {rate : Nat} {limits : AudioLimits}

def after (rate : Nat) (limits : AudioLimits) (bytes : List UInt8) : IncrementalPcm16 :=
  ⟨rate, limits, decodePcm16 bytes, oddByte bytes⟩

theorem new_ok (h : rate ∈ supportedSampleRates) (limits : AudioLimits) :
    new rate limits = .ok (after rate limits []) := by
  simp only [new, validateRate_ok h, bind, Except.bind]
  rfl

theorem existingBytes_after {taken : List UInt8} (h : taken.length < 2 ^ 64) :
    (after rate limits taken).existingBytes = taken.length := by
  have hlen := length_eq_decoded taken
  rw [existingBytes, saturatingMul_of_lt (by simp only [after]; omega), Nat.mul_comm]
  exact hlen

/-- A frame within the limits takes the decoder on by that frame. -/
theorem run_push {taken bytes : List UInt8}
    (h : limits.Admits (taken ++ bytes).length rate ((taken ++ bytes).length / 2)) :
    (push bytes).run (after rate limits taken) =
      .ok (decodePcm16 ((oddByte taken).toList ++ bytes)) (after rate limits (taken ++ bytes)) := by
  have hlt : (taken ++ bytes).length < 2 ^ 64 :=
    Nat.lt_of_le_of_lt h.1 limits.maxEncodedBytes.toNat_lt
  have hdecoded : after rate limits (taken ++ bytes) =
      ⟨rate, limits, decodePcm16 taken ++ decodePcm16 ((oddByte taken).toList ++ bytes),
        oddByte ((oddByte taken).toList ++ bytes)⟩ := by
    rw [after, decodePcm16_split, oddByte_append]
  rw [List.length_append] at h hlt
  have hadmits :
      (after rate limits taken).limits.admitAudio (taken.length + bytes.length)
      (after rate limits taken).sampleRate
      ((taken.length + bytes.length) / 2) = .ok () := AudioLimits.admitAudio_ok h
  rw [push, run_bind_of_ok (EStateM.run_get _), existingBytes_after (by omega),
    checkedAdd_of_lt hlt, okOr_some,
    run_bind_of_ok (run_fromExcept_ok _ _), hadmits, run_bind_of_ok (run_fromExcept_ok _ _),
      hdecoded,
    decodeFrame_eq]
  rfl

theorem run_push_error {taken bytes : List UInt8} (hlt : taken.length < 2 ^ 64)
    (h : ¬ limits.Admits (taken ++ bytes).length rate ((taken ++ bytes).length / 2)) :
    ∃ e, (push bytes).run (after rate limits taken) = .error e (after rate limits taken) := by
  rw [List.length_append] at h
  rw [push, run_bind_of_ok (EStateM.run_get _), existingBytes_after hlt]
  by_cases hadd : taken.length + bytes.length < 2 ^ 64
  · obtain ⟨e, hadmits⟩ : ∃ e,
        (after rate limits taken).limits.admitAudio (taken.length + bytes.length)
        (after rate limits taken).sampleRate ((taken.length + bytes.length) / 2) = .error e :=
      AudioLimits.admitAudio_error h
    rw [checkedAdd_of_lt hadd, okOr_some, run_bind_of_ok (run_fromExcept_ok _ _), hadmits]
    exact ⟨e, run_bind_of_error (run_fromExcept_error _ _)⟩
  · rw [checkedAdd_of_ge (Nat.not_lt.mp hadd), okOr_none]
    exact ⟨_, run_bind_of_error (run_fromExcept_error _ _)⟩

theorem finish_after (taken : List UInt8) :
    finish (after rate limits taken) =
      if taken.length % 2 ≠ 0 then .error ⟨"PCM16 stream ended with a partial sample"⟩
      else MonoPcm.new rate ((decodePcm16 taken).map .finite) := by
  rw [finish]
  by_cases he : taken.length % 2 = 0
  · have hnone := oddByte_eq_none.mpr he
    rw [if_neg (by simp [after, hnone]), if_neg (by simp [he])]
    rfl
  · have hsome : (after rate limits taken).pending.isSome = true := by
      rw [Option.isSome_iff_ne_none]
      exact fun h => he (oddByte_eq_none.mp h)
    rw [if_pos hsome, if_pos he]

theorem finish_after_eq_ok {taken : List UInt8} {m : MonoPcm} :
    finish (after rate limits taken) = .ok m ↔
      taken.length % 2 = 0 ∧ MonoPcm.new rate ((decodePcm16 taken).map .finite) = .ok m := by
  rw [finish_after]
  by_cases he : taken.length % 2 = 0
  · rw [if_neg (by simp [he])]
    exact ⟨fun h => ⟨he, h⟩, fun h => h.2⟩
  · rw [if_pos he]
    constructor
    · intro h
      cases h
    · intro h
      exact absurd h.1 he

/-- Frames that stay within the limits together are all taken, wherever they are cut. -/
theorem run_collect_push {frames : List (List UInt8)} {taken : List UInt8}
    (h : limits.Admits (taken ++ frames.flatten).length rate
      ((taken ++ frames.flatten).length / 2)) :
    (collect push frames).run (after rate limits taken) =
      .ok (decodePcm16 ((oddByte taken).toList ++ frames.flatten))
        (after rate limits (taken ++ frames.flatten)) := by
  induction frames generalizing taken with
  | nil =>
      have hodd : decodePcm16 (oddByte taken).toList = [] := by cases oddByte taken <;> rfl
      rw [List.flatten_nil, List.append_nil, List.append_nil, hodd]
      rfl
  | cons frame frames ih =>
      rw [List.flatten_cons, ← List.append_assoc taken] at h ⊢
      have hframe : limits.Admits (taken ++ frame).length rate ((taken ++ frame).length / 2) := by
        apply h.mono
        · rw [@List.length_append _ (taken ++ frame)]
          omega
        · rw [@List.length_append _ (taken ++ frame)]
          omega
      rw [run_collect_cons, run_push hframe]
      simp only [ih h]
      rw [← List.append_assoc, decodePcm16_split ((oddByte taken).toList ++ frame),
        oddByte_append taken frame]

theorem collect_push_eq_ok {frames : List (List UInt8)} {taken : List UInt8} {pieces : List ℚ}
    {final : IncrementalPcm16} (htaken : taken.length < 2 ^ 64)
    (h : (collect push frames).run (after rate limits taken) = .ok pieces final) :
    final = after rate limits (taken ++ frames.flatten) ∧
    (frames ≠ [] →
      limits.Admits (taken ++ frames.flatten).length rate
      ((taken ++ frames.flatten).length / 2)) := by
  induction frames generalizing taken pieces with
  | nil =>
      rw [List.flatten_nil, List.append_nil]
      cases h
      exact ⟨rfl, fun hne => absurd rfl hne⟩
  | cons frame frames ih =>
      rw [List.flatten_cons, ← List.append_assoc]
      have hframe : limits.Admits (taken ++ frame).length rate ((taken ++ frame).length / 2) := by
        by_contra hrefused
        obtain ⟨e, herror⟩ := run_push_error htaken hrefused
        rw [run_collect_cons, herror] at h
        cases h
      have hlt : (taken ++ frame).length < 2 ^ 64 :=
        Nat.lt_of_le_of_lt hframe.1 limits.maxEncodedBytes.toNat_lt
      rw [run_collect_cons, run_push hframe] at h
      cases hrest : (collect push frames).run (after rate limits (taken ++ frame)) with
      | error e t => simp only [hrest] at h; cases h
      | ok rest t =>
          simp only [hrest] at h
          cases h
          obtain ⟨hfinal, hadmits⟩ := ih hlt hrest
          refine ⟨hfinal, fun _ => ?_⟩
          cases frames with
          | nil =>
              rw [List.flatten_nil, List.append_nil]
              exact hframe
          | cons next frames => exact hadmits (List.cons_ne_nil _ _)

/-- A refused frame leaves the decoder as it was. -/
theorem push_eq_error {decoder decoder' : IncrementalPcm16} {bytes : List UInt8} {e : AudioError}
    (h : (push bytes).run decoder = .error e decoder') : decoder' = decoder := by
  rw [push, run_bind_of_ok (EStateM.run_get _)] at h
  cases htotal :
    okOr (checkedAdd 64 decoder.existingBytes bytes.length)
    "encoded audio exceeds its byte limit" with
  | error e =>
      rw [htotal, run_bind_of_error (run_fromExcept_error _ _)] at h
      cases h
      rfl
  | ok total =>
      rw [htotal, run_bind_of_ok (run_fromExcept_ok _ _)] at h
      cases haccepted : decoder.limits.admitAudio total decoder.sampleRate (total / 2) with
      | error e =>
          rw [haccepted, run_bind_of_error (run_fromExcept_error _ _)] at h
          cases h
          rfl
      | ok _ =>
          rw [haccepted, run_bind_of_ok (run_fromExcept_ok _ _)] at h
          cases h

/-- A caller that goes on after a refused frame: the answer to each frame, and the
decoder in the end. -/
def pushEach (decoder : IncrementalPcm16) :
    List (List UInt8) → List (Except AudioError (List ℚ)) × IncrementalPcm16
  | [] => ([], decoder)
  | frame :: frames =>
      match (push frame).run decoder with
      | .ok piece next => (.ok piece :: (pushEach next frames).1, (pushEach next frames).2)
      | .error e next => (.error e :: (pushEach next frames).1, (pushEach next frames).2)

def accepted (decoder : IncrementalPcm16) (frames : List (List UInt8)) : List (List UInt8) :=
  ((frames.zip (pushEach decoder frames).1).filter fun p => p.2.isOk).map Prod.fst

/-- Leaving the refused frames out of a run changes neither the other answers nor the decoder. -/
theorem pushEach_accepted (decoder : IncrementalPcm16) (frames : List (List UInt8)) :
    pushEach decoder (accepted decoder frames) =
      ((pushEach decoder frames).1.filter Except.isOk, (pushEach decoder frames).2) := by
  induction frames generalizing decoder with
  | nil => rfl
  | cons frame frames ih =>
      cases hpush : (push frame).run decoder with
      | ok piece next =>
          have hrun : pushEach decoder (frame :: frames) =
              (.ok piece :: (pushEach next frames).1, (pushEach next frames).2) := by
            rw [pushEach, hpush]
          have haccepted : accepted decoder (frame :: frames) = frame :: accepted next frames := by
            rw [accepted, hrun]
            rfl
          rw [haccepted, hrun, pushEach, hpush]
          simp only [ih next]
          rfl
      | error e next =>
          obtain rfl := push_eq_error hpush
          have hrun : pushEach next (frame :: frames) =
              (.error e :: (pushEach next frames).1, (pushEach next frames).2) := by
            rw [pushEach, hpush]
          have haccepted : accepted next (frame :: frames) = accepted next frames := by
            rw [accepted, hrun]
            rfl
          rw [haccepted, hrun, ih next]
          rfl

/-- Frames decode as their bytes do in one shot, for every cut and every limit, and refused
frames leave no trace. -/
theorem incremental_decoding_is_one_shot (hrate : rate ∈ supportedSampleRates)
    (limits : AudioLimits) :
    ∃ decoder, new rate limits = .ok decoder ∧
    (∀ frames m,
      (∃ pieces final, (collect push frames).run decoder = .ok pieces final ∧
      finish final = .ok m) ↔ MonoPcm.fromPcm16Le frames.flatten rate limits = .ok m) ∧
    (∀ frames m pieces final, (collect push frames).run decoder = .ok pieces final →
      finish final = .ok m → pieces = m.samples) ∧
    (∀ other bytes e other', (push bytes).run other = .error e other' → other' = other) ∧
    ∀ other frames,
      pushEach other (accepted other frames) =
      ((pushEach other frames).1.filter Except.isOk, (pushEach other frames).2) := by
  refine ⟨after rate limits [], new_ok hrate limits, fun frames m => ⟨?_, ?_⟩, ?_,
    fun _ _ _ _ => push_eq_error,
    pushEach_accepted⟩
  · rintro ⟨pieces, final, hrun, hfinish⟩
    obtain ⟨rfl, hadmits⟩ := collect_push_eq_ok (by decide) hrun
    obtain ⟨heven, hnew⟩ := finish_after_eq_ok.mp hfinish
    rw [List.nil_append] at heven hnew hadmits
    have hne : frames.flatten ≠ [] := by
      intro hnil
      rw [hnil] at hnew
      obtain ⟨e, herror⟩ := MonoPcm.new_finite_nil rate
      exact absurd (herror.symm.trans hnew) (by simp)
    have hframes : frames ≠ [] := by
      rintro rfl
      exact hne rfl
    have hdecoded : decodePcm16 frames.flatten ≠ [] :=
      fun h => hne ((decodePcm16_eq_nil heven).mp h)
    rw [MonoPcm.new_finite hrate hdecoded (decodePcm16_in_range _)] at hnew
    cases hnew
    exact MonoPcm.fromPcm16Le_eq_ok.mpr ⟨hrate, hne, heven, hadmits hframes, rfl, rfl⟩
  · intro hone
    obtain ⟨_, hne, heven, hadmits, hm, hsamples⟩ := MonoPcm.fromPcm16Le_eq_ok.mp hone
    refine ⟨_, _, run_collect_push hadmits, finish_after_eq_ok.mpr ⟨heven, ?_⟩⟩
    have hdecoded : decodePcm16 frames.flatten ≠ [] :=
      fun h => hne ((decodePcm16_eq_nil heven).mp h)
    rw [List.nil_append, MonoPcm.new_finite hrate hdecoded (decodePcm16_in_range _)]
    exact congrArg Except.ok (MonoPcm.ext hm.symm hsamples.symm)
  · intro frames m pieces final hrun hfinish
    obtain ⟨rfl, hadmits⟩ := collect_push_eq_ok (by decide) hrun
    have hframes : frames ≠ [] := by
      rintro rfl
      obtain ⟨e, herror⟩ := MonoPcm.new_finite_nil rate
      exact absurd (herror.symm.trans (finish_after_eq_ok.mp hfinish).2) (by simp)
    rw [run_collect_push (hadmits hframes)] at hrun
    cases hrun
    obtain ⟨_, _, _, _, hsamples⟩ := MonoPcm.new_eq_ok.mp (finish_after_eq_ok.mp hfinish).2
    rw [hsamples, F32.map_value_finite]
    rfl

/-- Two bytes in two frames, with an empty one between them. -/
theorem a_split_sample_decodes :
    ∃ decoder, new 8000 ⟨2, 1000, by decide, by decide⟩ = .ok decoder ∧
    ∃ pieces final m, (collect push [[0], [], [64]]).run decoder = .ok pieces final ∧
    finish final = .ok m ∧ pieces = m.samples := by
  have hrate : 8000 ∈ supportedSampleRates := by decide
  obtain ⟨decoder, hnew, hiff, hsamples, _⟩ :=
    incremental_decoding_is_one_shot hrate ⟨2, 1000, by decide, by decide⟩
  have hone : MonoPcm.fromPcm16Le [0, 64] 8000 ⟨2, 1000, by decide, by decide⟩ =
      .ok ⟨8000, decodePcm16 [0, 64], by decide, by decide, decodePcm16_in_range _⟩ :=
    MonoPcm.fromPcm16Le_eq_ok.mpr ⟨by decide, by decide, by decide, by decide, rfl, rfl⟩
  obtain ⟨pieces, final, hrun, hfinish⟩ := (hiff [[0], [], [64]] _).mpr hone
  exact ⟨decoder, hnew, pieces, final, _, hrun, hfinish, hsamples _ _ _ _ hrun hfinish⟩

end IncrementalPcm16

end ImpossibleVoice.Audio

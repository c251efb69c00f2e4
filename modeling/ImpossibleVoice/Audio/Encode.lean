import ImpossibleVoice.Audio.Wav

namespace ImpossibleVoice.Audio

open Lib

def MonoPcm.toWavPcm16 (m : MonoPcm) : Except AudioError (List UInt8) := do
  let pcm := m.toPcm16Le
  let dataLen ← okOr (tryNarrow 32 pcm.length) "WAV output is too large"
  let riffLen ← okOr (checkedAdd 32 dataLen 36) "WAV output is too large"
  let byteRate ← okOr (checkedMul 32 m.sampleRate 2) "WAV output is too large"
  pure (riffTag ++ toLe 4 riffLen ++ waveTag ++ fmtTag ++ toLe 4 16 ++ toLe 2 1 ++ toLe 2 1 ++
    toLe 4 m.sampleRate ++ toLe 4 byteRate ++ toLe 2 2 ++ toLe 2 16 ++ dataTag ++ toLe 4 dataLen ++
      pcm)

def formatPayload (rate : Nat) : List UInt8 :=
  toLe 2 1 ++ toLe 2 1 ++ toLe 4 rate ++ toLe 4 (rate * 2) ++ toLe 2 2 ++ toLe 2 16

theorem formatPayload_length (rate : Nat) : (formatPayload rate).length = 16 := by
  simp only [formatPayload, List.length_append, toLe_length]

def formatChunk (rate : Nat) : Chunk :=
  ⟨fmtTag, formatPayload rate, rfl, by rw [formatPayload_length]; omega⟩

def dataChunk (pcm : List UInt8) (h : pcm.length < 2 ^ 32) : Chunk := ⟨dataTag, pcm, rfl, h⟩

theorem formatChunk_encode (rate : Nat) :
    (formatChunk rate).encode = fmtTag ++ (toLe 4 16 ++ formatPayload rate) := by
  rw [Chunk.encode, formatChunk, formatPayload_length]

theorem formatChunk_length (rate : Nat) : (formatChunk rate).encode.length = 24 := by
  rw [Chunk.encode_length, formatChunk, formatPayload_length]

theorem dataChunk_encode (pcm : List UInt8) (h : pcm.length < 2 ^ 32) :
    (dataChunk pcm h).encode = dataTag ++ (toLe 4 pcm.length ++ pcm) := rfl

theorem dataChunk_length (pcm : List UInt8) (h : pcm.length < 2 ^ 32) :
    (dataChunk pcm h).encode.length = 8 + pcm.length := (dataChunk pcm h).encode_length

/-- The two chunks, neither of which needs a pad byte. -/
theorem written_chunks (rate : Nat) {pcm : List UInt8} (h : pcm.length < 2 ^ 32)
    (heven : pcm.length % 2 = 0) :
    Chunks ((formatChunk rate).encode ++ (dataChunk pcm h).encode)
      [formatChunk rate, dataChunk pcm h] := by
  have hdata := Chunks.next (dataChunk pcm h) [] heven.symm Chunks.done
  rw [List.nil_append, List.append_nil] at hdata
  exact Chunks.next (formatChunk rate) [] (by rw [formatChunk, formatPayload_length]; rfl) hdata

theorem firstPayload_written_format (rate : Nat) {pcm : List UInt8} (h : pcm.length < 2 ^ 32) :
    firstPayload fmtTag [formatChunk rate, dataChunk pcm h] = some (formatPayload rate) :=
  (firstPayload_cons ..).trans (if_pos rfl)

theorem firstPayload_written_data (rate : Nat) {pcm : List UInt8} (h : pcm.length < 2 ^ 32) :
    firstPayload dataTag [formatChunk rate, dataChunk pcm h] = some pcm := by
  have hid : (formatChunk rate).id ≠ dataTag := fmtTag_ne_dataTag
  rw [firstPayload_cons, if_neg hid]
  exact (firstPayload_cons ..).trans (if_pos rfl)

theorem leField_skip {field rest : List UInt8} {start len : Nat} (h : field.length ≤ start) :
    leField (field ++ rest) start len = leField rest (start - field.length) len := by
  rw [leField, leField, List.drop_append, List.drop_of_length_le h, List.nil_append]

theorem leField_here {len n : Nat} (h : n < 256 ^ len) (rest : List UInt8) :
    leField (toLe len n ++ rest) 0 len = n := by
  rw [leField, List.drop_zero, List.take_left' (toLe_length len n), fromLe_toLe h]

theorem formatPayload_describes {rate : Nat} (h : rate ∈ supportedSampleRates) :
    DescribesPcm16 (formatPayload rate) rate := by
  have hb := supported_bounds h
  have hrate : rate < 4294967296 := by omega
  have hbyteRate : rate * 2 < 4294967296 := by omega
  have hbits : toLe 2 16 = toLe 2 16 ++ [] := (List.append_nil _).symm
  refine ⟨(formatPayload_length rate).ge, ?_, ?_, ?_, ?_, ?_, ?_, h⟩ <;>
    rw [formatPayload, hbits] <;>
    simp only [List.append_assoc, leField_skip, leField_here, toLe_length, hrate, hbyteRate,
      Nat.reduceLeDiff, Nat.reduceSub, Nat.reduceLT, Nat.reducePow, Nat.le_refl, Nat.sub_self]
  omega

def wavFile (m : MonoPcm) (h : m.toPcm16Le.length < 2 ^ 32) : List UInt8 :=
  riffTag ++ (toLe 4 (m.toPcm16Le.length + 36) ++ (waveTag ++
    ((formatChunk m.sampleRate).encode ++ (dataChunk m.toPcm16Le h).encode)))

theorem toWavPcm16_ok (m : MonoPcm) (h : m.toPcm16Le.length < 2 ^ 32)
    (hriff : m.toPcm16Le.length + 36 < 2 ^ 32) : m.toWavPcm16 = .ok (wavFile m h) := by
  have hb := supported_bounds m.rate_supported
  simp only [MonoPcm.toWavPcm16, tryNarrow_of_lt h, checkedAdd_of_lt hriff,
    checkedMul_of_lt (show m.sampleRate * 2 < 2 ^ 32 by omega), okOr_some, bind, Except.bind, pure,
      Except.pure,
    wavFile, formatChunk_encode, dataChunk_encode, formatPayload, List.append_assoc]

theorem fromWav_of_toWavPcm16 (m : MonoPcm) (limits : AudioLimits)
    (hriff : m.toPcm16Le.length + 36 < 2 ^ 32)
    (hbytes : m.toPcm16Le.length + 44 ≤ limits.maxEncodedBytes.toNat)
    (hduration : limits.maxDurationMs.toNat * 48000 < 2 ^ 64) :
    MonoPcm.fromWav (wavFile m (by omega)) limits =
      MonoPcm.fromPcm16Le m.toPcm16Le m.sampleRate limits := by
  have h : m.toPcm16Le.length < 2 ^ 32 := by omega
  rw [wavFile]
  have heven : m.toPcm16Le.length % 2 = 0 := by rw [toPcm16Le_length]; omega
  have hchunks := written_chunks m.sampleRate h heven
  generalize hbody : (formatChunk m.sampleRate).encode ++ (dataChunk m.toPcm16Le h).encode =
    body at hchunks ⊢
  have hlen : body.length = m.toPcm16Le.length + 32 := by
    rw [← hbody, List.length_append, formatChunk_length, dataChunk_length]
    omega
  have htag : riffTag.length = 4 := rfl
  have hsize := toLe_length 4 (m.toPcm16Le.length + 36)
  have hwave : waveTag.length = 4 := rfl
  have hcontainer :
      Container (riffTag ++ (toLe 4 (m.toPcm16Le.length + 36) ++ (waveTag ++ body))) limits := by
    have htotal : (riffTag ++ (toLe 4 (m.toPcm16Le.length + 36) ++ (waveTag ++ body))).length =
        m.toPcm16Le.length + 44 := by
      simp only [List.length_append, htag, hsize, hwave, hlen]
      omega
    constructor
    · omega
    · exact List.take_left' htag
    · rw [← List.append_assoc, List.drop_left' (by rw [List.length_append, htag, hsize]),
        List.take_left' hwave]
    · exact AudioLimits.admitAudio_ok ⟨by omega, by rwa [Nat.mul_comm], by omega⟩
    · rw [leField_skip htag.le, htag, leField_here (by omega)]
      omega
  have hdrop : (riffTag ++ (toLe 4 (m.toPcm16Le.length + 36) ++ (waveTag ++ body))).drop 12 =
      body := by
    rw [← List.append_assoc, ← List.append_assoc,
      List.drop_left' (by simp only [List.length_append, htag, hsize, hwave])]
  rw [← hdrop] at hchunks
  exact fromWav_of_chunks hcontainer hchunks (firstPayload_written_format _ h)
    (formatPayload_describes m.rate_supported) (firstPayload_written_data _ h)

/-- The round trip through WAV and through raw PCM16. -/
theorem pcm16_round_trips_through_wav :
    (∀ m : MonoPcm, 2 * m.samples.length + 36 ≤ 2 ^ 32 - 1 →
      ∃ wav, m.toWavPcm16 = .ok wav ∧
      ∀ limits : AudioLimits, 2 * m.samples.length + 44 ≤ limits.maxEncodedBytes.toNat →
      limits.maxDurationMs.toNat * 48000 < 2 ^ 64 →
      MonoPcm.fromWav wav limits = MonoPcm.fromPcm16Le m.toPcm16Le m.sampleRate limits) ∧
    ∀ (pcm : List UInt8) (rate : Nat) (limits : AudioLimits) (m : MonoPcm),
      MonoPcm.fromPcm16Le pcm rate limits = .ok m →
    m.toPcm16Le = pcm ∧
    (2 * m.samples.length + 36 ≤ 2 ^ 32 - 1 →
      2 * m.samples.length + 44 ≤ limits.maxEncodedBytes.toNat →
      limits.maxDurationMs.toNat * 48000 < 2 ^ 64 →
      ∃ wav, m.toWavPcm16 = .ok wav ∧ MonoPcm.fromWav wav limits = .ok m) := by
  refine ⟨fun m hsize => ?_,
    fun pcm rate limits m hm => ⟨toPcm16Le_fromPcm16Le hm, fun hsize hbytes hduration => ?_⟩⟩
  · have hriff : m.toPcm16Le.length + 36 < 2 ^ 32 := by rw [toPcm16Le_length]; omega
    refine ⟨_, toWavPcm16_ok m (by omega) hriff, fun limits hbytes hduration => ?_⟩
    exact fromWav_of_toWavPcm16 m limits hriff (by rw [toPcm16Le_length]; exact hbytes) hduration
  · have hriff : m.toPcm16Le.length + 36 < 2 ^ 32 := by rw [toPcm16Le_length]; omega
    refine ⟨_, toWavPcm16_ok m (by omega) hriff, ?_⟩
    rw [fromWav_of_toWavPcm16 m limits hriff (by rw [toPcm16Le_length]; exact hbytes) hduration,
      toPcm16Le_fromPcm16Le hm, (MonoPcm.fromPcm16Le_eq_ok.mp hm).2.2.2.2.1, hm]

end ImpossibleVoice.Audio

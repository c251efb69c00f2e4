import ImpossibleVoice.Audio.Encode
import ImpossibleVoice.Server.Grpc
import ImpossibleVoice.Server.Transports

namespace ImpossibleVoice

open Lib Audio Tts

namespace Tts

structure TransportChunk where
  samples : List ℚ
  finalChunk : Bool
deriving DecidableEq

def Synthesis.wav (synthesis : Synthesis) : Except TtsError (List UInt8) :=
  synthesis.audio.toWavPcm16.mapError fun _ => .output

/-- The chunk bound is not zero, and counted as one more than its predecessor. -/
def Synthesis.transportChunks (synthesis : Synthesis) : List TransportChunk :=
  (chunks (synthesis.maxChunkSamples - 1) synthesis.audio.samples).mapIdx fun index samples =>
    ⟨samples, decide (index + 1 = divCeil synthesis.audio.samples.length synthesis.maxChunkSamples)⟩

end Tts

namespace Server

inductive AudioEncoding
  | unspecified
  | wavPcm16
  | rawPcm16
deriving DecidableEq

def encodeSynthesis (synthesis : Synthesis) : AudioEncoding → Except Status (List UInt8)
  | .wavPcm16 => synthesis.wav.mapError fun _ => ⟨.internal, "WAV encoding failed"⟩
  | .rawPcm16 => .ok synthesis.pcm16
  | .unspecified => .error ⟨.invalidArgument, "output encoding is required"⟩

structure AudioChunk where
  audio : List UInt8
  sequence : Nat
  final : Bool
  sampleRate : Nat
  channels : Nat
  chunking : String
deriving DecidableEq

def audioChunk (rate count index : Nat) (audio : List UInt8) : AudioChunk :=
  ⟨audio, index, decide (index + 1 = count), rate, 1, "post_synthesis_transport"⟩

def sendChunks (rate count : Nat) : Nat → List (List UInt8) → List (Except Status AudioChunk)
  | _, [] => []
  | index, audio :: rest =>
    if index < 2 ^ 32 then
      .ok (audioChunk rate count index audio) :: sendChunks rate count (index + 1) rest
    else [.error ⟨.internal, "chunk sequence overflow"⟩]

/-- The response of `stream_synthesize`, to a client that reads it all. -/
def streamSynthesize (synthesis : Synthesis) : List (Except Status AudioChunk) :=
  sendChunks synthesis.audio.sampleRate (divCeil synthesis.pcm16.length ttsChunkBytes) 0
    (chunks (ttsChunkBytes - 1) synthesis.pcm16)

inductive ResponseFormat
  | wav
  | pcm
deriving DecidableEq

/-- The body of a response of `speech`. -/
def speechBody (synthesis : Synthesis) : ResponseFormat → Except VoiceBackendError (List UInt8)
  | .wav => synthesis.wav.mapError fun _ => .engine
  | .pcm => .ok synthesis.pcm16

theorem sendChunks_eq (rate count index : Nat) (pieces : List (List UInt8))
    (h : index + pieces.length ≤ 2 ^ 32) :
    sendChunks rate count index pieces =
      (pieces.mapIdx fun i audio => audioChunk rate count (index + i) audio).map .ok := by
  induction pieces generalizing index with
  | nil => rfl
  | cons audio rest ih =>
      rw [List.length_cons] at h
      rw [sendChunks, if_pos (by omega), ih (index + 1) (by omega), List.mapIdx_cons, List.map_cons]
      have hshift : (fun i audio => audioChunk rate count (index + 1 + i) audio) =
          fun i audio => audioChunk rate count (index + (i + 1)) audio := by
        funext i audio
        rw [Nat.add_assoc, Nat.add_comm 1]
      rw [hshift]
      rfl

/-- A list of chunks is numbered from zero, and its last one alone is marked. -/
structure Numbered (chunks : List AudioChunk) : Prop where
  nonempty : chunks ≠ []
  sequence : ∀ (index : Nat) (chunk : AudioChunk), chunks[index]? = some chunk →
    chunk.sequence = index
  final : ∀ (index : Nat) (chunk : AudioChunk), chunks[index]? = some chunk →
    (chunk.final = true ↔ index + 1 = chunks.length)

/-- The chunks of a synthesis are within its bound, and the last one alone is marked. -/
structure Bounded (bound : Nat) (chunks : List TransportChunk) : Prop where
  samples : ∀ chunk ∈ chunks, chunk.samples ≠ [] ∧ chunk.samples.length ≤ bound
  final : ∀ (index : Nat) (chunk : TransportChunk), chunks[index]? = some chunk →
    (chunk.finalChunk = true ↔ index + 1 = chunks.length)

theorem pcm16_length (synthesis : Synthesis) :
    synthesis.pcm16.length = 2 * synthesis.audio.samples.length :=
  toPcm16Le_length synthesis.audio

theorem pieces_wellFormed (synthesis : Synthesis) {piece : List UInt8}
    (h : piece ∈ chunks (ttsChunkBytes - 1) synthesis.pcm16) :
    piece ≠ [] ∧ piece.length ≤ 32768 ∧ 2 ∣ piece.length := by
  obtain ⟨hne, hle⟩ := chunk_bounds h
  exact ⟨hne, hle, chunk_dvd (by decide) (by rw [pcm16_length]; exact Nat.dvd_mul_right 2 _) h⟩

theorem streamSynthesize_eq (synthesis : Synthesis)
    (hcount : (chunks (ttsChunkBytes - 1) synthesis.pcm16).length ≤ 2 ^ 32) :
    streamSynthesize synthesis =
      ((chunks (ttsChunkBytes - 1) synthesis.pcm16).mapIdx
      (audioChunk synthesis.audio.sampleRate
      (chunks (ttsChunkBytes - 1) synthesis.pcm16).length)).map .ok := by
  have hlength := chunks_length (ttsChunkBytes - 1) synthesis.pcm16
  rw [streamSynthesize, sendChunks_eq _ _ _ _ (by omega),
    show divCeil synthesis.pcm16.length ttsChunkBytes = _ from hlength.symm]
  congr 2
  funext i audio
  rw [Nat.zero_add]

theorem mapIdx_numbered {pieces : List (List UInt8)} (hne : pieces ≠ []) (rate : Nat) :
    Numbered (pieces.mapIdx (audioChunk rate pieces.length)) := by
  have hget (index : Nat) (chunk : AudioChunk)
      (h : (pieces.mapIdx (audioChunk rate pieces.length))[index]? = some chunk) :
      ∃ audio, chunk = audioChunk rate pieces.length index audio := by
    rw [List.getElem?_mapIdx] at h
    obtain ⟨audio, -, rfl⟩ := Option.map_eq_some_iff.mp h
    exact ⟨audio, rfl⟩
  refine ⟨?_, fun index chunk h => ?_, fun index chunk h => ?_⟩
  · intro hnil
    rw [List.mapIdx_eq_nil_iff] at hnil
    exact hne hnil
  · obtain ⟨audio, rfl⟩ := hget index chunk h
    rfl
  · obtain ⟨audio, rfl⟩ := hget index chunk h
    rw [List.length_mapIdx]
    exact decide_eq_true_iff

theorem map_mapIdx_self {α β : Type} {f : Nat → α → β} {g : β → α} (h : ∀ i x, g (f i x) = x)
    (xs : List α) : (xs.mapIdx f).map g = xs := by
  apply List.ext_getElem?
  intro i
  rw [List.getElem?_map, List.getElem?_mapIdx, Option.map_map]
  cases xs[i]? with
  | none => rfl
  | some x => exact congrArg some (h i x)

theorem mem_sendChunks {rate count index : Nat} {pieces : List (List UInt8)} {chunk : AudioChunk}
    (h : .ok chunk ∈ sendChunks rate count index pieces) : chunk.audio ∈ pieces := by
  induction pieces generalizing index with
  | nil => exact absurd h List.not_mem_nil
  | cons audio rest ih =>
      rw [sendChunks] at h
      split at h
      · obtain h | h := List.mem_cons.mp h
        · cases h
          exact List.mem_cons_self
        · exact List.mem_cons_of_mem _ (ih h)
      · exact absurd (List.mem_singleton.mp h) (by simp)

theorem transportChunks_bounded (synthesis : Synthesis) :
    (synthesis.transportChunks.map TransportChunk.samples).flatten = synthesis.audio.samples ∧
      Bounded synthesis.maxChunkSamples synthesis.transportChunks := by
  have hbound : synthesis.maxChunkSamples - 1 + 1 = synthesis.maxChunkSamples :=
    Nat.sub_add_cancel (Nat.pos_of_ne_zero synthesis.chunk_ne_zero)
  have hcount := chunks_length (synthesis.maxChunkSamples - 1) synthesis.audio.samples
  rw [hbound] at hcount
  refine ⟨?_, fun chunk hmem => ?_, fun index chunk h => ?_⟩
  · rw [Synthesis.transportChunks, map_mapIdx_self fun _ _ => rfl, chunks_flatten]
  · obtain ⟨index, hindex, rfl⟩ := List.mem_mapIdx.mp hmem
    obtain ⟨hne, hle⟩ := chunk_bounds (List.getElem_mem hindex)
    rw [hbound] at hle
    exact ⟨hne, hle⟩
  · rw [Synthesis.transportChunks, List.getElem?_mapIdx] at h
    obtain ⟨samples, -, rfl⟩ := Option.map_eq_some_iff.mp h
    rw [Synthesis.transportChunks, List.length_mapIdx, hcount]
    exact decide_eq_true_iff

theorem wav_carries (synthesis : Synthesis) (h : synthesis.pcm16.length + 36 < 2 ^ 32) :
    ∃ file cs, synthesis.wav = .ok file ∧ Chunks (file.drop 12) cs ∧
    firstPayload dataTag cs = some synthesis.pcm16 := by
  have hlt : synthesis.audio.toPcm16Le.length < 2 ^ 32 :=
    Nat.lt_of_le_of_lt (Nat.le_add_right _ 36) h
  have heven : synthesis.audio.toPcm16Le.length % 2 = 0 := by
    rw [toPcm16Le_length]
    omega
  refine ⟨wavFile synthesis.audio hlt, _, ?_, written_chunks synthesis.audio.sampleRate hlt heven,
    firstPayload_written_data _ hlt⟩
  rw [Synthesis.wav, toWavPcm16_ok synthesis.audio hlt h]
  rfl

theorem run_publish_sent {endpoint : Endpoint} (hwire : ∀ n, endpoint.wire n = .sent)
    {c : Connection} (hlive : c.tokenCancelled = false) (synthesis : Synthesis) :
    ∃ c', (endpoint.publish synthesis).run c = .ok () c' ∧
    c'.frames =
      c.frames ++ .text (endpoint.metadataEvent synthesis) ::
      ((chunks (ttsChunkBytes - 1) synthesis.pcm16).map .binary ++
      [.text (endpoint.event .speechCompleted)]) := by
  refine ⟨((((c.sent (.text (endpoint.metadataEvent synthesis))).sentAll
    ((chunks (ttsChunkBytes - 1) synthesis.pcm16).map .binary)).complete).sent
      (.text (endpoint.event .speechCompleted))), ?_, ?_⟩
  · rw [Endpoint.publish, run_bind_of_ok (run_gets _ _),
      run_bind_of_ok (run_failIf_neg (by rw [hlive]; decide) _ _),
      Endpoint.sendEvent, run_bind_of_ok (Endpoint.run_send_sent hwire _ _),
      run_bind_of_ok (Endpoint.run_sendAll_sent hwire _ _), run_bind_of_ok (EStateM.run_modify _ _),
        Endpoint.sendEvent,
      Endpoint.run_send_sent hwire]
  · simp [Connection.sent, Connection.sentAll, Connection.complete]

/-- All transports deliver the same audio, in well-formed chunks. -/
theorem transports_deliver_the_same_audio (synthesis : Synthesis) :
    synthesis.pcm16.length = 2 * synthesis.audio.samples.length ∧
    speechBody synthesis .pcm = .ok synthesis.pcm16 ∧
      encodeSynthesis synthesis .rawPcm16 = .ok synthesis.pcm16 ∧
    (2 * synthesis.audio.samples.length + 36 ≤ 4294967295 →
      ∃ file cs, speechBody synthesis .wav = .ok file ∧
      encodeSynthesis synthesis .wavPcm16 = .ok file ∧ Chunks (file.drop 12) cs ∧
      firstPayload dataTag cs = some synthesis.pcm16) ∧
    (∀ chunk, .ok chunk ∈ streamSynthesize synthesis →
      chunk.audio ≠ [] ∧ chunk.audio.length ≤ 32768 ∧ 2 ∣ chunk.audio.length) ∧
    ((chunks (ttsChunkBytes - 1) synthesis.pcm16).length ≤ 2 ^ 32 → ∃ sent : List AudioChunk,
      streamSynthesize synthesis = sent.map .ok ∧
        (sent.map AudioChunk.audio).flatten = synthesis.pcm16 ∧ Numbered sent) ∧
    (∀ (endpoint : Endpoint) (c : Connection), (∀ n, endpoint.wire n = .sent) →
      c.tokenCancelled = false →
      ∃ (c' : Connection) (pieces : List (List UInt8)),
        (endpoint.publish synthesis).run c = .ok () c' ∧
        c'.frames = c.frames ++ .text (endpoint.metadataEvent synthesis) ::
          (pieces.map .binary ++ [.text (endpoint.event .speechCompleted)]) ∧
        pieces.flatten = synthesis.pcm16 ∧
        ∀ piece ∈ pieces, piece ≠ [] ∧ piece.length ≤ 32768 ∧ 2 ∣ piece.length) ∧
    (synthesis.transportChunks.map TransportChunk.samples).flatten = synthesis.audio.samples ∧
    Bounded synthesis.maxChunkSamples synthesis.transportChunks := by
  refine ⟨pcm16_length synthesis, rfl, rfl, fun hriff => ?_,
    fun chunk h => pieces_wellFormed synthesis (mem_sendChunks h),
    fun hcount => ?_, fun endpoint c hwire hlive => ?_, transportChunks_bounded synthesis⟩
  · obtain ⟨file, cs, hwav, hcs, hdata⟩ := wav_carries synthesis (by rw [pcm16_length]; omega)
    exact ⟨file, cs, by rw [speechBody, hwav]; rfl, by rw [encodeSynthesis, hwav]; rfl, hcs, hdata⟩
  · refine ⟨_, streamSynthesize_eq synthesis hcount, ?_,
      mapIdx_numbered (chunks_ne_nil synthesis.pcm16_ne_nil) _⟩
    rw [map_mapIdx_self fun _ _ => rfl, chunks_flatten]
  · obtain ⟨c', hrun, hframes⟩ := run_publish_sent hwire hlive synthesis
    exact ⟨c', _, hrun, hframes, chunks_flatten _ _, fun piece h => pieces_wellFormed synthesis h⟩

end Server

end ImpossibleVoice

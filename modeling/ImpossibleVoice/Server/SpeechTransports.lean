import ImpossibleVoice.Server.Mcp

namespace ImpossibleVoice.Server

open Lib Audio Tts

variable {ε α : Type}

def published (format : ResponseFormat) (synthesis : Synthesis) : Option (List UInt8) :=
  (speechBody synthesis format).toOption

def Speaks (backend : BatchBackend) (text : String) (speed : F32) (lost : ε)
    (convert : VoiceBackendError → ε) (answer : Synthesis → Except ε α) (handler : Handler ε α) :
    Prop :=
  ∀ calls, handler.run calls =
    match (joined lost convert (backend.synthesize calls text speed)).bind answer with
    | .ok a => .ok a (calls ++ [.synthesize text speed])
    | .error e => .error e (calls ++ [.synthesize text speed])

variable {backend : BatchBackend} {text : String} {speed : F32} {lost : ε}
  {convert : VoiceBackendError → ε}

theorem speaks_of_rest {answer : Synthesis → Except ε α} {rest : Synthesis → Handler ε α}
    (h : ∀ synthesis, rest synthesis = fromExcept (answer synthesis)) :
    Speaks backend text speed lost convert answer
      (spawnBlocking (.synthesize text speed) (fun calls => backend.synthesize calls text speed)
      lost convert >>= rest) := by
  intro calls
  have hrun :=
    run_spawnBlocking (.synthesize text speed) (fun calls => backend.synthesize calls text speed)
      lost convert calls
  cases hjoined : joined lost convert (backend.synthesize calls text speed) with
  | error e =>
      rw [hjoined] at hrun
      rw [run_bind_of_error hrun]
      rfl
  | ok synthesis =>
      rw [hjoined] at hrun
      rw [run_bind_of_ok hrun, h]
      show _ = match answer synthesis with | .ok a => _ | .error e => _
      cases answer synthesis <;> rfl

theorem Speaks.after {β : Type} {answer : Synthesis → Except ε α} {check : Except ε β}
    {handler : β → Handler ε α} {b : β} (hcheck : check = .ok b)
    (h : Speaks backend text speed lost convert answer (handler b)) :
    Speaks backend text speed lost convert answer (fromExcept check >>= handler) := by
  intro calls
  rw [hcheck, run_bind_of_ok (run_fromExcept_ok b calls)]
  exact h calls

def spokenOverHttp (format : ResponseFormat) (synthesis : Synthesis) :
    Except ApiError SpeechResponse :=
  match published format synthesis with
  | some body =>
      .ok ⟨format.contentType, toString synthesis.audio.sampleRate, "1", "pcm_s16le", body⟩
  | none => .error (.ofBackend .engine)

def nameOf : ResponseFormat → String
  | .wav => "wav"
  | .pcm => "pcm"

theorem ofString_nameOf (format : ResponseFormat) :
    ResponseFormat.ofString (nameOf format) = some format := by
  cases format <;> rfl

def Curated (request : SpeechRequest) : Prop :=
  (∀ model ∈ request.model, model = "impossible-voice-tts") ∧
    ∀ voice ∈ request.voice, voice = "kristin"

theorem any_ne_eq_false {value : Option String} {name : String} (h : ∀ s ∈ value, s = name) :
    value.any (fun s => s != name) = false := by
  cases value with
  | none => rfl
  | some s => simp [h s rfl]

theorem speechBody_cases (format : ResponseFormat) (synthesis : Synthesis) :
    (∃ body, speechBody synthesis format = .ok body ∧ published format synthesis = some body) ∨
      speechBody synthesis format = .error .engine ∧ published format synthesis = none := by
  cases hbody : speechBody synthesis format with
  | ok body => exact .inl ⟨body, rfl, by rw [published, hbody]; rfl⟩
  | error e =>
      refine .inr ⟨?_, by rw [published, hbody]; rfl⟩
      cases format with
      | pcm => cases hbody
      | wav =>
          rw [speechBody] at hbody
          cases hwav : synthesis.wav with
          | ok bytes => rw [hwav] at hbody; cases hbody
          | error e => rw [hwav] at hbody; cases hbody; rfl

theorem speech_speaks {request : SpeechRequest} {format : ResponseFormat}
    (hcurated : Curated request) (hformat : request.responseFormat = nameOf format) :
    Speaks backend request.input request.speed (.ofBackend .engine) .ofBackend
      (spokenOverHttp format) (speech backend request) := by
  have hguard : ¬ (request.model.any (fun model => model != "impossible-voice-tts") = true ∨
      request.voice.any (fun voice => voice != "kristin") = true) := by
    rw [any_ne_eq_false hcurated.1, any_ne_eq_false hcurated.2]
    decide
  have hspeaks :
      Speaks backend request.input request.speed (ApiError.ofBackend .engine) .ofBackend
      (spokenOverHttp format) (do
      let format ← fromExcept (orFail (ResponseFormat.ofString request.responseFormat)
        (.invalid "response_format must be wav or pcm"))
      let synthesis ← spawnBlocking (.synthesize request.input request.speed)
        (fun calls => backend.synthesize calls request.input request.speed)
          (.ofBackend .engine) .ofBackend
      let body ← fromExcept ((speechBody synthesis format).mapError .ofBackend)
      pure ⟨format.contentType, toString synthesis.audio.sampleRate, "1", "pcm_s16le", body⟩) := by
    refine Speaks.after (b := format) (by rw [hformat, ofString_nameOf]; rfl)
      (speaks_of_rest fun synthesis => ?_)
    rw [spokenOverHttp]
    obtain ⟨body, hbody, hpublished⟩ | ⟨hbody, hpublished⟩ := speechBody_cases format synthesis
    · rw [hbody, hpublished]
      rfl
    · rw [hbody, hpublished]
      rfl
  intro calls
  rw [speech, run_bind_of_ok (run_failIf_neg hguard _ calls)]
  exact hspeaks calls

def encodingFor : ResponseFormat → AudioEncoding
  | .wav => .wavPcm16
  | .pcm => .rawPcm16

def wireEncoding : ResponseFormat → Int
  | .wav => 1
  | .pcm => 2

def spokenOverGrpc (format : ResponseFormat) (synthesis : Synthesis) :
    Except Status GrpcVoice.SynthesizeResponse :=
  match published format synthesis with
  | some body => .ok ⟨body, encodingFor format, synthesis.audio.sampleRate, 1⟩
  | none => .error ⟨.internal, "WAV encoding failed"⟩

theorem grpc_speaks (request : GrpcVoice.SynthesizeRequest) {format : ResponseFormat}
    (hencoding : request.encoding = wireEncoding format) :
    Speaks backend request.input (GrpcVoice.normalizeSpeed request.speed)
      ⟨.internal, "speech synthesis worker failed"⟩ mapBackendError (spokenOverGrpc format)
      (GrpcVoice.synthesize backend request) := by
  refine Speaks.after (b := encodingFor format) (by rw [hencoding]; cases format <;> rfl)
    (speaks_of_rest fun synthesis => ?_)
  rw [spokenOverGrpc]
  cases format with
  | pcm => rfl
  | wav =>
      rw [published, speechBody, encodingFor, encodeSynthesis]
      cases synthesis.wav <;> rfl

def toolFormat : ResponseFormat → String
  | .wav => "wav"
  | .pcm => "pcm16"

def mimeType : ResponseFormat → String
  | .wav => "audio/wav"
  | .pcm => "audio/pcm"

def spokenOverMcp (serde : Mcp.Serde) (format : ResponseFormat) (synthesis : Synthesis) :
    Except Mcp.RpcFailure Json :=
  match published format synthesis with
  | some body =>
    if Mcp.maxMcpAudioBytes < body.length then .error ⟨-32003, "tool result exceeds the MCP limit"⟩
    else .ok (Mcp.audioContent (mimeType format) (serde.base64.encode body))
  | none => .error Mcp.engineFailure

theorem mcp_speaks {serde : Mcp.Serde} {arguments : Json} {format : ResponseFormat}
    (h : Mcp.SynthesizeArguments.ofValue serde arguments = some ⟨text, speed, toolFormat format⟩) :
    Speaks backend text speed Mcp.engineFailure Mcp.mapBackendError (spokenOverMcp serde format)
      (Mcp.synthesize serde backend arguments) := by
  have hcheck : Mcp.toolSpeech serde arguments = .ok ⟨text, speed, toolFormat format⟩ := by
    rw [Mcp.toolSpeech, h]
    cases format <;> rfl
  refine Speaks.after hcheck (speaks_of_rest fun synthesis => ?_)
  congr 1
  rw [spokenOverMcp, Mcp.audioResult, Mcp.encodeTool, published]
  cases format with
  | pcm => rfl
  | wav =>
      have hwav : (Mcp.SynthesizeArguments.mk text speed (toolFormat .wav)).format = "wav" := rfl
      rw [if_pos hwav, speechBody]
      cases synthesis.wav <;> rfl

/-- Whatever is asked for, every transport has the backend say it just once, with
the same speed unless gRPC was given none, and publishes the same bytes of what it
gets back; a tool result that is too long is none. -/
theorem speech_transports_agree (backend : BatchBackend) (serde : Mcp.Serde) (text : String)
    (speed : F32) (format : ResponseFormat) (request : SpeechRequest) (hcurated : Curated request)
    (hinput : request.input = text) (hspeed : request.speed = speed)
    (hformat : request.responseFormat = nameOf format) (arguments : Json)
    (harguments : Mcp.SynthesizeArguments.ofValue serde arguments =
      some ⟨text, speed, toolFormat format⟩) :
    Speaks backend text speed (.ofBackend .engine) .ofBackend (spokenOverHttp format)
      (speech backend request) ∧
    Speaks backend text (GrpcVoice.normalizeSpeed speed)
      ⟨.internal, "speech synthesis worker failed"⟩ mapBackendError
      (spokenOverGrpc format) (GrpcVoice.synthesize backend ⟨text, speed, wireEncoding format⟩) ∧
    Speaks backend text speed Mcp.engineFailure Mcp.mapBackendError (spokenOverMcp serde format)
      (Mcp.synthesize serde backend arguments) ∧
    ∀ synthesis result, spokenOverMcp serde format synthesis = .ok result →
      ∃ body data,
        spokenOverHttp format synthesis =
        .ok ⟨format.contentType, toString synthesis.audio.sampleRate, "1", "pcm_s16le", body⟩ ∧
        spokenOverGrpc format synthesis =
          .ok ⟨body, encodingFor format, synthesis.audio.sampleRate, 1⟩ ∧
        result = Mcp.audioContent (mimeType format) data ∧
          serde.base64.decode data = some body := by
  subst hinput hspeed
  refine ⟨speech_speaks hcurated hformat, grpc_speaks _ rfl, mcp_speaks harguments,
    fun synthesis result hresult => ?_⟩
  rw [spokenOverMcp] at hresult
  cases hpublished : published format synthesis with
  | none =>
      rw [hpublished] at hresult
      cases hresult
  | some body =>
      rw [hpublished] at hresult
      simp only at hresult
      split at hresult
      · cases hresult
      · cases hresult
        refine ⟨body,
          _, by rw [spokenOverHttp, hpublished], by rw [spokenOverGrpc, hpublished], rfl, ?_⟩
        exact serde.base64.decode_encode body

theorem Speaks.run {answer : Synthesis → Except ε α} {handler : Handler ε α}
    {calls : List BatchCall} {synthesis : Synthesis} {a : α}
    (h : Speaks backend text speed lost convert answer handler)
    (hreply : backend.synthesize calls text speed = some (.ok synthesis))
    (ha : answer synthesis = .ok a) :
    handler.run calls = .ok a (calls ++ [.synthesize text speed]) := by
  rw [h calls, hreply,
    show (joined lost convert (some (.ok synthesis))).bind answer = answer synthesis from rfl, ha]

def fastSerde : Mcp.Serde := ⟨fun _ => none, fun _ => "", fun _ => .finite (3 / 2), Base64.standard⟩

def twoSamples : Synthesis :=
  ⟨⟨22050, [0, 1 / 2], by decide, by decide, by simp; norm_num⟩, 22050, by decide⟩

theorem pcm16_twoSamples : twoSamples.pcm16 = [0, 0, 0, 64] := by decide +kernel

def readySpeaker : BatchBackend := ⟨fun _ _ => none, fun _ _ _ => some (.ok twoSamples)⟩

def fastHello : Json :=
  .object
    [("text", .string "hello"), ("speed", .number (.float 0x3ff8000000000000)),
    ("format", .string "pcm16")]

/-- Raw PCM16 is asked for, and each transport gives the same two samples. -/
theorem a_fast_hello_is_spoken_alike :
    (speech readySpeaker
      ⟨"hello", .finite (3 / 2), "pcm", some "impossible-voice-tts", some "kristin"⟩).run [] =
      .ok ⟨"audio/pcm", "22050", "1", "pcm_s16le", [0, 0, 0, 64]⟩
      [.synthesize "hello" (.finite (3 / 2))] ∧
    (GrpcVoice.synthesize readySpeaker ⟨"hello", .finite (3 / 2), 2⟩).run [] =
      .ok ⟨[0, 0, 0, 64], .rawPcm16, 22050, 1⟩ [.synthesize "hello" (.finite (3 / 2))] ∧
    ∃ data,
      (Mcp.synthesize fastSerde readySpeaker fastHello).run [] =
      .ok (Mcp.audioContent "audio/pcm" data) [.synthesize "hello" (.finite (3 / 2))] ∧
    fastSerde.base64.decode data = some [0, 0, 0, 64] := by
  obtain ⟨hhttp, hgrpc, hmcp, hsame⟩ :=
    speech_transports_agree readySpeaker fastSerde "hello" (.finite (3 / 2)) .pcm
    ⟨"hello", .finite (3 / 2), "pcm", some "impossible-voice-tts", some "kristin"⟩
    ⟨fun _ h => by cases h; rfl, fun _ h => by cases h; rfl⟩ rfl rfl rfl fastHello rfl
  have hpublished : published .pcm twoSamples = some [0, 0, 0, 64] := by
    rw [← pcm16_twoSamples]
    rfl
  have hresult : spokenOverMcp fastSerde .pcm twoSamples =
      .ok (Mcp.audioContent "audio/pcm" (fastSerde.base64.encode [0, 0, 0, 64])) := by
    rw [spokenOverMcp, hpublished]
    rfl
  obtain ⟨body, data, hbody, hraw, hdata, hdecoded⟩ := hsame twoSamples _ hresult
  obtain rfl : body = [0, 0, 0, 64] := by
    rw [spokenOverHttp, hpublished] at hbody
    cases hbody
    rfl
  have hspeed : GrpcVoice.normalizeSpeed (.finite (3 / 2)) = .finite (3 / 2) := by decide +kernel
  rw [hspeed] at hgrpc
  obtain rfl : data = fastSerde.base64.encode [0, 0, 0, 64] := by
    cases hdata
    rfl
  exact ⟨hhttp.run rfl hbody, hgrpc.run rfl hraw, _, hmcp.run rfl hresult, hdecoded⟩

end ImpossibleVoice.Server

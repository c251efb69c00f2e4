import ImpossibleVoice.Server.Mcp

namespace ImpossibleVoice.Server

open Lib Audio

variable {ε α : Type}

inductive Recording
  | wav (bytes : List UInt8)
  | pcm16 (bytes : List UInt8) (rate : UInt32)

namespace Recording

def bytes : Recording → List UInt8
  | wav bytes | pcm16 bytes _ => bytes

def audio : Recording → Except AudioError MonoPcm
  | wav bytes => MonoPcm.fromWav bytes .default
  | pcm16 bytes rate => MonoPcm.fromPcm16Le bytes rate.toNat .default

def Declared (recording : Recording) (contentType : String) (explicitRate : Option Nat) : Prop :=
  match recording with
  | wav _ => IsWav contentType ∧ explicitRate = none
  | pcm16 _ rate =>
      IsRawPcm contentType ∧ explicitRate.or (parameterRate contentType) = some rate.toNat

def OverHttp (recording : Recording) (headers : AudioHeaders) : Prop :=
  ∃ contentType explicitRate, headers.contentType = some contentType ∧
    headerRate headers.audioSampleRate = .ok explicitRate ∧
      recording.Declared contentType explicitRate

def OverMultipart (recording : Recording) (fields : List Field) : Prop :=
  (∀ field ∈ fields, Acceptable field) ∧
    ∃ contentType, files fields = [(some contentType, recording.bytes)] ∧
    recording.Declared contentType (rates fields).getLast?

def overGrpc : Recording → GrpcVoice.TranscribeRequest
  | wav bytes => ⟨bytes, 1, 0⟩
  | pcm16 bytes rate => ⟨bytes, 2, rate⟩

def overMcp (serde : Mcp.Serde) (recording : Recording) : Mcp.TranscribeArguments :=
  match recording with
  | wav bytes => ⟨serde.base64.encode bytes, "wav", none⟩
  | pcm16 bytes rate => ⟨serde.base64.encode bytes, "pcm16", some rate.toNat⟩

end Recording

/-- The handler hands just this audio to the backend, once, and renders its
answer; a recording that is none is refused before that. -/
def Transcribes (backend : BatchBackend) (heard : Except AudioError MonoPcm) (Refusal : ε → Prop)
    (lost : ε) (convert : VoiceBackendError → ε) (render : String → α) (handler : Handler ε α) :
    Prop :=
  ∀ calls,
    match heard with
    | .error _ => ∃ e, handler.run calls = .error e calls ∧ Refusal e
    | .ok audio =>
      handler.run calls =
        match joined lost convert (backend.transcribe calls audio) with
        | .ok text => .ok (render text) (calls ++ [.transcribe audio])
        | .error e => .error e (calls ++ [.transcribe audio])

variable {backend : BatchBackend} {heard : Except AudioError MonoPcm}
  {Refusal : ε → Prop} {lost : ε}
  {convert : VoiceBackendError → ε} {render : String → α}

/-- Any handler that checks its input first and then waits for the backend. -/
theorem transcribes_of_check {check : Except ε MonoPcm} {e : ε}
    (hcheck : check = heard.mapError fun _ => e) (hrefusal : Refusal e) :
    Transcribes backend heard Refusal lost convert render (do
      let audio ← fromExcept check
      let text ← spawnBlocking (.transcribe audio)
          (fun calls => backend.transcribe calls audio) lost convert
      pure (render text)) := by
  intro calls
  subst hcheck
  cases heard with
  | error error =>
      exact ⟨e, run_bind_of_error (run_fromExcept_error e calls), hrefusal⟩
  | ok audio =>
      have hrun :=
        run_spawnBlocking (.transcribe audio) (fun calls => backend.transcribe calls audio)
          lost convert calls
      simp only
      rw [show (Except.ok audio).mapError (fun _ => e) = Except.ok audio from rfl,
        run_bind_of_ok (run_fromExcept_ok audio calls)]
      cases hjoined : joined lost convert (backend.transcribe calls audio) with
      | ok text =>
          rw [hjoined] at hrun
          rw [run_bind_of_ok hrun]
          rfl
      | error failure =>
          rw [hjoined] at hrun
          rw [run_bind_of_error hrun]

variable {serde : Mcp.Serde} {recording : Recording} {contentType : String}
  {explicitRate : Option Nat}

theorem not_isWav_of_isRawPcm (h : IsRawPcm contentType) : ¬ IsWav contentType := by
  rcases h with h | h <;> rintro (h' | h') <;> exact absurd (h.symm.trans h') (by decide)

theorem decodeAudio_declared (h : recording.Declared contentType explicitRate) :
    ∃ message,
      decodeAudio contentType explicitRate recording.bytes = recording.audio.mapError fun _ =>
      .invalid message := by
  cases recording with
  | wav bytes =>
      obtain ⟨hwav, rfl⟩ := h
      refine ⟨"WAV audio is invalid", ?_⟩
      rw [decodeAudio, if_pos hwav, if_neg (by simp)]
      rfl
  | pcm16 bytes rate =>
      obtain ⟨hraw, hrate⟩ := h
      refine ⟨"raw PCM16 audio is invalid", ?_⟩
      rw [decodeAudio, if_neg (not_isWav_of_isRawPcm hraw), if_pos hraw, hrate]
      rfl

def ApiError.Invalid (e : ApiError) : Prop := e.status = 400 ∧ e.code = .invalidRequest

theorem httpTranscription {check : Except ApiError MonoPcm} {message : String}
    (hcheck : check = heard.mapError fun _ => .invalid message) :
    Transcribes backend heard ApiError.Invalid (.ofBackend .engine) .ofBackend id
      (fromExcept check >>= transcribeOverHttp backend) := by
  have h :
      Transcribes backend heard ApiError.Invalid (ApiError.ofBackend .engine) .ofBackend id _ :=
    transcribes_of_check hcheck ⟨rfl, rfl⟩
  have hhttp : transcribeOverHttp backend = fun audio =>
      spawnBlocking (.transcribe audio) (fun calls => backend.transcribe calls audio)
        (.ofBackend .engine) .ofBackend := rfl
  simpa [hhttp] using h

theorem nativeTranscription_transcribes {headers : AudioHeaders} (h : recording.OverHttp headers) :
    Transcribes backend recording.audio ApiError.Invalid (.ofBackend .engine) .ofBackend id
      (nativeTranscription backend headers recording.bytes) := by
  obtain ⟨contentType, explicitRate, hcontent, hrate, hdeclared⟩ := h
  obtain ⟨message, hdecode⟩ := decodeAudio_declared hdeclared
  have hcheck : decodeHttpAudio headers recording.bytes = recording.audio.mapError fun _ =>
      .invalid message := by
    rw [decodeHttpAudio, hcontent, hrate]
    exact hdecode
  exact httpTranscription hcheck

theorem openaiTranscription_transcribes {fields : List Field} (h : recording.OverMultipart fields) :
    Transcribes backend recording.audio ApiError.Invalid (.ofBackend .engine) .ofBackend id
      (openaiTranscription backend fields) := by
  obtain ⟨hall, contentType, hfiles, hdeclared⟩ := h
  obtain ⟨message, hdecode⟩ := decodeAudio_declared hdeclared
  have htake : takeFields ⟨none, none⟩ fields =
      .ok ⟨some (some contentType, recording.bytes), (rates fields).getLast?⟩ :=
    takeFields_eq_ok.mpr ⟨hall, hfiles, Option.or_none.symm⟩
  have hcheck : decodeFields fields = recording.audio.mapError fun _ => .invalid message := by
    rw [decodeFields, htake]
    exact hdecode
  exact httpTranscription hcheck

theorem fromPcm16Le_zero (bytes : List UInt8) (limits : AudioLimits) :
    ∃ e, MonoPcm.fromPcm16Le bytes 0 limits = .error e :=
  ⟨_, rfl⟩

theorem grpc_decodeAudio (recording : Recording)
    (h : recording.bytes.length ≤ GrpcVoice.maxGrpcMessageBytes) :
    ∃ message, GrpcVoice.decodeAudio recording.overGrpc = recording.audio.mapError fun _ =>
      ⟨.invalidArgument, message⟩ := by
  cases recording with
  | wav bytes =>
      refine ⟨"WAV audio is invalid", ?_⟩
      have hlength : ¬ GrpcVoice.maxGrpcMessageBytes <
          (Recording.wav bytes).overGrpc.audio.length := Nat.not_lt.mpr h
      rw [GrpcVoice.decodeAudio, if_neg hlength, if_pos ⟨rfl, rfl⟩]
      rfl
  | pcm16 bytes rate =>
      have hlength : ¬ GrpcVoice.maxGrpcMessageBytes <
          (Recording.pcm16 bytes rate).overGrpc.audio.length := Nat.not_lt.mpr h
      rw [GrpcVoice.decodeAudio, if_neg hlength, if_neg (by rintro ⟨⟨⟩, -⟩)]
      by_cases hrate : 0 < rate
      · refine ⟨"raw PCM16 audio is invalid", ?_⟩
        rw [if_pos ⟨rfl, hrate⟩]
        rfl
      · refine ⟨"encoding and sample rate are inconsistent", ?_⟩
        have hzero : rate = 0 := UInt32.le_zero_iff.mp (UInt32.not_lt.mp hrate)
        obtain ⟨e, he⟩ := fromPcm16Le_zero bytes .default
        rw [if_neg fun h => hrate h.2, Recording.audio, hzero, show (0 : UInt32).toNat = 0 from rfl,
          he]
        rfl

theorem grpc_transcribes (recording : Recording)
    (h : recording.bytes.length ≤ GrpcVoice.maxGrpcMessageBytes) :
    Transcribes backend recording.audio (fun e => e.code = .invalidArgument)
      ⟨.internal, "speech recognition worker failed"⟩ mapBackendError id
      (GrpcVoice.transcribe backend recording.overGrpc) := by
  obtain ⟨message, hcheck⟩ := grpc_decodeAudio recording h
  have h : Transcribes backend recording.audio (fun e => e.code = .invalidArgument)
      (⟨.internal, "speech recognition worker failed"⟩ : Status) mapBackendError id _ :=
    transcribes_of_check hcheck rfl
  simpa [GrpcVoice.transcribe] using h

theorem decodeTool_overMcp (recording : Recording) :
    Mcp.decodeTool (recording.overMcp serde).encoding (recording.overMcp serde).sampleRate
      recording.bytes =
      recording.audio.mapError fun _ => Mcp.invalidParams := by
  cases recording with
  | wav bytes =>
      rw [Mcp.decodeTool, if_pos ⟨rfl, rfl⟩]
      rfl
  | pcm16 bytes rate =>
      rw [Mcp.decodeTool, if_neg (by rintro ⟨-, ⟨⟩⟩),
        if_pos (show ((Recording.pcm16 bytes rate).overMcp serde).encoding = "pcm16" from rfl)]
      rfl

theorem overMcp_audioBase64 (recording : Recording) :
    (recording.overMcp serde).audioBase64 = serde.base64.encode recording.bytes := by
  cases recording <;> rfl

/-- The bound on the text refuses nothing that the bound on the bytes lets through. -/
theorem toolAudio_overMcp {arguments : Json}
    (h : Mcp.TranscribeArguments.ofValue arguments = some (recording.overMcp serde)) :
    Mcp.toolAudio serde arguments = if recording.bytes.length ≤ Mcp.maxMcpAudioBytes then
      recording.audio.mapError fun _ => Mcp.invalidParams else .error Mcp.invalidParams := by
  have hsize := serde.base64.utf8ByteSize_encode recording.bytes
  rw [← overMcp_audioBase64] at hsize
  have hdecode : serde.base64.decode (recording.overMcp serde).audioBase64 =
      some recording.bytes := by
    rw [overMcp_audioBase64, Base64.Engine.decode_encode]
  simp only [Mcp.toolAudio, h, orFail, bind, Except.bind, hdecode, hsize, Mcp.maxAudioText,
    decodeTool_overMcp]
  by_cases hfits : recording.bytes.length ≤ Mcp.maxMcpAudioBytes
  · rw [if_pos hfits, if_neg (by rw [Mcp.maxMcpAudioBytes] at hfits; omega),
      if_neg (Nat.not_lt.mpr hfits)]
  · rw [if_neg hfits, if_pos (Nat.not_le.mp hfits)]
    exact ite_self _

theorem mcp_transcribes {arguments : Json}
    (h : Mcp.TranscribeArguments.ofValue arguments = some (recording.overMcp serde))
    (hfits : recording.bytes.length ≤ Mcp.maxMcpAudioBytes) :
    Transcribes backend recording.audio (fun e => e = Mcp.invalidParams) Mcp.engineFailure
      Mcp.mapBackendError Mcp.textContent (Mcp.transcribe serde backend arguments) := by
  have hcheck := toolAudio_overMcp h
  rw [if_pos hfits] at hcheck
  exact transcribes_of_check hcheck rfl

/-- However a recording is declared, every transport hands the same audio to the
backend, just once, and renders its answer; a recording that is none, or that is
too long for the transport, never gets there. -/
theorem batch_transports_agree (serde : Mcp.Serde) (backend : BatchBackend)
    (recording : Recording) (headers : AudioHeaders) (hheaders : recording.OverHttp headers)
    (fields : List Field) (hfields : recording.OverMultipart fields) (arguments : Json)
    (harguments : Mcp.TranscribeArguments.ofValue arguments = some (recording.overMcp serde)) :
    Transcribes backend recording.audio ApiError.Invalid (.ofBackend .engine) .ofBackend id
      (nativeTranscription backend headers recording.bytes) ∧
    Transcribes backend recording.audio ApiError.Invalid (.ofBackend .engine) .ofBackend id
      (openaiTranscription backend fields) ∧
    (recording.bytes.length ≤ GrpcVoice.maxGrpcMessageBytes →
      Transcribes backend recording.audio (fun e => e.code = .invalidArgument)
        ⟨.internal, "speech recognition worker failed"⟩ mapBackendError id
        (GrpcVoice.transcribe backend recording.overGrpc)) ∧
    (GrpcVoice.maxGrpcMessageBytes < recording.bytes.length → ∀ calls,
      (GrpcVoice.transcribe backend recording.overGrpc).run calls =
        .error ⟨.resourceExhausted, "audio exceeds the message limit"⟩ calls) ∧
    (recording.bytes.length ≤ Mcp.maxMcpAudioBytes →
      Transcribes backend recording.audio (fun e => e = Mcp.invalidParams) Mcp.engineFailure
        Mcp.mapBackendError Mcp.textContent (Mcp.transcribe serde backend arguments)) ∧
    (Mcp.maxMcpAudioBytes < recording.bytes.length → ∀ calls,
      (Mcp.transcribe serde backend arguments).run calls = .error Mcp.invalidParams calls) := by
  refine ⟨nativeTranscription_transcribes hheaders, openaiTranscription_transcribes hfields,
    grpc_transcribes recording,
    fun hlong calls => ?_, mcp_transcribes harguments, fun hlong calls => ?_⟩
  · have hcheck : GrpcVoice.decodeAudio recording.overGrpc =
        .error ⟨.resourceExhausted, "audio exceeds the message limit"⟩ := by
      cases recording <;> exact if_pos hlong
    rw [GrpcVoice.transcribe, hcheck, run_bind_of_error (run_fromExcept_error _ calls)]
  · have hcheck := toolAudio_overMcp harguments
    rw [if_neg (Nat.not_le.mpr hlong)] at hcheck
    rw [Mcp.transcribe, hcheck, run_bind_of_error (run_fromExcept_error _ calls)]

def callsAfter : EStateM.Result ε (List BatchCall) α → List BatchCall
  | .ok _ calls | .error _ calls => calls

theorem callsAfter_bind {m : Handler ε String} {calls : List BatchCall} :
    callsAfter ((m >>= fun text => pure (render text)).run calls) = callsAfter (m.run calls) := by
  cases hm : m.run calls with
  | ok text after => rw [run_bind_of_ok hm]; rfl
  | error e after => rw [run_bind_of_error hm]; rfl

theorem callsAfter_spawnBlocking (audio : MonoPcm) (calls : List BatchCall) :
    callsAfter
      ((spawnBlocking (.transcribe audio) (fun calls => backend.transcribe calls audio) lost
      convert).run calls) = calls ++ [.transcribe audio] := by
  rw [run_spawnBlocking]
  cases joined lost convert (backend.transcribe calls audio) <;> rfl

/-- The handler asks the backend, once, for the transcript of just the audio that was
declared to it, and leaves the backend alone where none was. -/
def Hears (Declared : MonoPcm → Prop) (handler : Handler ε α) : Prop :=
  ∀ calls,
    (∀ audio, callsAfter (handler.run calls) = calls ++ [.transcribe audio] ↔ Declared audio) ∧
    ((∀ audio, ¬ Declared audio) → callsAfter (handler.run calls) = calls)

/-- A handler that checks its input first hears what the check accepts. -/
theorem hears_of_check {check : Except ε MonoPcm} {rest : MonoPcm → Handler ε α}
    {Declared : MonoPcm → Prop}
    (hrest : ∀ audio calls, callsAfter ((rest audio).run calls) = calls ++ [.transcribe audio])
    (hcheck : ∀ audio, check = .ok audio ↔ Declared audio) :
    Hears Declared (fromExcept check >>= rest) := by
  intro calls
  cases check with
  | error e =>
      rw [run_bind_of_error (run_fromExcept_error e calls)]
      refine ⟨fun audio => ⟨fun h => ?_, fun h => ?_⟩, fun _ => rfl⟩
      · exact absurd (List.self_eq_append_right.mp h) (List.cons_ne_nil _ _)
      · cases (hcheck audio).mpr h
  | ok heard =>
      rw [run_bind_of_ok (run_fromExcept_ok heard calls), hrest]
      refine ⟨fun audio => ⟨fun h => ?_, fun h => ?_⟩,
        fun hnone => absurd ((hcheck heard).mp rfl) (hnone heard)⟩
      · have hcall := List.append_cancel_left h
        cases hcall
        exact (hcheck heard).mp rfl
      · cases (hcheck audio).mpr h
        rfl

theorem exists_pcm16 {bytes : List UInt8} {rate : Nat} {audio : MonoPcm}
    (h : MonoPcm.fromPcm16Le bytes rate .default = .ok audio) :
    ∃ rate' : UInt32, rate'.toNat = rate ∧ (Recording.pcm16 bytes rate').audio = .ok audio := by
  have hsupported := supported_bounds (MonoPcm.fromPcm16Le_eq_ok.mp h).1
  have hrate : (UInt32.ofNat rate).toNat = rate :=
    UInt32.toNat_ofNat_of_lt' (show rate < 4294967296 by omega)
  refine ⟨.ofNat rate, hrate, ?_⟩
  rw [Recording.audio, hrate]
  exact h

variable {audio : MonoPcm} {bytes : List UInt8}

theorem decodeAudio_eq_ok :
    decodeAudio contentType explicitRate bytes = .ok audio ↔
      ∃ recording : Recording, recording.bytes = bytes ∧
        recording.Declared contentType explicitRate ∧ recording.audio = .ok audio := by
  constructor
  · intro h
    unfold decodeAudio at h
    split at h
    · next hwav =>
        split at h
        · cases h
        · next hnone => exact ⟨.wav bytes, rfl, ⟨hwav, not_not.mp hnone⟩, mapError_eq_ok.mp h⟩
    · split at h
      · next hraw =>
          split at h
          · cases h
          · next rate hrate =>
              obtain ⟨rate', rfl, haudio⟩ := exists_pcm16 (mapError_eq_ok.mp h)
              exact ⟨.pcm16 bytes rate', rfl, ⟨hraw, hrate⟩, haudio⟩
      · cases h
  · rintro ⟨recording, rfl, hdeclared, haudio⟩
    obtain ⟨message, h⟩ := decodeAudio_declared hdeclared
    rw [h, haudio]
    rfl

theorem decodeHttpAudio_eq_ok {headers : AudioHeaders} :
    decodeHttpAudio headers bytes = .ok audio ↔
      ∃ recording : Recording, recording.bytes = bytes ∧ recording.OverHttp headers ∧
        recording.audio = .ok audio := by
  obtain ⟨content, rateText⟩ := headers
  constructor
  · intro h
    rw [decodeHttpAudio] at h
    cases content with
    | none => cases h
    | some contentType =>
        cases hrate : headerRate rateText with
        | error e =>
            rw [hrate] at h
            cases h
        | ok explicitRate =>
            rw [hrate] at h
            obtain ⟨recording, hbytes, hdeclared, haudio⟩ := decodeAudio_eq_ok.mp h
            exact ⟨recording, hbytes, ⟨contentType, explicitRate, rfl, hrate, hdeclared⟩, haudio⟩
  · rintro ⟨recording, hbytes, ⟨contentType, explicitRate, rfl, hrate, hdeclared⟩, haudio⟩
    rw [decodeHttpAudio, hrate]
    exact decodeAudio_eq_ok.mpr ⟨recording, hbytes, hdeclared, haudio⟩

theorem decodeAudio_octetStream : decodeAudio "application/octet-stream" explicitRate bytes =
    .error (.invalid "audio content type is unsupported") := by
  rw [decodeAudio, if_neg (by decide +kernel), if_neg (by decide +kernel)]

theorem decodeFields_declared {fields : List Field} : decodeFields fields = .ok audio ↔
    ∃ recording : Recording, recording.OverMultipart fields ∧ recording.audio = .ok audio := by
  rw [decodeFields_eq_ok]
  constructor
  · rintro ⟨hall, contentType, bytes, hfiles, h⟩
    cases contentType with
    | none =>
        have herror := h.symm.trans decodeAudio_octetStream
        cases herror
    | some contentType =>
        obtain ⟨recording, rfl, hdeclared, haudio⟩ := decodeAudio_eq_ok.mp h
        exact ⟨recording, ⟨hall, contentType, hfiles, hdeclared⟩, haudio⟩
  · rintro ⟨recording, ⟨hall, contentType, hfiles, hdeclared⟩, haudio⟩
    exact ⟨hall, some contentType, recording.bytes, hfiles,
      decodeAudio_eq_ok.mpr ⟨recording, rfl, hdeclared, haudio⟩⟩

theorem encodingOf_eq_wav {encoding : Int} (h : GrpcVoice.encodingOf encoding = some .wavPcm16) :
    encoding = 1 := by
  unfold GrpcVoice.encodingOf at h
  split at h
  · cases h
  · rfl
  · cases h
  · cases h

theorem encodingOf_eq_raw {encoding : Int} (h : GrpcVoice.encodingOf encoding = some .rawPcm16) :
    encoding = 2 := by
  unfold GrpcVoice.encodingOf at h
  split at h
  · cases h
  · cases h
  · rfl
  · cases h

theorem grpc_decodeAudio_eq_ok {request : GrpcVoice.TranscribeRequest} :
    GrpcVoice.decodeAudio request = .ok audio ↔
      ∃ recording : Recording, request = recording.overGrpc ∧
        recording.bytes.length ≤ GrpcVoice.maxGrpcMessageBytes ∧ recording.audio = .ok audio := by
  constructor
  · intro h
    obtain ⟨bytes, encoding, rate⟩ := request
    unfold GrpcVoice.decodeAudio at h
    split at h
    · cases h
    · next hlength =>
        split at h
        · next hwav =>
            obtain ⟨hencoding, rfl⟩ := hwav
            obtain rfl := encodingOf_eq_wav hencoding
            exact ⟨.wav bytes, rfl, Nat.le_of_not_lt hlength, mapError_eq_ok.mp h⟩
        · split at h
          · next hraw =>
              obtain rfl := encodingOf_eq_raw hraw.1
              exact ⟨.pcm16 bytes rate, rfl, Nat.le_of_not_lt hlength, mapError_eq_ok.mp h⟩
          · cases h
  · rintro ⟨recording, rfl, hlength, haudio⟩
    obtain ⟨message, h⟩ := grpc_decodeAudio recording hlength
    rw [h, haudio]
    rfl

theorem decodeTool_eq_ok {arguments : Mcp.TranscribeArguments}
    (hdecode : serde.base64.decode arguments.audioBase64 = some bytes)
    (h : Mcp.decodeTool arguments.encoding arguments.sampleRate bytes = .ok audio) :
    ∃ recording : Recording, recording.bytes = bytes ∧ arguments = recording.overMcp serde ∧
    recording.audio = .ok audio := by
  obtain ⟨text, encoding, sampleRate⟩ := arguments
  obtain rfl := (serde.base64.decode_eq_some_iff _ _).mp hdecode
  unfold Mcp.decodeTool at h
  split at h
  · next hwav =>
      obtain ⟨rfl, rfl⟩ := hwav
      exact ⟨.wav bytes, rfl, rfl, mapError_eq_ok.mp h⟩
  · split at h
    · next hraw =>
        cases sampleRate with
        | none => cases h
        | some rate =>
            obtain ⟨rate', rfl, haudio⟩ := exists_pcm16 (mapError_eq_ok.mp h)
            obtain rfl := hraw
            exact ⟨.pcm16 bytes rate', rfl, rfl, haudio⟩
    · cases h

theorem toolAudio_eq_ok {arguments : Json} : Mcp.toolAudio serde arguments = .ok audio ↔
    ∃ recording : Recording,
      Mcp.TranscribeArguments.ofValue arguments = some (recording.overMcp serde) ∧
      recording.bytes.length ≤ Mcp.maxMcpAudioBytes ∧ recording.audio = .ok audio := by
  constructor
  · intro h
    cases hvalue : Mcp.TranscribeArguments.ofValue arguments with
    | none =>
        rw [Mcp.toolAudio, hvalue] at h
        cases h
    | some given =>
        simp only [Mcp.toolAudio, hvalue, orFail, bind, Except.bind] at h
        split at h
        · cases h
        · cases hdecode : serde.base64.decode given.audioBase64 with
          | none =>
              rw [hdecode] at h
              cases h
          | some bytes =>
              simp only [hdecode] at h
              split at h
              · cases h
              · next hlength =>
                  obtain ⟨recording, rfl, rfl, haudio⟩ := decodeTool_eq_ok hdecode h
                  exact ⟨recording, rfl, Nat.le_of_not_lt hlength, haudio⟩
  · rintro ⟨recording, hvalue, hlength, haudio⟩
    rw [toolAudio_overMcp hvalue, if_pos hlength, haudio]
    rfl

/-- Every transport hears just the recordings that are declared to it, within its bounds. -/
theorem only_declared_audio_is_heard (serde : Mcp.Serde) (backend : BatchBackend) :
    (∀ headers body, Hears (fun audio => ∃ recording : Recording, recording.bytes = body ∧
        recording.OverHttp headers ∧ recording.audio = .ok audio)
      (nativeTranscription backend headers body)) ∧
    (∀ fields, Hears (fun audio => ∃ recording : Recording, recording.OverMultipart fields ∧
        recording.audio = .ok audio)
      (openaiTranscription backend fields)) ∧
    (∀ request, Hears (fun audio => ∃ recording : Recording, request = recording.overGrpc ∧
        recording.bytes.length ≤ GrpcVoice.maxGrpcMessageBytes ∧ recording.audio = .ok audio)
      (GrpcVoice.transcribe backend request)) ∧
    (∀ arguments, Hears (fun audio => ∃ recording : Recording,
        Mcp.TranscribeArguments.ofValue arguments = some (recording.overMcp serde) ∧
        recording.bytes.length ≤ Mcp.maxMcpAudioBytes ∧ recording.audio = .ok audio)
      (Mcp.transcribe serde backend arguments)) := by
  refine ⟨fun headers body => ?_, fun fields => ?_, fun request => ?_, fun arguments => ?_⟩
  · exact hears_of_check callsAfter_spawnBlocking fun audio => decodeHttpAudio_eq_ok
  · exact hears_of_check callsAfter_spawnBlocking fun audio => decodeFields_declared
  · exact hears_of_check callsAfter_spawnBlocking fun audio => grpc_decodeAudio_eq_ok
  · apply hears_of_check _ fun audio => toolAudio_eq_ok
    intro audio calls
    rw [callsAfter_bind, callsAfter_spawnBlocking]

def sampleFields : List Field :=
  [⟨"sample_rate", none, [56, 48, 48, 48]⟩, ⟨"file", some "audio/pcm", [0, 0]⟩]

def sampleArguments : Json :=
  .object
    [("encoding", .string "pcm16"), ("audio_base64", .string "AAA="),
    ("sample_rate", .number (.natural 8000))]

/-- Reads no JSON, for tools are called with values. -/
def plainSerde : Mcp.Serde := ⟨fun _ => none, fun _ => "", fun _ => .finite 1, Base64.standard⟩

def countingBackend : BatchBackend where
  transcribe calls _ := some (.ok ("transcript " ++ toString calls.length))
  synthesize _ _ _ := none

theorem acceptable_sampleFields : ∀ field ∈ sampleFields, Acceptable field := by
  have hrate : parseRate [56, 48, 48, 48] ≠ none := by decide +kernel
  simp [sampleFields, Acceptable, hrate]

theorem sampleArguments_overMcp :
    Mcp.TranscribeArguments.ofValue sampleArguments =
      some ((Recording.pcm16 [0, 0] 8000).overMcp plainSerde) :=
  rfl

theorem a_sample_is_heard_everywhere :
    Transcribes countingBackend (Recording.pcm16 [0, 0] 8000).audio ApiError.Invalid
      (.ofBackend .engine) .ofBackend id
      (nativeTranscription countingBackend ⟨some "Audio/PCM; rate=16000", some "+8000"⟩ [0, 0]) :=
  (batch_transports_agree plainSerde countingBackend (.pcm16 [0, 0] 8000)
    ⟨some "Audio/PCM; rate=16000", some "+8000"⟩
    ⟨"Audio/PCM; rate=16000", some 8000,
      rfl, by decide +kernel, by decide +kernel, by decide +kernel⟩ sampleFields
    ⟨acceptable_sampleFields, "audio/pcm", by decide +kernel, by decide +kernel, by decide +kernel⟩
      sampleArguments
    sampleArguments_overMcp).1

end ImpossibleVoice.Server

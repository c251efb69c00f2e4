import ImpossibleVoice.Native.Loading

namespace ImpossibleVoice.Server

open Lib Artifacts
open Native (SherpaLibrary SherpaRuntime)
open Stt (SttEngine SttLimits)
open Tts (TtsEngine TtsLimits)

structure EngineLoadError where
  message : String
deriving DecidableEq

/-- Why a composition ends without a result: with an error, or because the process stops. -/
inductive LoadStop
  | failed (error : EngineLoadError)
  | stopped
deriving DecidableEq

abbrev Composition := EStateM LoadStop Machine

structure EngineInspection where
  status : String
  artifacts : SetupReport
  nativeRuntime : String
  speechToText : String
  textToSpeech : String
  downloadsAttempted : Bool

def EngineInspection.isReady (inspection : EngineInspection) : Bool := inspection.status == "ready"

structure VoiceEngines where
  stt : SttEngine
  tts : TtsEngine

section Profile

variable (platform : Platform) (profile : VerifiedProfile)

def sttModel : List Component := join platform profile.stt (ascii "model.int8.onnx")

def sttTokens : List Component := join platform profile.stt (ascii "tokens.txt")

def ttsModel : List Component := join platform profile.tts (ascii "en_US-kristin-medium.onnx")

def ttsTokens : List Component := join platform profile.tts (ascii "tokens.txt")

def ttsDataDir : List Component := join platform profile.tts (ascii "espeak-ng-data")

end Profile

def raise {α : Type} (message : String) : Composition α := throw (.failed ⟨message⟩)

def attempt {α : Type} (p : Run α) : Composition (Option α) := fun m =>
  match p.run m with
  | .ok a t => .ok (some a) t
  | .error (.failed _) t => .ok none t
  | .error .stopped t => .error .stopped t

def mapErr {ε α : Type} (message : String) (result : Except ε α) : Except EngineLoadError α :=
  result.mapError fun _ => ⟨message⟩

/-- What the host gives besides the store: whether an HTTP client can be made, the
native library, and the frames that its arithmetic finds to reach the default threshold. -/
structure NativeHost where
  client : Bool
  sherpa : SherpaLibrary
  reached : List ℚ → Bool

section Compose

variable (platform : Platform) (env : Environment) (lib : Libraries) (host : NativeHost)
  (root : List Component) (manifest : CuratedManifest)

/-- `ArtifactStore::new`. -/
def openStore : Composition Unit :=
  if host.client = true then pure () else raise "artifact inspection initialization failed"

def createRecognizer (t : Tree) (runtime : SherpaRuntime) (profile : VerifiedProfile) :
    Except Tts.NativeError Stt.Backend :=
  runtime.createNemoRecognizer platform host.sherpa t (sttModel platform profile)
    (sttTokens platform profile) 2

def createSynthesizer (t : Tree) (runtime : SherpaRuntime) (profile : VerifiedProfile) :
    Except Tts.NativeError Tts.OfflineTts :=
  runtime.createVitsTts platform host.sherpa t (ttsModel platform profile)
    (ttsTokens platform profile) (ttsDataDir platform profile) 2

def VoiceEngines.start (t : Tree) (profile : VerifiedProfile) (maxConcurrent : Nat) :
    Except EngineLoadError VoiceEngines := do
  let runtime ← mapErr "native voice runtime is not loadable"
      (SherpaRuntime.load platform host.sherpa t profile.runtime)
  let recognizer ← mapErr "speech recognition model is not loadable"
      (createRecognizer platform host t runtime profile)
  let synthesizer ← mapErr "speech synthesis model is not loadable"
      (createSynthesizer platform host t runtime profile)
  let stt ← mapErr "speech recognition policy is invalid"
    (SttEngine.withBackend recognizer { SttLimits.default with maxConcurrent }
      (.default host.reached))
  let tts ← mapErr "speech synthesis policy is invalid"
    (TtsEngine.withBackend (Tts.nativeBackend synthesizer) { TtsLimits.default with maxConcurrent })
  pure ⟨stt, tts⟩

def VoiceEngines.load (maxConcurrent : Nat) : Composition VoiceEngines := do
  failIf (maxConcurrent = 0) (.failed ⟨"engine concurrency is invalid"⟩)
  openStore host
  match ← attempt (verifiedProfile platform env lib root manifest) with
  | none => raise "voice artifacts are not verified"
  | some profile => do
      let t ← gets Machine.tree
      match VoiceEngines.start platform host t profile maxConcurrent with
      | .ok engines => pure engines
      | .error error => throw (.failed error)

def notLoadable (artifacts : SetupReport) (nativeRuntime speechToText textToSpeech : String) :
    EngineInspection :=
  ⟨"not-ready", artifacts, nativeRuntime, speechToText, textToSpeech, false⟩

def inspectNative (artifacts : SetupReport) (t : Tree) (profile : VerifiedProfile) :
    EngineInspection :=
  match SherpaRuntime.load platform host.sherpa t profile.runtime with
  | .error _ => notLoadable artifacts "not-loadable" "not-checked" "not-checked"
  | .ok runtime =>
    match createRecognizer platform host t runtime profile with
    | .error _ => notLoadable artifacts "loadable" "not-loadable" "not-checked"
    | .ok _ =>
      match createSynthesizer platform host t runtime profile with
      | .error _ => notLoadable artifacts "loadable" "loadable" "not-loadable"
      | .ok _ => ⟨"ready", artifacts, "loadable", "loadable", "loadable", false⟩

def inspectEngines : Composition EngineInspection := do
  openStore host
  match ← attempt (status platform env lib root manifest) with
  | none => raise "artifact status is unavailable"
  | some artifacts =>
    if artifacts.status ≠ "ready" then
      pure ⟨"not-ready", artifacts, "not-checked", "not-checked", "not-checked", false⟩
    else
      match ← attempt (verifiedProfile platform env lib root manifest) with
      | none => pure (notLoadable artifacts "not-loadable" "not-checked" "not-checked")
      | some profile => do
          let t ← gets Machine.tree
          pure (inspectNative platform host artifacts t profile)

end Compose

end ImpossibleVoice.Server

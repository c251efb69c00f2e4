import ImpossibleVoice.Artifacts.Setup
import ImpossibleVoice.Native.Wrapper
import ImpossibleVoice.Stt.Session
import ImpossibleVoice.Tts.Engine

namespace ImpossibleVoice.Native

open Lib Artifacts
open Tts (NativeError)

/-- The shared library as it is installed: whether its files can be opened, what
they export, and which models it takes. -/
structure SherpaLibrary where
  opens : Tree → List Component → Bool
  exports : Tree → List Component → List String
  version : Tree → List Component → Option String
  recognizer : Tree → List Component → (model tokens : OsString) → Option Stt.Backend
  synthesizer : Tree → List Component → (model tokens dataDir : OsString) → Option Tts.OfflineTts

def expectedVersion : String := "1.13.8"

def sherpaLibraryName : Platform → String
  | .linux => "libsherpa-onnx-c-api.so"
  | .windows => "sherpa-onnx-c-api.dll"

def dependencyNames : Platform → List String
  | .linux => ["libonnxruntime.so", "libonnxruntime_providers_shared.so"]
  | .windows => ["onnxruntime.dll", "onnxruntime_providers_shared.dll"]

def symbols : List String :=
  ["SherpaOnnxGetVersionStr", "SherpaOnnxCreateOnlineRecognizer",
    "SherpaOnnxDestroyOnlineRecognizer",
    "SherpaOnnxCreateOnlineStream", "SherpaOnnxDestroyOnlineStream",
      "SherpaOnnxOnlineStreamAcceptWaveform",
    "SherpaOnnxIsOnlineStreamReady", "SherpaOnnxDecodeOnlineStream",
      "SherpaOnnxOnlineStreamInputFinished",
    "SherpaOnnxGetOnlineStreamResult", "SherpaOnnxDestroyOnlineRecognizerResult",
      "SherpaOnnxCreateOfflineTts",
    "SherpaOnnxDestroyOfflineTts", "SherpaOnnxOfflineTtsGenerate",
      "SherpaOnnxDestroyOfflineTtsGeneratedAudio"]

structure SherpaRuntime where
  root : List Component

section Load

variable (platform : Platform) (sherpa : SherpaLibrary) (t : Tree)

def isFile (path : List Component) : Bool := (stat t path) matches some (.file _)

def loadLibrary (path : List Component) : Except NativeError Unit :=
  if isFile t path = false then .error ⟨"native runtime library is missing"⟩
  else if sherpa.opens t path = false then .error ⟨"native runtime library could not be loaded"⟩
  else .ok ()

def loadDependencies (libraryDir : List Component) : List String → Except NativeError Unit
  | [] => .ok ()
  | name :: names => do
      let path := join platform libraryDir (ascii name)
      if (stat t path).isSome = true then loadLibrary sherpa t path else .ok ()
      loadDependencies libraryDir names

def Api.load (root : List Component) : Except NativeError Unit := do
  let libraryDir := join platform root (ascii "lib")
  loadDependencies platform sherpa t libraryDir (dependencyNames platform)
  let path := join platform libraryDir (ascii (sherpaLibraryName platform))
  loadLibrary sherpa t path
  if symbols.all (· ∈ sherpa.exports t path) = false then
    .error ⟨"native runtime symbol is missing"⟩ else .ok ()

def SherpaRuntime.load (root : List Component) : Except NativeError SherpaRuntime := do
  Api.load platform sherpa t root
  match sherpa.version t root with
  | none => .error ⟨"native runtime returned invalid text"⟩
  | some version =>
    if version ≠ expectedVersion then .error ⟨"native runtime version is incompatible"⟩
      else .ok ⟨root⟩

def pathToCstring (path : List Component) : Except NativeError OsString :=
  let text := platform.render path
  if isUtf8 text = false ∨ 0 ∈ text then .error ⟨"native artifact path is invalid"⟩ else .ok text

variable (runtime : SherpaRuntime)

def SherpaRuntime.createNemoRecognizer (model tokens : List Component) (threads : Nat) :
    Except NativeError Stt.Backend :=
  if threadsValid threads = false then .error ⟨"native thread count is invalid"⟩
  else do
    let model ← pathToCstring platform model
    let tokens ← pathToCstring platform tokens
    match sherpa.recognizer t runtime.root model tokens with
    | none => .error ⟨"speech recognizer initialization failed"⟩
    | some recognizer => .ok recognizer

def SherpaRuntime.createVitsTts (model tokens dataDir : List Component) (threads : Nat) :
    Except NativeError Tts.OfflineTts :=
  if threadsValid threads = false then .error ⟨"native thread count is invalid"⟩
  else do
    let model ← pathToCstring platform model
    let tokens ← pathToCstring platform tokens
    let dataDir ← pathToCstring platform dataDir
    match sherpa.synthesizer t runtime.root model tokens dataDir with
    | none => .error ⟨"speech synthesizer initialization failed"⟩
    | some synthesizer => .ok synthesizer

end Load

end ImpossibleVoice.Native

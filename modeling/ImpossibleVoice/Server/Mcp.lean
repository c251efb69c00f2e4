import ImpossibleVoice.Lib.Base64
import ImpossibleVoice.Lib.Json
import ImpossibleVoice.Server.Workers

namespace ImpossibleVoice.Server.Mcp

open Lib Audio Tts

def mcpProtocolVersion : String := "2025-03-26"

def maxMcpAudioBytes : Nat := 4 * 1024 * 1024

def maxAudioText : Nat := 5592408

/-- What `serde_json` does to a text and a cast to a number, and the `base64` engine. -/
structure Serde where
  fromSlice : List UInt8 → Option Json
  text : Json → String
  asF32 : Json.Number → F32
  base64 : Base64.Engine

structure JsonRpcRequest where
  jsonrpc : String
  id : Option Json
  method : String
  params : Json

def JsonRpcRequest.ofValue (value : Json) : Option JsonRpcRequest := do
  let field ← value.fields ["jsonrpc", "id", "method", "params"] true
  let jsonrpc ← Json.required Json.asString (field "jsonrpc")
  let id ← Json.defaulted none (Json.nullable some) (field "id")
  let method ← Json.required Json.asString (field "method")
  let params ← Json.defaulted .null some (field "params")
  some ⟨jsonrpc, id, method, params⟩

structure RpcFailure where
  code : Int
  message : String
deriving DecidableEq

def invalidParams : RpcFailure := ⟨-32602, "invalid tool parameters"⟩

def invalidRequest : RpcFailure := ⟨-32600, "invalid JSON-RPC request"⟩

def engineFailure : RpcFailure := ⟨-32003, "local voice engine failed"⟩

def mapBackendError : VoiceBackendError → RpcFailure
  | .invalidInput => invalidParams
  | .busy => ⟨-32003, "voice capacity is busy"⟩
  | .cancelled => ⟨-32800, "request cancelled"⟩
  | .deadlineExceeded => ⟨-32800, "request deadline exceeded"⟩
  | .engine => engineFailure

structure JsonRpcResponse where
  jsonrpc : String
  id : Json
  result : Option Json
  error : Option RpcFailure

/-- The answer to a message: a response, or the bare status of an accepted one. -/
inductive Answer
  | accepted
  | response (r : JsonRpcResponse)

def rpcResult (id : Option Json) (result : Json) : Answer :=
  .response ⟨"2.0", id.getD .null, some result, none⟩

def rpcError (id : Option Json) (failure : RpcFailure) : Answer :=
  .response ⟨"2.0", id.getD .null, none, some failure⟩

def text (s : String) : Json := .string s

def textContent (content : String) : Json :=
  .object
    [("content", .array [.object [("type", text "text"), ("text", text content)]]),
    ("isError", .bool false)]

/-- The function `initialize`; its parameters may hold more fields. -/
def initializeSession (params : Json) : Except RpcFailure Json := do
  let version ← orFail ((params.fields ["protocolVersion"] false).bind fun field =>
    Json.required Json.asString (field "protocolVersion")) invalidRequest
  if version ≠ mcpProtocolVersion then .error ⟨-32602, "MCP protocol version is unsupported"⟩
  else .ok (.object [
    ("protocolVersion", text mcpProtocolVersion),
    ("capabilities", .object [
      ("tools", .object [("listChanged", .bool false)]),
      ("resources", .object [("subscribe", .bool false), ("listChanged", .bool false)])]),
    ("serverInfo", .object [("name", text "impossible-voice"), ("version", text "0.1.0")])])

def inputSchema (fields : List (String × Json)) : Json :=
  .object ([("type", text "object"), ("additionalProperties", .bool false)] ++ fields)

def texts (items : List String) : Json := .array (items.map text)

def tool (name description : String) (schema : Json) : Json :=
  .object [("name", text name), ("description", text description), ("inputSchema", schema)]

def half : Json := .number (.float 0x3FE0000000000000)

def two : Json := .number (.float 0x4000000000000000)

def tools : Json :=
  .object [("tools", .array [
    tool "transcribe_audio" "Transcribe bounded base64 WAV or raw PCM16 using the local model."
      (inputSchema [
        ("required", texts ["audio_base64", "encoding"]),
        ("properties", .object [
          ("audio_base64",
            .object [("type", text "string"), ("maxLength", Json.ofInt maxAudioText)]),
          ("encoding", .object [("enum", texts ["wav", "pcm16"])]),
          ("sample_rate",
            .object
            [("type", text "integer"), ("minimum", Json.ofInt 8000),
            ("maximum", Json.ofInt 48000)])])]),
    tool "synthesize_speech" "Synthesize bounded text with the local Kristin voice."
      (inputSchema [
        ("required", texts ["text"]),
        ("properties", .object [
          ("text", .object [("type", text "string"), ("maxLength", Json.ofInt 4096)]),
          ("speed", .object [("type", text "number"), ("minimum", half), ("maximum", two)]),
          ("format", .object [("enum", texts ["wav", "pcm16"])])])]),
    tool "list_models" "List the curated local STT model and TTS voice." (inputSchema []),
    tool "health" "Return local engine readiness." (inputSchema [])])]

structure ToolCall where
  name : String
  arguments : Json

def ToolCall.ofValue (params : Json) : Option ToolCall := do
  let field ← params.fields ["name", "arguments", "_meta"] true
  let name ← Json.required Json.asString (field "name")
  let arguments ← Json.defaulted .null some (field "arguments")
  some ⟨name, arguments⟩

structure TranscribeArguments where
  audioBase64 : String
  encoding : String
  sampleRate : Option Nat

def TranscribeArguments.ofValue (arguments : Json) : Option TranscribeArguments := do
  let field ← arguments.fields ["audio_base64", "encoding", "sample_rate"] true
  let audioBase64 ← Json.required Json.asString (field "audio_base64")
  let encoding ← Json.required Json.asString (field "encoding")
  let sampleRate ← Json.defaulted none (Json.nullable Json.asU32) (field "sample_rate")
  some ⟨audioBase64, encoding, sampleRate⟩

def decodeTool (encoding : String) (sampleRate : Option Nat) (bytes : List UInt8) :
    Except RpcFailure MonoPcm :=
  if encoding = "wav" ∧ sampleRate = none then
    (MonoPcm.fromWav bytes .default).mapError fun _ => invalidParams
  else if encoding = "pcm16" then do
    let rate ← orFail sampleRate invalidParams
    (MonoPcm.fromPcm16Le bytes rate .default).mapError fun _ => invalidParams
  else .error invalidParams

variable (serde : Serde) (backend : BatchBackend)

def toolAudio (arguments : Json) : Except RpcFailure MonoPcm := do
  let arguments ← orFail (TranscribeArguments.ofValue arguments) invalidParams
  if maxAudioText < arguments.audioBase64.utf8ByteSize then .error invalidParams
  else do
    let bytes ← orFail (serde.base64.decode arguments.audioBase64) invalidParams
    if maxMcpAudioBytes < bytes.length then .error invalidParams
    else decodeTool arguments.encoding arguments.sampleRate bytes

def transcribe (arguments : Json) : Handler RpcFailure Json := do
  let audio ← fromExcept (toolAudio serde arguments)
  let transcript ← spawnBlocking (.transcribe audio) (fun calls => backend.transcribe calls audio)
      engineFailure mapBackendError
  pure (textContent transcript)

structure SynthesizeArguments where
  text : String
  speed : F32
  format : String

def SynthesizeArguments.ofValue (arguments : Json) : Option SynthesizeArguments := do
  let field ← arguments.fields ["text", "speed", "format"] true
  let text ← Json.required Json.asString (field "text")
  let speed ← Json.defaulted (.finite 1) (Json.asF32 serde.asF32) (field "speed")
  let format ← Json.defaulted "wav" Json.asString (field "format")
  some ⟨text, speed, format⟩

def toolSpeech (arguments : Json) : Except RpcFailure SynthesizeArguments := do
  let arguments ← orFail (SynthesizeArguments.ofValue serde arguments) invalidParams
  if arguments.format = "wav" ∨ arguments.format = "pcm16" then .ok arguments
    else .error invalidParams

def encodeTool (format : String) (synthesis : Synthesis) :
    Except RpcFailure (String × List UInt8) :=
  if format = "wav" then
    (synthesis.wav.mapError fun _ => engineFailure).map fun bytes => ("audio/wav", bytes)
  else .ok ("audio/pcm", synthesis.pcm16)

def audioContent (mimeType data : String) : Json :=
  .object
    [("content",
    .array [.object [("type", text "audio"), ("data", text data), ("mimeType", text mimeType)]]),
    ("isError", .bool false)]

def audioResult (format : String) (synthesis : Synthesis) : Except RpcFailure Json := do
  let (mimeType, bytes) ← encodeTool format synthesis
  if maxMcpAudioBytes < bytes.length then .error ⟨-32003, "tool result exceeds the MCP limit"⟩
  else .ok (audioContent mimeType (serde.base64.encode bytes))

def synthesize (arguments : Json) : Handler RpcFailure Json := do
  let request ← fromExcept (toolSpeech serde arguments)
  let synthesis ← spawnBlocking (.synthesize request.text request.speed)
    (fun calls => backend.synthesize calls request.text request.speed) engineFailure mapBackendError
  fromExcept (audioResult serde request.format synthesis)

def requireEmpty (value : Json) : Except RpcFailure Unit :=
  match value.asObject with
  | none => .ok ()
  | some fields => if fields = [] then .ok () else .error invalidParams

def listModels : Json :=
  .object
    [("stt", text "impossible-voice-stt"), ("tts", text "impossible-voice-tts"),
    ("voice", text "kristin")]

def callTool (params : Json) : Handler RpcFailure Json := do
  let call ← fromExcept (orFail (ToolCall.ofValue params) invalidParams)
  if call.name = "transcribe_audio" then transcribe serde backend call.arguments
  else if call.name = "synthesize_speech" then synthesize serde backend call.arguments
  else if call.name = "list_models" then do
    fromExcept (requireEmpty call.arguments)
    pure (textContent (serde.text listModels))
  else if call.name = "health" then do
    fromExcept (requireEmpty call.arguments)
    pure (textContent "\x7b\"status\":\"ready\"\x7d")
  else throw ⟨-32602, "tool not found"⟩

def resource (uri name : String) : Json :=
  .object [("uri", text uri), ("name", text name), ("mimeType", text "application/json")]

def resources : Json :=
  .object [("resources",
    .array
      [resource "voice://capabilities" "Voice capabilities",
      resource "voice://status" "Voice status"])]

def resourceContent (uri : String) : Except RpcFailure Json :=
  if uri = "voice://capabilities" then .ok (.object [
    ("speech_to_text", .bool true), ("text_to_speech", .bool true), ("http", .bool true),
      ("websocket", .bool true),
    ("grpc", .bool true), ("mcp", .bool true), ("offline_after_setup", .bool true)])
  else if uri = "voice://status" then
    .ok (.object [("status", text "ready"), ("downloads_during_serve", .bool false)])
  else .error ⟨-32002, "resource not found"⟩

def readResource (params : Json) : Except RpcFailure Json := do
  let uri ← orFail ((params.fields ["uri", "_meta"] true).bind fun field =>
    Json.required Json.asString (field "uri")) invalidParams
  let content ← resourceContent uri
  .ok (.object [("contents", .array [.object
    [("uri", text uri), ("mimeType", text "application/json"),
      ("text", text (serde.text content))]])])

def dispatch (method : String) (params : Json) : Option (Handler RpcFailure Json) :=
  if method = "initialize" then some (fromExcept (initializeSession params))
  else if method = "ping" then some (pure (.object []))
  else if method = "tools/list" then some (pure tools)
  else if method = "tools/call" then some (callTool serde backend params)
  else if method = "resources/list" then some (pure resources)
  else if method = "resources/read" then some (fromExcept (readResource serde params))
  else none

/-- A message, with the calls that the backend has received when it is answered. -/
def handle (body : List UInt8) (calls : List BatchCall) : Answer × List BatchCall :=
  match serde.fromSlice body with
  | none => (rpcError none ⟨-32700, "JSON-RPC parse error"⟩, calls)
  | some value =>
    match JsonRpcRequest.ofValue value with
    | none => (rpcError none invalidRequest, calls)
    | some request =>
      if request.jsonrpc ≠ "2.0" then (rpcError request.id invalidRequest, calls)
      else if request.id = none then (.accepted, calls)
      else
        match dispatch serde backend request.method request.params with
        | none => (rpcError request.id ⟨-32601, "method not found"⟩, calls)
        | some handler =>
          match handler.run calls with
          | .ok result calls => (rpcResult request.id result, calls)
          | .error failure calls => (rpcError request.id failure, calls)

end ImpossibleVoice.Server.Mcp

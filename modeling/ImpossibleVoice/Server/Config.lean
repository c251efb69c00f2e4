import ImpossibleVoice.Artifacts.Paths
import ImpossibleVoice.Lib.Failing
import ImpossibleVoice.Lib.Utf8
import ImpossibleVoice.Server.BodyLimit

namespace ImpossibleVoice.Server.Config

open Lib
open Artifacts (OsString ascii)

inductive SocketAddr
  | v4 (a b c d : UInt8) (port : UInt16)
  | v6 (address : BitVec 128) (port : UInt16) (flowinfo scopeId : UInt32)
deriving DecidableEq

/-- `IpAddr::is_loopback`. -/
def SocketAddr.isLoopback : SocketAddr → Bool
  | v4 a _ _ _ _ => a == 127
  | v6 address _ _ _ => address == 1

def localhost (port : UInt16) : SocketAddr := .v4 127 0 0 1 port

def defaultBind : SocketAddr := localhost 8080

def defaultGrpcBind : SocketAddr := localhost 50051

def maxConfigBytes : Nat := 64 * 1024

abbrev Duration := Nat

def Duration.fromMillis (millis : UInt64) : Duration := millis.toNat * 1000000

def Duration.asMillis (duration : Duration) : Nat := duration / 1000000

def maxTimeout : Duration := 24 * 60 * 60 * 1000000000

structure ConfigError where
  field : String
  message : String
deriving DecidableEq

structure LimitError where
  field : String
deriving DecidableEq

structure Size (maximum : Nat) where
  value : UInt64
  ne_zero : value ≠ 0
  le_maximum : value.toNat ≤ maximum

structure Timeout where
  value : Duration
  ne_zero : value ≠ 0
  le_maximum : value ≤ maxTimeout

def boundedSize (value : UInt64) (maximum : Nat) (field : String) :
    Except LimitError (Size maximum) :=
  if hz : value = 0 then .error ⟨field⟩
  else if hm : value.toNat ≤ maximum then .ok ⟨value, hz, hm⟩
  else .error ⟨field⟩

def boundedDuration (value : Duration) (field : String) : Except LimitError Timeout :=
  if h : value ≠ 0 ∧ value ≤ maxTimeout then .ok ⟨value, h.1, h.2⟩ else .error ⟨field⟩

structure ServerLimits where
  maxRequestBytes : Size Boundary.maxRequestBytesCap
  queueCapacity : Size 1000000
  maxConcurrentRequests : Size 1000000
  requestTimeout : Timeout
  shutdownTimeout : Timeout

def ServerLimits.new (maxRequestBytes queueCapacity maxConcurrentRequests : UInt64)
    (requestTimeout shutdownTimeout : Duration) :
    Except LimitError ServerLimits := do
  let maxRequestBytes ← boundedSize maxRequestBytes Boundary.maxRequestBytesCap "max_request_bytes"
  let queueCapacity ← boundedSize queueCapacity 1000000 "queue_capacity"
  let maxConcurrentRequests ← boundedSize maxConcurrentRequests 1000000 "max_concurrent_requests"
  let requestTimeout ← boundedDuration requestTimeout "request_timeout"
  let shutdownTimeout ← boundedDuration shutdownTimeout "shutdown_timeout"
  pure ⟨maxRequestBytes, queueCapacity, maxConcurrentRequests, requestTimeout, shutdownTimeout⟩

structure PartialConfig where
  artifactRoot : Option OsString
  bind : Option SocketAddr
  grpcBind : Option SocketAddr
  maxRequestBytes : Option UInt64
  queueCapacity : Option UInt64
  maxConcurrentRequests : Option UInt64
  requestTimeoutMs : Option UInt64
  shutdownTimeoutMs : Option UInt64
deriving DecidableEq

def PartialConfig.default : PartialConfig := ⟨none, none, none, none, none, none, none, none⟩

def replace {α : Type} (field higher : Option α) : Option α :=
  if higher.isSome = true then higher else field

def PartialConfig.overlay (self higher : PartialConfig) : PartialConfig where
  bind := replace self.bind higher.bind
  grpcBind := replace self.grpcBind higher.grpcBind
  artifactRoot := replace self.artifactRoot higher.artifactRoot
  maxRequestBytes := replace self.maxRequestBytes higher.maxRequestBytes
  queueCapacity := replace self.queueCapacity higher.queueCapacity
  maxConcurrentRequests := replace self.maxConcurrentRequests higher.maxConcurrentRequests
  requestTimeoutMs := replace self.requestTimeoutMs higher.requestTimeoutMs
  shutdownTimeoutMs := replace self.shutdownTimeoutMs higher.shutdownTimeoutMs

structure ServerOptions where
  config : Option OsString
  cli : PartialConfig

/-- What the host tells of a path: its metadata, and its contents. -/
structure ConfigFile where
  metadata : Option (Bool × Nat)
  contents : Option (List UInt8)

/-- The process environment, the file system, and the parsers of the standard
library and of the TOML crate. -/
structure Surroundings where
  get : String → Option OsString
  file : OsString → ConfigFile
  parseAddress : Text → Option SocketAddr
  parseNumber : Text → Option UInt64
  parseToml : Text → Option PartialConfig

section Resolve

variable (host : Surroundings)

def readFile (path : OsString) : Except ConfigError PartialConfig :=
  match (host.file path).metadata with
  | none => .error ⟨"config", "could not be read"⟩
  | some (isFile, len) =>
    if isFile = false ∨ maxConfigBytes < len then
      .error ⟨"config", "is outside the supported bound"⟩
    else match (host.file path).contents.bind toStr with
      | none => .error ⟨"config", "could not be read"⟩
      | some text => orFail (host.parseToml text) ⟨"config", "is malformed"⟩

def parseEnvironment {α : Type} (parse : Text → Option α) (name field : String) :
    Except ConfigError (Option α) :=
  match host.get name with
  | none => .ok none
  | some value => match toStr value with
    | none => .error ⟨field, "is malformed"⟩
    | some text => match parse text with
      | none => .error ⟨field, "is malformed"⟩
      | some a => .ok (some a)

def readEnvironment : Except ConfigError PartialConfig := do
  let artifactRoot := host.get "IMPOSSIBLE_VOICE_ARTIFACT_ROOT"
  let bind ← parseEnvironment host host.parseAddress "IMPOSSIBLE_VOICE_BIND" "bind"
  let grpcBind ← parseEnvironment host host.parseAddress "IMPOSSIBLE_VOICE_GRPC_BIND" "grpc_bind"
  let maxRequestBytes ← parseEnvironment host host.parseNumber "IMPOSSIBLE_VOICE_MAX_REQUEST_BYTES"
      "max_request_bytes"
  let queueCapacity ← parseEnvironment host host.parseNumber "IMPOSSIBLE_VOICE_QUEUE_CAPACITY"
      "queue_capacity"
  let maxConcurrentRequests ←
    parseEnvironment host host.parseNumber "IMPOSSIBLE_VOICE_MAX_CONCURRENT_REQUESTS"
      "max_concurrent_requests"
  let requestTimeoutMs ← parseEnvironment host host.parseNumber
      "IMPOSSIBLE_VOICE_REQUEST_TIMEOUT_MS" "request_timeout_ms"
  let shutdownTimeoutMs ← parseEnvironment host host.parseNumber
      "IMPOSSIBLE_VOICE_SHUTDOWN_TIMEOUT_MS" "shutdown_timeout_ms"
  pure
    ⟨artifactRoot, bind, grpcBind, maxRequestBytes, queueCapacity, maxConcurrentRequests,
    requestTimeoutMs, shutdownTimeoutMs⟩

end Resolve

structure RuntimeConfig where
  bind : SocketAddr
  grpcBind : SocketAddr
  limits : ServerLimits
  artifactRoot : OsString
  root_ne_nil : artifactRoot ≠ []
  bind_loopback : bind.isLoopback = true
  grpcBind_loopback : grpcBind.isLoopback = true
  distinct : grpcBind ≠ bind

/-- The checks of `resolve_layers`, on values with their defaults. -/
def validate (bind grpcBind : SocketAddr) (artifactRoot : OsString)
    (limits : Except LimitError ServerLimits) : Except ConfigError RuntimeConfig :=
  if hroot : artifactRoot = [] then .error ⟨"artifact_root", "is malformed"⟩
  else if hbind : bind.isLoopback = true then
    if hgrpc : grpcBind.isLoopback = true ∧ grpcBind ≠ bind then
      match limits with
      | .error error => .error ⟨error.field, "is outside the supported bound"⟩
      | .ok limits => .ok ⟨bind, grpcBind, limits, artifactRoot, hroot, hbind, hgrpc.1, hgrpc.2⟩
    else .error ⟨"grpc_bind", "must be distinct and loopback"⟩
  else .error ⟨"bind", "must be loopback"⟩

def resolveLayers (values : PartialConfig) : Except ConfigError RuntimeConfig :=
  validate (values.bind.getD defaultBind) (values.grpcBind.getD defaultGrpcBind)
    (values.artifactRoot.getD (ascii "runtime-artifacts"))
    (ServerLimits.new (values.maxRequestBytes.getD (16 * 1024 * 1024))
      (values.queueCapacity.getD 128)
      (values.maxConcurrentRequests.getD 4) (.fromMillis (values.requestTimeoutMs.getD 60000))
      (.fromMillis (values.shutdownTimeoutMs.getD 10000)))

def fileLayer (options : ServerOptions) (host : Surroundings) : Except ConfigError PartialConfig :=
  match options.config.or (host.get "IMPOSSIBLE_VOICE_CONFIG") with
  | none => .ok .default
  | some path => readFile host path

def ServerOptions.resolve (options : ServerOptions) (host : Surroundings) :
    Except ConfigError RuntimeConfig := do
  let file ← fileLayer options host
  let environment ← readEnvironment host
  resolveLayers ((file.overlay environment).overlay options.cli)

structure DoctorReport where
  status : String
  bindScope : String
  grpcBindScope : String
  maxRequestBytes : Nat
  queueCapacity : Nat
  maxConcurrentRequests : Nat
  requestTimeoutMs : Nat
  shutdownTimeoutMs : Nat
  downloadsDuringServe : Bool

def RuntimeConfig.doctorReport (config : RuntimeConfig) : DoctorReport where
  status := "ok"
  bindScope := "loopback"
  grpcBindScope := "loopback"
  maxRequestBytes := config.limits.maxRequestBytes.value.toNat
  queueCapacity := config.limits.queueCapacity.value.toNat
  maxConcurrentRequests := config.limits.maxConcurrentRequests.value.toNat
  requestTimeoutMs := config.limits.requestTimeout.value.asMillis
  shutdownTimeoutMs := config.limits.shutdownTimeout.value.asMillis
  downloadsDuringServe := false

end ImpossibleVoice.Server.Config

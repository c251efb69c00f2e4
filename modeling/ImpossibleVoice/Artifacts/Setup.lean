import ImpossibleVoice.Artifacts.Extract

namespace ImpossibleVoice.Artifacts

open Lib

structure ArtifactResult where
  id : Text
  kind : String
  state : String
deriving DecidableEq

structure SetupReport where
  profile : String
  platform : String
  status : String
  artifacts : List ArtifactResult
deriving DecidableEq

structure VerifiedProfile where
  runtime : List Component
  stt : List Component
  tts : List Component

section Paths

variable (platform : Platform) (env : Environment) (root : List Component) (artifact : ArtifactSpec)

def objectName : OsString := artifact.id.bytes ++ dash :: artifact.sha256.bytes.take 16

def objectPath : List Component :=
  join platform (join platform root (ascii "objects")) (objectName artifact)

def archiveName : OsString := artifact.id.bytes ++ dash :: artifact.sha256.bytes ++ ascii ".tar.bz2"

def archivePath : List Component :=
  join platform (join platform root (ascii "downloads")) (archiveName artifact)

def recoveryPath : List Component := join platform root (ascii "recovery")

def stagingName (suffix : Nat) : OsString :=
  artifact.id.bytes ++ dash :: decimal env.processId ++ dash :: decimal suffix

def stagingPath (suffix : Nat) : List Component :=
  join platform (join platform root (ascii "staging")) (stagingName env artifact suffix)

/-- What stands before the last dot of a name; the whole name when nothing does. -/
def fileStem (name : OsString) : OsString :=
  if name = dotDot then name
  else match name.reverse.dropWhile (fun b => [b] ≠ dot) with
    | [] | [_] => name
    | _ :: before => before.reverse

/-- `Path::with_extension`, on a path that ends in a name. -/
def withExtension (path : List Component) (extension : OsString) : List Component :=
  match path.getLast? with
  | some (.normal name) => path.dropLast ++ [.normal (fileStem name ++ dot ++ extension)]
  | _ => path

def partialExtension (suffix : Nat) : OsString :=
  ascii "partial-" ++ decimal env.processId ++ dash :: decimal suffix

def partialPath (suffix : Nat) : List Component :=
  withExtension (archivePath platform root artifact) (partialExtension env suffix)

end Paths

section Download

variable (platform : Platform) (env : Environment) (lib : Libraries)

def performNamed (op : Nat → Op) (message : String) : Run Nat := do
  let suffix ← uniqueSuffix env
  perform env (op suffix) message
  pure suffix

def sendRequest : Run Response := do
  let request ← gets fun m => m.requests
  modify fun m => { m with requests := m.requests + 1 }
  check env "artifact download failed"
  match env.response request with
  | none => fail "artifact download failed"
  | some response =>
      if response.success = true then pure response else fail "artifact download failed"

/-- The chunks of a response written one by one: their size, and what was hashed. -/
def copyChunks (destination : List Component) (expected : Nat) :
    List (Option Bytes) → Nat → Bytes → Run (Nat × Bytes)
  | [], size, hashed => pure (size, hashed)
  | none :: _, _, _ => fail "artifact download failed"
  | some chunk :: chunks, size, hashed =>
      match checkedAdd 64 size chunk.length with
      | none => fail "artifact download exceeded its bound"
      | some size =>
          if expected < size then fail "artifact download exceeded its bound"
          else do
            perform env (.append destination chunk) "artifact download staging failed"
            copyChunks destination expected chunks size (hashed ++ chunk)

/-- The body of a response, under a name of its own until it is complete. -/
def receiveArchive (root : List Component) (artifact : ArtifactSpec) (response : Response) :
    Run Unit := do
  let suffix ← performNamed env
    (fun suffix => .createNew (partialPath platform env root artifact suffix))
    "artifact download staging failed"
  let destination := partialPath platform env root artifact suffix
  let (size, hashed) ← copyChunks env destination artifact.size response.chunks 0 []
  check env "artifact download staging failed"
  if size ≠ artifact.size ∨ lib.sha256 hashed ≠ artifact.sha256 then do
    recoverPath platform env destination (recoveryPath platform root) "download"
    fail "artifact download integrity mismatch"
  else
    perform env (.rename destination (archivePath platform root artifact))
      "artifact archive activation failed"

def download (root : List Component) (artifact : ArtifactSpec) : Run Unit :=
  match lib.parseUrl artifact.url with
  | none => fail "curated artifact URL is invalid"
  | some url =>
      if url.scheme.bytes ≠ ascii "https" ∨ url.host.map Text.bytes ≠ some (ascii "github.com") then
        fail "curated artifact origin is not permitted"
      else do
        let response ← sendRequest env
        if response.contentLength.any (· ≠ artifact.size) = true then
          fail "artifact download size mismatch"
        else receiveArchive platform env lib root artifact response

end Download

section Install

variable (platform : Platform) (env : Environment) (lib : Libraries) (root : List Component)
  (artifact : ArtifactSpec)

/-- `verify_object` while the tree is read. -/
def inspectObject (path : List Component) : Run (Except ArtifactError Unit) :=
  inspect env (fun tree => verifyObjectAt platform lib tree path artifact)
    "installation inventory is missing"
    ["artifact archive could not be inspected", "installed artifact could not be inventoried",
      "installed artifact is missing a required path"]

/-- Whether the object is there and verifies; if it is there and does not, it is put aside. -/
def standsVerified : Run Bool := do
  let there ← pathExists (objectPath platform root artifact)
  if there = true then do
    let verified ← inspectObject platform env lib artifact (objectPath platform root artifact)
    match verified with
    | .ok _ => pure true
    | .error _ => do
        recoverPath platform env (objectPath platform root artifact)
          (recoveryPath platform root) "object"
        pure false
  else pure false

def sweepArchive : Run Unit := do
  let there ← pathExists (archivePath platform root artifact)
  if there = true then do
    let valid ← inspect env
      (fun tree =>
        verifyArchiveFile lib (stat tree (archivePath platform root artifact)) artifact.size
        artifact.sha256)
      "artifact archive could not be inspected" []
    match valid with
    | .ok _ => pure ()
    | .error _ =>
        recoverPath platform env (archivePath platform root artifact) (recoveryPath platform root)
          "archive"
  else pure ()

def obtainArchive : Run Unit := do
  sweepArchive platform env lib root artifact
  let there ← pathExists (archivePath platform root artifact)
  if there = true then pure () else download platform env lib root artifact

/-- A failure is followed by putting the path aside; the process may stop in either. -/
def recoverOnError (path : List Component) (p : Run Unit) : Run Unit := fun m =>
  match p.run m with
  | .ok _ t => .ok () t
  | .error (.failed error) t =>
      (do
        recoverPath platform env path (recoveryPath platform root) "staging"
        throw (.failed error) : Run Unit).run t
  | .error .stopped t => .error .stopped t

def verifyStaging (staging : List Component) : Run Unit := do
  let verified ← inspectObject platform env lib artifact staging
  failOn verified

def activateArtifact : Run Unit := do
  let suffix ← performNamed env
    (fun suffix => .mkdir (stagingPath platform env root artifact suffix))
    "artifact staging directory could not be created"
  let staging := stagingPath platform env root artifact suffix
  recoverOnError platform env root staging
    (extractVerifiedArchive platform env lib (archivePath platform root artifact) staging artifact)
  recoverOnError platform env root staging (verifyStaging platform env lib artifact staging)
  perform env (.rename staging (objectPath platform root artifact)) "artifact activation failed"

def ensureArtifact (offline : Bool) : Run String := do
  let verified ← standsVerified platform env lib root artifact
  if verified = true then pure "verified"
  else if offline = true then fail "offline setup requires a complete verified artifact profile"
  else do
    obtainArchive platform env lib root artifact
    activateArtifact platform env lib root artifact
    pure "installed"

end Install

section Store

variable (platform : Platform) (env : Environment) (lib : Libraries) (root : List Component)

def selectedArtifacts (manifest : CuratedManifest) : Run (List ArtifactSpec) := do
  let manifest ← failOn (parseManifest platform manifest)
  failOn (selectArtifacts manifest platform)

def prepareStorage : Run Unit := do
  createDirAll env (join platform root (ascii "objects")) "artifact storage initialization failed"
  createDirAll env (join platform root (ascii "downloads")) "artifact storage initialization failed"
  createDirAll env (join platform root (ascii "staging")) "artifact storage initialization failed"
  createDirAll env (recoveryPath platform root) "artifact storage initialization failed"
  perform env (.openCreate (join platform root (ascii ".setup.lock")))
    "artifact setup lock could not be opened"
  check env "artifact setup lock could not be acquired"

def ensureArtifacts (offline : Bool) : List ArtifactSpec → Run (List ArtifactResult)
  | [] => pure []
  | artifact :: artifacts => do
      let state ← ensureArtifact platform env lib root artifact offline
      let results ← ensureArtifacts offline artifacts
      pure (⟨artifact.id, artifact.kind, state⟩ :: results)

def setup (manifest : CuratedManifest) (offline : Bool) : Run SetupReport := do
  let selected ← selectedArtifacts platform manifest
  prepareStorage platform env root
  let results ← ensureArtifacts platform env lib root offline selected
  pure ⟨manifest.profile, platform.text, "ready", results⟩

def objectState (artifact : ArtifactSpec) : Run String := do
  let there ← pathExists (objectPath platform root artifact)
  if there = true then do
    let verified ← inspectObject platform env lib artifact (objectPath platform root artifact)
    match verified with
    | .ok _ => pure "verified"
    | .error _ => pure "invalid"
  else pure "missing"

def objectStates : List ArtifactSpec → Bool → Run (List ArtifactResult × Bool)
  | [], ready => pure ([], ready)
  | artifact :: artifacts, ready => do
      let state ← objectState platform env lib root artifact
      let (results, ready) ← objectStates artifacts (ready && state == "verified")
      pure (⟨artifact.id, artifact.kind, state⟩ :: results, ready)

def status (manifest : CuratedManifest) : Run SetupReport := do
  let selected ← selectedArtifacts platform manifest
  let (artifacts, ready) ← objectStates platform env lib root selected true
  pure ⟨manifest.profile, platform.text, if ready = true then "ready" else "not-ready", artifacts⟩

def verifiedKindPath (selected : List ArtifactSpec) (kind : String) : Run (List Component) :=
  match selected.find? (·.kind == kind) with
  | none => fail "curated artifact profile is incomplete"
  | some artifact => do
      let verified ← inspectObject platform env lib artifact (objectPath platform root artifact)
      failOn verified
      pure (objectPath platform root artifact)

def verifiedProfile (manifest : CuratedManifest) : Run VerifiedProfile := do
  let selected ← selectedArtifacts platform manifest
  let runtime ← verifiedKindPath platform env lib root selected "runtime"
  let stt ← verifiedKindPath platform env lib root selected "stt-model"
  let tts ← verifiedKindPath platform env lib root selected "tts-model"
  pure ⟨runtime, stt, tts⟩

end Store

end ImpossibleVoice.Artifacts

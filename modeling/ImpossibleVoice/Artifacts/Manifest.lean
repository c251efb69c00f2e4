import ImpossibleVoice.Artifacts.Paths
import ImpossibleVoice.Lib.MachineInt
import ImpossibleVoice.Lib.Utf8
import ImpossibleVoice.Lib.FileOps

namespace ImpossibleVoice.Artifacts

open Lib

structure LicenseSpec where
  scope : String
  spdx : String
  source : String
  revision : String

structure ArtifactSpec where
  id : Text
  kind : String
  platforms : List String
  url : Text
  size : Nat
  sha256 : Text
  archiveRoot : Text
  maxUnpackedBytes : Nat
  requiredPaths : List Text
  licenses : List LicenseSpec

structure CuratedManifest where
  schemaVersion : Nat
  profile : String
  artifacts : List ArtifactSpec

structure InstalledFile where
  path : Text
  size : Nat
  sha256 : Text
deriving DecidableEq

structure InstallationManifest where
  schemaVersion : Nat
  artifactId : Text
  archiveSha256 : Text
  files : List InstalledFile
deriving DecidableEq

def isAsciiAlphanumeric (byte : UInt8) : Bool :=
  (48 ≤ byte && byte ≤ 57) || (65 ≤ byte && byte ≤ 90) || (97 ≤ byte && byte ≤ 122)

def isAsciiHexDigit (byte : UInt8) : Bool :=
  (48 ≤ byte && byte ≤ 57) || (65 ≤ byte && byte ≤ 70) || (97 ≤ byte && byte ≤ 102)

def isIdByte (byte : UInt8) : Bool :=
  isAsciiAlphanumeric byte || byte == 45 || byte == 95 || byte == 46

def LicenseSpec.incomplete (license : LicenseSpec) : Bool :=
  license.scope.isEmpty || license.spdx.isEmpty || license.source.isEmpty ||
    license.revision.isEmpty

def validateArtifact (platform : Platform) (artifact : ArtifactSpec) : Except ArtifactError Unit :=
  if artifact.id.bytes = [] ∨ artifact.id.bytes.all isIdByte = false ∨
      artifact.kind ∉ ["runtime", "stt-model", "tts-model"] ∨ artifact.size = 0 ∨
        artifact.maxUnpackedBytes = 0 ∨
      artifact.sha256.bytes.length ≠ 64 ∨ artifact.sha256.bytes.all isAsciiHexDigit = false ∨
      artifact.archiveRoot.bytes = [] ∨ artifact.requiredPaths = [] ∨
        artifact.licenses.isEmpty = true then
    .error ⟨"curated artifact manifest contains an invalid entry"⟩
  else if artifact.licenses.any LicenseSpec.incomplete = true then
    .error ⟨"curated artifact license metadata is incomplete"⟩
  else artifact.requiredPaths.forM fun path => safeRelativePath platform path.bytes

def validateArtifacts (platform : Platform) :
    List ArtifactSpec → List Text → Except ArtifactError Unit
  | [], _ => .ok ()
  | artifact :: artifacts, ids => do
      validateArtifact platform artifact
      if artifact.id ∈ ids then .error ⟨"curated artifact manifest contains duplicate identifiers"⟩
      else validateArtifacts platform artifacts (artifact.id :: ids)

def parseManifest (platform : Platform) (manifest : CuratedManifest) :
    Except ArtifactError CuratedManifest := do
  if manifest.schemaVersion ≠ 1 ∨ manifest.profile ≠ "impossible-voice-en-cpu-v1" then
    .error ⟨"curated artifact manifest identity is invalid"⟩
  else do
    validateArtifacts platform manifest.artifacts []
    .ok manifest

def Platform.text : Platform → String
  | .linux => "linux-x86_64"
  | .windows => "windows-x86_64"

def selectArtifacts (manifest : CuratedManifest) (platform : Platform) :
    Except ArtifactError (List ArtifactSpec) :=
  let selected :=
    manifest.artifacts.filter fun artifact => artifact.platforms.any (· == platform.text)
  let count (kind : String) := selected.countP fun artifact => artifact.kind == kind
  if selected.length ≠ 3 ∨ count "runtime" ≠ 1 ∨ count "stt-model" ≠ 1 ∨ count "tts-model" ≠ 1 then
    .error ⟨"curated artifact profile is incomplete for this platform"⟩
  else .ok selected

theorem onAscii_replaceBackslash : OnAscii fun b => if b = backslash then slash else b := by
  constructor
  · intro b hb
    split
    · decide
    · exact hb
  · intro b hb
    rw [if_neg]
    rintro rfl
    exact hb (by decide)

/-- `replace('\\', "/")`. -/
def replaceBackslash (text : Text) : Text := ⟨_, onAscii_replaceBackslash.isUtf8_map text.utf8⟩

theorem onAscii_lowercase : OnAscii fun b => if 65 ≤ b ∧ b ≤ 90 then b + 32 else b := by
  constructor
  · intro b hb
    split <;> grind
  · intro b hb
    rw [if_neg]
    rintro ⟨_, hle⟩
    grind

def toAsciiLowercase (text : Text) : Text := ⟨_, onAscii_lowercase.isUtf8_map text.utf8⟩

abbrev Bytes := List UInt8

abbrev Tree := Node Component UInt8

inductive EntryKind where
  | regular
  | directory
  | other
deriving DecidableEq

/-- An entry of a tar stream: what each read of its payload yields, until one yields nothing. -/
structure Entry where
  path : Option OsString
  kind : EntryKind
  reads : List (Option Bytes)

structure Url where
  scheme : Text
  host : Option Text

structure Libraries where
  /-- `hex_digest` of the SHA-256 of the bytes. -/
  sha256 : Bytes → Text
  encode : InstallationManifest → Bytes
  decode : Bytes → Option InstallationManifest
  /-- The entries behind bzip2 and tar; an entry may be malformed. -/
  entries : Bytes → Option (List (Option Entry))
  parseUrl : Text → Option Url

end ImpossibleVoice.Artifacts

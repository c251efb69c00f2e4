import ImpossibleVoice.Artifacts.Machine
import Mathlib.Data.List.Sort

namespace ImpossibleVoice.Artifacts

open Lib

def maxArchiveEntries : Nat := 16384

def bytesLe : Bytes → Bytes → Bool
  | [], _ => true
  | _ :: _, [] => false
  | a :: first, b :: second => a < b || (a == b && bytesLe first second)

def sortByPath (installed : List InstalledFile) : List InstalledFile :=
  installed.insertionSort fun left right => bytesLe left.path.bytes right.path.bytes = true

def Component.hasParent : Component → Bool
  | .normal _ | .curDir | .parentDir => true
  | .pathPrefix _ | .rootDir => false

/-- The payload of an entry copied read by read: its size, what was hashed, and the running
total. -/
def copyPayload (env : Environment) (destination : List Component) (maxUnpackedBytes : Nat) :
    List (Option Bytes) → Nat → Bytes → Nat → Run (Nat × Bytes × Nat)
  | [], size, hashed, total => pure (size, hashed, total)
  | none :: _, _, _, _ => fail "artifact file extraction failed"
  | some bytes :: reads, size, hashed, total => do
      check env "artifact file extraction failed"
      if bytes = [] then pure (size, hashed, total)
      else match checkedAdd 64 size bytes.length, checkedAdd 64 total bytes.length with
        | some size, some total =>
            if maxUnpackedBytes < total then fail "artifact extraction exceeded its bound"
            else do
              perform env (.append destination bytes) "artifact file extraction failed"
              copyPayload env destination maxUnpackedBytes reads size (hashed ++ bytes) total
        | _, _ => fail "artifact extraction exceeded its bound"

/-- The directory of a path, if that has one, made with all above it. -/
def createParent (env : Environment) (destination : List Component) : Run Unit :=
  if destination.getLast?.any Component.hasParent = true then
    createDirAll env destination.dropLast "artifact directory extraction failed"
  else pure ()

def writeExtractedFile (env : Environment) (lib : Libraries) (reads : List (Option Bytes))
    (destination : List Component) (relativePath : Text) (total maxUnpackedBytes : Nat) :
    Run (InstalledFile × Nat) := do
  createParent env destination
  perform env (.createNew destination) "artifact file extraction failed"
  let (size, hashed, total) ← copyPayload env destination maxUnpackedBytes reads 0 [] total
  check env "artifact file extraction failed"
  pure (⟨relativePath, size, lib.sha256 hashed⟩, total)

structure Extraction where
  installed : List InstalledFile
  seen : Finset Text
  total : Nat

def Extraction.empty : Extraction := ⟨[], ∅, 0⟩

def extractEntry (platform : Platform) (env : Environment) (lib : Libraries)
    (staging : List Component) (artifact : ArtifactSpec) (x : Extraction) (entry : Entry) :
    Run Extraction :=
  match entry.path with
  | none => fail "artifact archive path is invalid"
  | some path => do
      let relative ← failOn (stripArchiveRoot platform path artifact.archiveRoot.bytes)
      if relative = [] then pure x
      else match (toStr (platform.render relative)).map replaceBackslash with
        | none => fail "artifact archive path is invalid"
        | some relativeText => do
            let destination := platform.pushPath staging relative
            if entry.kind = .directory then do
              createDirAll env destination "artifact directory extraction failed"
              pure x
            else if entry.kind ≠ .regular ∨ toAsciiLowercase relativeText ∈ x.seen then
              fail "artifact archive contains an unsupported or duplicate entry"
            else do
              let (file, total) ←
                writeExtractedFile env lib entry.reads destination relativeText x.total
                  artifact.maxUnpackedBytes
              pure ⟨x.installed ++ [file], insert (toAsciiLowercase relativeText) x.seen, total⟩

def extractNext (platform : Platform) (env : Environment) (lib : Libraries)
    (staging : List Component) (artifact : ArtifactSpec) (x : Extraction) :
    Option Entry → Run Extraction
  | none => fail "artifact archive is malformed"
  | some entry => do
      modify fun m => m.looking artifact.archiveRoot.bytes entry
      extractEntry platform env lib staging artifact x entry

def extractEntries (platform : Platform) (env : Environment) (lib : Libraries)
    (staging : List Component) (artifact : ArtifactSpec) :
    Nat → List (Option Entry) → Extraction → Run Extraction
  | _, [], x => pure x
  | index, entry :: entries, x =>
      if maxArchiveEntries ≤ index then fail "artifact archive has too many entries"
      else do
        check env "artifact archive is malformed"
        let x ← extractNext platform env lib staging artifact x entry
        extractEntries platform env lib staging artifact (index + 1) entries x

def writeMarker (env : Environment) (marker : List Component) (bytes : Bytes) : Run Unit := do
  perform env (.createNew marker) "installation inventory could not be written"
  perform env (.append marker bytes) "installation inventory could not be written"
  check env "installation inventory could not be written"

def installationManifest (artifact : ArtifactSpec) (installed : List InstalledFile) :
    InstallationManifest where
  schemaVersion := 1
  artifactId := artifact.id
  archiveSha256 := artifact.sha256
  files := sortByPath installed

def openArchive (env : Environment) (lib : Libraries) (archivePath : List Component) :
    Run (List (Option Entry)) := do
  check env "artifact archive could not be opened"
  let found ← gets fun m => (stat m.tree archivePath).bind Node.bytes
  match found with
  | none => fail "artifact archive could not be opened"
  | some content => match lib.entries content with
      | none => fail "artifact archive is malformed"
      | some entries => pure entries

def extractVerifiedArchive (platform : Platform) (env : Environment) (lib : Libraries)
    (archivePath staging : List Component) (artifact : ArtifactSpec) : Run Unit := do
  modify fun m => { m with entered := [] }
  let verified ← inspect env
    (fun tree => verifyArchiveFile lib (stat tree archivePath) artifact.size artifact.sha256)
    "artifact archive could not be inspected" []
  failOn verified
  let entries ← openArchive env lib archivePath
  let x ← extractEntries platform env lib staging artifact 0 entries .empty
  if x.installed = [] then fail "artifact archive contained no files"
  else
    writeMarker env (platform.push staging installationFile)
      (lib.encode (installationManifest artifact x.installed))

end ImpossibleVoice.Artifacts

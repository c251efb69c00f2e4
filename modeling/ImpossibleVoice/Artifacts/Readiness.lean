import ImpossibleVoice.Artifacts.Preparation

namespace ImpossibleVoice.Artifacts

open Lib

variable {platform : Platform} {α : Type} {env : Environment} {lib : Libraries}
  {root : List Component} {artifact : ArtifactSpec}
  {artifacts : List ArtifactSpec} {manifest : CuratedManifest} {message : String} {m : Machine}
    {t t' tree : Tree} {op : Op}
  {c c' : Component}

def smallArchive : Bytes := List.replicate 32 0

def smallSha256 : Text := fixtureLibraries.sha256 smallArchive

def smallSpec (id : Text) (kind : String) : ArtifactSpec where
  id := id
  kind := kind
  platforms := ["linux-x86_64", "windows-x86_64"]
  url := literal "https://github.com/example/small"
  size := 32
  sha256 := smallSha256
  archiveRoot := literal "small"
  maxUnpackedBytes := 1024
  requiredPaths := [literal "a"]
  licenses := [⟨"all", "MIT", "small", "1"⟩]

def smallManifest : CuratedManifest :=
  ⟨1, "impossible-voice-en-cpu-v1",
    [smallSpec (literal "r") "runtime", smallSpec (literal "s") "stt-model",
      smallSpec (literal "t") "tts-model"]⟩

theorem validate_smallManifest :
    validateArtifacts platform smallManifest.artifacts [] = .ok () := by
  cases platform <;> decide +kernel

theorem parse_smallManifest : parseManifest platform smallManifest = .ok smallManifest := by
  rw [parseManifest, if_neg (by decide), validate_smallManifest]
  rfl

theorem select_smallManifest :
    selectArtifacts smallManifest platform = .ok smallManifest.artifacts := by
  rw [selectArtifacts]
  have hall :
      (smallManifest.artifacts.filter fun artifact => artifact.platforms.any (· == platform.text)) =
      smallManifest.artifacts := by
    rw [List.filter_eq_self]
    cases platform <;> decide
  rw [hall, if_neg (by decide)]

theorem accepted_smallManifest : Accepted platform smallManifest :=
  ⟨_, _, parse_smallManifest, select_smallManifest⟩

theorem selection_smallManifest : selection platform smallManifest = smallManifest.artifacts := by
  rw [selection, parse_smallManifest]
  simp only [select_smallManifest]

theorem ascii_smallPath : ((ascii "a").all (· < 128)) = true := by decide

def smallPath : Text := literal "a" ascii_smallPath

def smallInventory (id : Text) : InstallationManifest :=
  ⟨1, id, smallSha256, [⟨smallPath, 1, fixtureLibraries.sha256 [7]⟩]⟩

def smallInventoryText (id : Text) : Bytes :=
  ascii "\x7b\n  \"schema_version\": 1,\n  \"artifact_id\": \"" ++ id.bytes ++
    ascii "\",\n  \"archive_sha256\": \"" ++
    smallSha256.bytes ++
      ascii
      "\",\n  \"files\": [\n    \x7b\n      \"path\": \"a\",\n      \"size\": 1,\n      \"sha256\": \"ah\"\n    \x7d\n  ]\n\x7d"

def smallLibraries : Libraries :=
  spelledLibraries (fun installation => smallInventoryText installation.artifactId)
    (fun bytes =>
      ([literal "r", literal "s", literal "t"].find? fun id => smallInventoryText id = bytes).map
      smallInventory)
    fun _ => some [some ⟨some (ascii "small/a"), .regular, [some [7]]⟩]

def smallObject (id : String) (h : ((ascii id).all (· < 128)) = true := by decide) : Tree :=
  namedDir
    [(".impossible-voice-installation.json", .file (smallInventoryText (literal id h))),
    ("a", .file [7])]

def smallObjects : Tree :=
  namedDir
    [("r-aaaaaaaaaaaaaaaa", smallObject "r"), ("s-aaaaaaaaaaaaaaaa", smallObject "s"),
    ("t-aaaaaaaaaaaaaaaa", smallObject "t")]

def blockedStore : Tree :=
  namedDir [("store", namedDir [("objects", smallObjects), ("staging", .file [])])]

def smallRoot : List Component := [.normal (ascii "store")]

theorem permitted_undisturbed (response : Option Response) : Permitted (undisturbed response) :=
  fun _ => rfl

def smallDownloads : Environment := undisturbed (some ⟨true, none, [some smallArchive]⟩)

/-- From nothing, three downloads make the store ready. -/
example :
    (match (setup .linux smallDownloads smallLibraries smallRoot smallManifest false).run
    (.start (.dir [])) with
    | .ok report m =>
        report.artifacts.map ArtifactResult.state == ["installed", "installed", "installed"] &&
          m.requests == 3
    | .error _ _ => false) = true := by decide +kernel

end ImpossibleVoice.Artifacts

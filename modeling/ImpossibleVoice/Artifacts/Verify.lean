import ImpossibleVoice.Artifacts.Manifest

namespace ImpossibleVoice.Artifacts

open Lib

def installationFile : OsString := ascii ".impossible-voice-installation.json"

/-- What `fs::metadata` finds at a path: links are followed. -/
def stat (tree : Tree) (path : List Component) : Option Tree := (tree.find path).bind Node.follow

/-- Whether the text of a path demands a directory: it ends in a separator or, where the
system does not drop that, in a `.`. -/
def demandsDir (platform : Platform) (text : OsString) : Bool :=
  (text.splitOnP platform.isSeparator).getLast?.any fun segment =>
    segment = [] || (platform = .linux && segment = dot)

def statText (platform : Platform) (root : Tree) (text : OsString) : Option Tree :=
  (stat root (platform.components text)).filter fun found => !demandsDir platform text ||
    found.isDir

def verifyArchiveFile (lib : Libraries) (found : Option Tree) (size : Nat) (sha256 : Text) :
    Except ArtifactError Unit :=
  match found with
  | none => .error ⟨"artifact archive could not be inspected"⟩
  | some (.file content) =>
      if content.length ≠ size then .error ⟨"artifact archive size mismatch"⟩
      else if lib.sha256 content ≠ sha256 then .error ⟨"artifact archive digest mismatch"⟩
      else .ok ()
  | some _ => .error ⟨"artifact archive size mismatch"⟩

/-- The files of an inventory checked one by one, and the set of their names. -/
def verifyFiles (platform : Platform) (lib : Libraries) (root : Tree) :
    List InstalledFile → Finset Text → Except ArtifactError (Finset Text)
  | [], expected => .ok expected
  | entry :: files, expected => do
      safeRelativePath platform entry.path.bytes
      if entry.path ∈ expected then .error ⟨"installation inventory contains duplicate files"⟩
      else do
        verifyArchiveFile lib (statText platform root entry.path.bytes) entry.size entry.sha256
        verifyFiles platform lib root files (insert entry.path expected)

/-- The name an inventory gives to a file: its path below the root, separators turned. -/
def relativeText (platform : Platform) (path : List Component) : Option Text :=
  (toStr (platform.render path)).map replaceBackslash

abbrev Pending := List (List Component × Tree)

/-- One directory read entry by entry: the directories still to read, and the names found. -/
def inventoryEntries (platform : Platform) (directory : List Component) :
    List (Component × Tree) → Pending → Finset Text → Except ArtifactError (Pending × Finset Text)
  | [], pending, files => .ok (pending, files)
  | (name, node) :: entries, pending, files =>
      match node with
      | .link _ => .error ⟨"installed artifact contains a redirected path"⟩
      | .dir _ =>
          inventoryEntries platform directory entries ((directory ++ [name], node) :: pending) files
      | .file _ =>
          match relativeText platform (directory ++ [name]) with
          | none => .error ⟨"installed artifact path is invalid"⟩
          | some relative =>
              inventoryEntries platform directory entries pending
                (if relative.bytes = installationFile then files else insert relative files)
      | .other => .error ⟨"installed artifact contains an unsupported entry"⟩

def inventoryLoop (platform : Platform) :
    Nat → Pending → Finset Text → Except ArtifactError (Finset Text)
  | _, [], files => .ok files
  | 0, _ :: _, _ => .error ⟨"installed artifact could not be inventoried"⟩
  | fuel + 1, (path, directory) :: pending, files => do
      let (pending, files) ← inventoryEntries platform path directory.entries pending files
      inventoryLoop platform fuel pending files

def inventoryFiles (platform : Platform) (root : Tree) : Except ArtifactError (Finset Text) :=
  inventoryLoop platform (Node.directoriesOf root.entries + 1) [([], root)] ∅

def verifyObject (platform : Platform) (lib : Libraries) (root : Tree) (artifact : ArtifactSpec) :
    Except ArtifactError Unit :=
  match (root.find [.normal installationFile]).bind Node.bytes with
  | none => .error ⟨"installation inventory is missing"⟩
  | some marker =>
      match lib.decode marker with
      | none => .error ⟨"installation inventory is malformed"⟩
      | some installation =>
          if installation.schemaVersion ≠ 1 ∨ installation.artifactId ≠ artifact.id ∨
              installation.archiveSha256 ≠ artifact.sha256 ∨ installation.files = [] then
            .error ⟨"installation identity is invalid"⟩
          else do
            let expected ← verifyFiles platform lib root installation.files ∅
            let actual ← inventoryFiles platform root
            if actual ≠ expected then .error ⟨"installed artifact inventory does not match"⟩
            else if artifact.requiredPaths.all
              (fun path => (statText platform root path.bytes).isSome) = false then
              .error ⟨"installed artifact is missing a required path"⟩
            else .ok ()

/-- `verify_object` on a path of a tree, where there may be nothing. -/
def verifyObjectAt (platform : Platform) (lib : Libraries) (tree : Tree) (path : List Component)
    (artifact : ArtifactSpec) : Except ArtifactError Unit :=
  match tree.find path with
  | none => .error ⟨"installation inventory is missing"⟩
  | some root => verifyObject platform lib root artifact

end ImpossibleVoice.Artifacts

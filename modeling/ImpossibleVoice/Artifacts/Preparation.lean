import ImpossibleVoice.Artifacts.Readers

namespace ImpossibleVoice.Artifacts

open Lib

variable {platform : Platform} {α : Type} {env : Environment} {lib : Libraries}
  {root : List Component} {artifact : ArtifactSpec}
  {artifacts : List ArtifactSpec} {manifest : CuratedManifest} {message : String} {m : Machine}
    {t t' tree : Tree} {op : Op}
  {c c' : Component}

def lockPath (root : List Component) : List Component := root ++ [.normal (ascii ".setup.lock")]

def makeDirs (env : Environment) (root : List Component) : List OsString → Run Unit
  | [] => pure ()
  | name :: names => do
      createDirAll env (root ++ [.normal name]) "artifact storage initialization failed"
      makeDirs env root names

theorem prepareStorage_eq : prepareStorage platform env root = (do
    makeDirs env root storeNames
    perform env (.openCreate (lockPath root)) "artifact setup lock could not be opened"
    check env "artifact setup lock could not be acquired") := by
  have hdir {name : OsString} (hname : name ∈ storeNames) :
      join platform root name = root ++ [.normal name] :=
    join_ordinary (ordinary_storeName hname) root
  rw [prepareStorage, recoveryPath, hdir (by decide), hdir (by decide), hdir (by decide),
    hdir (by decide), join_ordinary (ordinary_of_bytes (by decide) (by decide))]
  simp only [storeNames, makeDirs, bind_assoc, pure_bind]
  rfl

def Free (t : Tree) (path : List Component) : Prop := t.dirAt path = true ∨ t.find path = none

theorem Free.congr {path : List Component} (h : t'.find path = t.find path) :
    Free t' path ↔ Free t path := by
  rw [Free, Free, Node.dirAt, Node.dirAt, h]

structure Makes (root : List Component) (names : List OsString) (m m' : Machine) : Prop where
  free : ∀ name ∈ names, Free m.tree (root ++ [.normal name])
  stays : m'.tree.dirAt root = true
  beside : ∀ c, (∀ name ∈ names, c ≠ .normal name) →
    m'.tree.find (root ++ [c]) = m.tree.find (root ++ [c])

end ImpossibleVoice.Artifacts

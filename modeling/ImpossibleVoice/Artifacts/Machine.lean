import ImpossibleVoice.Artifacts.Verify
import ImpossibleVoice.Lib.Effect
import ImpossibleVoice.Lib.Journal

namespace ImpossibleVoice.Artifacts

open Lib

abbrev Op := FileOp Component UInt8

/-- What becomes of a request to the operating system. A write may get through in part. -/
inductive Fault where
  | none
  | fails (through : Nat)
  | stops (through : Nat)

/-- Why a run ends without a result: with an error, or because the process stops. -/
inductive Interrupt where
  | failed (error : ArtifactError)
  | stopped
deriving DecidableEq

/-- An answer from the network; the stream of chunks may break off. -/
structure Response where
  success : Bool
  contentLength : Option Nat
  chunks : List (Option Bytes)

structure Environment where
  processId : Nat
  suffix : Nat → Nat
  fault : Nat → Fault
  response : Nat → Option Response

/-- `suffixes` and `requests` count the draws of `unique_suffix` and the requests sent;
`entered` holds the entries looked at of the archive last opened, `looked` all that ever
were, each with the root of its archive. -/
structure Machine where
  journal : Journal Component UInt8
  clock : Nat
  suffixes : Nat
  requests : Nat
  entered : List Entry
  looked : List (OsString × Entry)

def Machine.start (tree : Tree) : Machine := ⟨⟨[], tree⟩, 0, 0, 0, [], []⟩

abbrev Machine.tree (m : Machine) : Tree := m.journal.tree

def Machine.tick (m : Machine) : Machine := { m with clock := m.clock + 1 }

def Machine.looking (m : Machine) (root : OsString) (entry : Entry) : Machine :=
  { m with entered := m.entered ++ [entry], looked := m.looked ++ [(root, entry)] }

def Machine.after (m : Machine) (op : Op) (tree : Tree) : Machine :=
  { m with clock := m.clock + 1, journal := m.journal.record op tree }

def Machine.torn (m : Machine) (op : Op) (through : Nat) : Machine :=
  match op.torn through with
  | none => m.tick
  | some part => match part.apply m.tree with
    | none => m.tick
    | some tree => m.after part tree

abbrev Run := EStateM Interrupt Machine

variable {α : Type}

def leaves (p : Run α) (m : Machine) : Machine :=
  match p.run m with
  | .ok _ t | .error _ t => t

theorem leaves_of_ok {p : Run α} {m t : Machine} {a : α} (h : p.run m = .ok a t) :
    leaves p m = t := by
  rw [leaves, h]

def fail (message : String) : Run α := throw (.failed ⟨message⟩)

def failOn (result : Except ArtifactError α) : Run α :=
  match result with
  | .ok a => pure a
  | .error error => throw (.failed error)

def perform (env : Environment) (op : Op) (message : String) : Run Unit := fun m =>
  match env.fault m.clock with
  | .none => match op.apply m.tree with
    | some tree => .ok () (m.after op tree)
    | none => .error (.failed ⟨message⟩) m.tick
  | .fails through => .error (.failed ⟨message⟩) (m.torn op through)
  | .stops through => .error .stopped (m.torn op through)

def check (env : Environment) (message : String) : Run Unit := fun m =>
  match env.fault m.clock with
  | .none => .ok () m.tick
  | .fails _ => .error (.failed ⟨message⟩) m.tick
  | .stops _ => .error .stopped m.tick

/-- What the tree shows, unless one of the reads fails with an error of its own. -/
def inspect (env : Environment) (result : Tree → Except ArtifactError α) (first : String)
    (others : List String) : Run (Except ArtifactError α) :=
  fun m =>
  match env.fault m.clock with
  | .none => .ok (result m.tree) m.tick
  | .fails which => .ok (.error ⟨(others[which]?).getD first⟩) m.tick
  | .stops _ => .error .stopped m.tick

/-- `Path::exists`: links are followed. -/
def pathExists (path : List Component) : Run Bool := gets fun m => (stat m.tree path).isSome

def uniqueSuffix (env : Environment) : Run Nat :=
  fun m => .ok (env.suffix m.suffixes) { m with suffixes := m.suffixes + 1 }

/-- `Path::join` with one name. -/
def join (platform : Platform) (path : List Component) (name : OsString) : List Component :=
  platform.push path name

/-- The directories of a path made one by one, those that are there passed over. -/
def createDirs (env : Environment) (message : String) : List Component → List Component → Run Unit
  | _, [] => pure ()
  | path, name :: names => do
      let there ← gets fun m => m.tree.dirAt (path ++ [name])
      if there = true then createDirs env message (path ++ [name]) names
      else do
        perform env (.mkdir (path ++ [name])) message
        createDirs env message (path ++ [name]) names

/-- `fs::create_dir_all`. -/
def createDirAll (env : Environment) (path : List Component) (message : String) : Run Unit :=
  createDirs env message [] path

def decimal (n : Nat) : OsString := (Nat.toDigits 10 n).map fun c => c.val.toUInt8

def dash : UInt8 := 45

def recoveryName (env : Environment) (label : String) (suffix : Nat) : OsString :=
  ascii label ++ dash :: decimal env.processId ++ dash :: decimal suffix

def recoverPath (platform : Platform) (env : Environment) (path recovery : List Component)
    (label : String) : Run Unit := do
  let there ← pathExists path
  if there = true then do
    createDirAll env recovery "artifact recovery directory could not be created"
    let suffix ← uniqueSuffix env
    perform env (.rename path (join platform recovery (recoveryName env label suffix)))
      "invalid artifact could not be preserved for recovery"
  else pure ()

variable {env : Environment} {op : Op} {message : String} {P : Machine → Prop}
  {E : Interrupt → Machine → Prop}

theorem torn_cases (m : Machine) (op : Op) (through : Nat) :
    m.torn op through = m.tick ∨ ∃ path bytes tree, op = .append path bytes ∧
      (FileOp.append path (bytes.take through)).apply m.tree = some tree ∧
      m.torn op through = m.after (.append path (bytes.take through)) tree := by
  cases op with
  | append path bytes =>
      cases happly : (FileOp.append path (bytes.take through)).apply m.tree with
      | none =>
          left
          simp only [Machine.torn, FileOp.torn, happly]
      | some tree =>
          refine Or.inr ⟨path, bytes, tree, rfl, happly, ?_⟩
          simp only [Machine.torn, FileOp.torn, happly]
  | mkdir | createNew | openCreate | rename => exact Or.inl rfl

theorem triple_perform {Q : Unit → Machine → Prop}
    (hok : ∀ m tree, P m → op.apply m.tree = some tree → Q () (m.after op tree))
    (hfail : ∀ m e, P m → E e m.tick)
    (htorn : ∀ m e path bytes through tree, P m → op = .append path bytes →
      (FileOp.append path (bytes.take through)).apply m.tree = some tree →
        E e (m.after (.append path (bytes.take through)) tree)) :
    Triple P (perform env op message) Q E := by
  intro m hm
  have hcut (e : Interrupt) (through : Nat) : E e (m.torn op through) := by
    rcases torn_cases m op through with htick | ⟨path, bytes, tree, hop, happly, hafter⟩
    · rw [htick]
      exact hfail m e hm
    · rw [hafter]
      exact htorn m e path bytes through tree hm hop happly
  rw [EStateM.run, perform]
  cases env.fault m.clock with
  | none =>
      cases happly : op.apply m.tree with
      | none => exact hfail m _ hm
      | some tree => exact hok m tree hm happly
  | fails through | stops through => exact hcut _ through

theorem triple_check {Q : Unit → Machine → Prop} (hok : ∀ m, P m → Q () m.tick)
    (hfail : ∀ m e, P m → E e m.tick) : Triple P (check env message) Q E := by
  intro m hm
  rw [EStateM.run, check]
  cases env.fault m.clock with
  | none => exact hok m hm
  | fails | stops => exact hfail m _ hm

theorem triple_inspect {result : Tree → Except ArtifactError α} {first : String}
    {others : List String} {Q : Except ArtifactError α → Machine → Prop}
    (hok : ∀ m, P m → Q (result m.tree) m.tick)
    (hunread : ∀ m error, P m → Q (.error error) m.tick) (hfail : ∀ m e, P m → E e m.tick) :
    Triple P (inspect env result first others) Q E := by
  intro m hm
  rw [EStateM.run, inspect]
  cases env.fault m.clock with
  | none => exact hok m hm
  | fails => exact hunread m _ hm
  | stops => exact hfail m _ hm

theorem triple_failOn {result : Except ArtifactError α} (hfail : ∀ m e, P m → E e m) :
    Triple P (failOn result) (fun a m => P m ∧ result = .ok a) E := by
  intro m hm
  cases result with
  | ok a => exact ⟨hm, rfl⟩
  | error error => exact hfail m _ hm

theorem leaves_of_triple {p : Run α} {Q : Machine → Prop} (h : Triple P p (fun _ => Q) fun _ => Q)
    {m : Machine} (hm : P m) : Q (leaves p m) := by
  unfold leaves
  cases hp : p.run m with
  | ok a t => exact h.ok hm hp
  | error e t => exact h.error hm hp

variable {I : Machine → Prop} {path : List Component}

theorem keeps_perform (htick : ∀ m, I m → I m.tick)
    (hop : ∀ m tree, I m → op.apply m.tree = some tree → I (m.after op tree))
    (htorn : ∀ m target bytes through tree, I m → op = .append target bytes →
      (FileOp.append target (bytes.take through)).apply m.tree = some tree →
      I (m.after (.append target (bytes.take through)) tree)) :
    Preserves I (perform env op message) :=
  triple_perform hop (fun m _ => htick m) fun m _ => htorn m

theorem keeps_check (htick : ∀ m, I m → I m.tick) : Preserves I (check env message) :=
  triple_check htick fun m _ => htick m

theorem keeps_inspect (htick : ∀ m, I m → I m.tick) {result : Tree → Except ArtifactError α}
    {first : String} {others : List String} : Preserves I (inspect env result first others) :=
  triple_inspect htick (fun m _ => htick m) fun m _ => htick m

theorem keeps_fail : Preserves I (fail message : Run α) := fun _ hm => hm

theorem keeps_failOn (result : Except ArtifactError α) : Preserves I (failOn result) := by
  intro m hm
  cases result <;> exact hm

theorem keeps_createDirAll (htick : ∀ m, I m → I m.tick)
    (hop : ∀ m target tree, I m → target ≠ [] → target <+: path → m.tree.dirAt target = false →
      (FileOp.mkdir target).apply m.tree = some tree → I (m.after (.mkdir target) tree)) :
    Preserves I (createDirAll env path message) := by
  suffices h : ∀ names done, done ++ names = path →
      Preserves I (createDirs env message done names) from h path [] rfl
  intro names
  induction names with
  | nil => exact fun _ _ => Preserves.pure _
  | cons name names ih =>
      intro done hpath
      have hrest := ih (done ++ [name]) (by rw [List.append_assoc]; exact hpath)
      apply Triple.of_eq
      intro m hm
      rw [createDirs]
      apply at_gets
      split
      · rintro m rfl
        exact hrest m hm
      · next hdir =>
          have hmkdir :
              Triple (fun t => t = m) (perform env (.mkdir (done ++ [name])) message) (fun _ => I)
              fun _ => I := by
            apply triple_perform
            · rintro m tree rfl happly
              refine hop _ _ tree hm (by simp) ⟨names, ?_⟩ (by simpa using hdir) happly
              rw [List.append_assoc]
              exact hpath
            · rintro m _ rfl
              exact htick _ hm
            · intro _ _ _ _ _ _ _ heq
              cases heq
          exact hmkdir.bind fun _ => hrest

end ImpossibleVoice.Artifacts

import ImpossibleVoice.Artifacts.Extract

namespace ImpossibleVoice.Artifacts

open Lib

variable {platform : Platform} {staging path target destination : List Component}
  {limit total : Nat} {base j : Journal Component UInt8}
  {added ops before : List Op} {op : Op} {tree : Tree} {names names' : List OsString}

def Below (platform : Platform) (staging path : List Component) : Prop :=
  ∃ names : List OsString, names ≠ [] ∧
    (∀ name ∈ names, PlainName platform name ∧ Confined platform name) ∧
    path = staging ++ names.map .normal

/-- An operation below a directory; nothing is renamed, and nothing is opened that is there. -/
inductive Unpacks (platform : Platform) (staging : List Component) : Op → Prop
  | mkdir {path : List Component} (h : Below platform staging path) :
      Unpacks platform staging (.mkdir path)
  | createNew {path : List Component} (h : Below platform staging path) :
      Unpacks platform staging (.createNew path)
  | append {path : List Component} {bytes : Bytes} (h : Below platform staging path) :
      Unpacks platform staging (.append path bytes)

def asciiLower (b : UInt8) : UInt8 := if 65 ≤ b ∧ b ≤ 90 then b + 32 else b

def Component.folded : Component → Component
  | .pathPrefix text => .pathPrefix (text.map asciiLower)
  | .normal name => .normal (name.map asciiLower)
  | .rootDir => .rootDir
  | .curDir => .curDir
  | .parentDir => .parentDir

def SameButForCase (p q : List Component) : Prop := p.map Component.folded = q.map Component.folded

def createdBy : Op → Option (List Component)
  | .createNew path => some path
  | _ => none

def created (ops : List Op) : List (List Component) := ops.filterMap createdBy

def writtenBy : Op → Nat
  | .append _ bytes => bytes.length
  | _ => 0

def payload : List Op → Nat
  | [] => 0
  | op :: ops => writtenBy op + payload ops

structure Contained (platform : Platform) (staging : List Component) (limit : Nat) (ops : List Op) :
    Prop where
  below : ∀ op ∈ ops, Unpacks platform staging op
  /-- No file is created twice, not even up to ASCII case. -/
  once : (created ops).Pairwise fun p q => ¬ SameButForCase p q
  /-- Only the file created last is written. -/
  own : ∀ before path bytes after, ops = before ++ .append path bytes :: after →
    (created before).getLast? = some path
  bounded : payload ops ≤ limit

@[simp] theorem created_append (ops ops' : List Op) :
    created (ops ++ ops') = created ops ++ created ops' :=
  List.filterMap_append

theorem created_singleton (op : Op) : created [op] = (createdBy op).toList := by
  cases op <;> rfl

@[simp] theorem payload_append (ops ops' : List Op) :
    payload (ops ++ ops') = payload ops + payload ops' := by
  induction ops with
  | nil => exact (Nat.zero_add _).symm
  | cons op ops ih => rw [List.cons_append, payload, payload, ih, Nat.add_assoc]

theorem Contained.empty (platform : Platform) (staging : List Component) (limit : Nat) :
    Contained platform staging limit [] where
  below := fun _ hop => absurd hop List.not_mem_nil
  once := List.Pairwise.nil
  own := fun before path bytes after h => absurd h (by simp)
  bounded := Nat.zero_le limit

theorem Contained.of_before (h : Contained platform staging limit ops) (hbefore : before <+: ops) :
    Contained platform staging limit before := by
  obtain ⟨after, rfl⟩ := hbefore
  have honce := h.once
  have hbounded := h.bounded
  rw [created_append, List.pairwise_append] at honce
  rw [payload_append] at hbounded
  refine ⟨fun op hop => h.below op (List.mem_append_left _ hop), honce.1, ?_, by omega⟩
  rintro first path bytes rest rfl
  exact h.own first path bytes (rest ++ after) (by simp)

theorem Contained.snoc (h : Contained platform staging limit ops)
    (hop : Unpacks platform staging op)
    (hfresh : ∀ path, op = .createNew path → ∀ p ∈ created ops, ¬ SameButForCase p path)
    (hown : ∀ path bytes, op = .append path bytes → (created ops).getLast? = some path)
    (hbound : payload ops + writtenBy op ≤ limit) :
    Contained platform staging limit (ops ++ [op]) where
  below := by
    intro op' hop'
    rcases List.mem_append.mp hop' with hop' | hop'
    · exact h.below op' hop'
    · rw [List.mem_singleton.mp hop']
      exact hop
  once := by
    rw [created_append, List.pairwise_append]
    refine ⟨h.once, ?_, ?_⟩
    · rw [created_singleton]
      cases createdBy op with
      | none => exact List.Pairwise.nil
      | some path => exact List.pairwise_singleton _ _
    · intro p hp q hq
      cases op with
      | createNew path =>
          rw [List.mem_singleton.mp hq]
          exact hfresh path rfl p hp
      | mkdir | append | openCreate | rename => cases hq
  own := by
    intro before path bytes after heq
    rcases List.eq_nil_or_concat after with rfl | ⟨after, last, rfl⟩
    · obtain ⟨rfl, hlast⟩ := List.append_inj' heq rfl
      exact hown path bytes (List.cons.inj hlast).1
    · rw [List.concat_eq_append, ← List.cons_append, ← List.append_assoc] at heq
      exact h.own before path bytes after (List.append_inj' heq rfl).1
  bounded := by
    rw [payload_append]
    exact hbound

theorem dirAt_of_above {t : Tree} {p q : List Component} (h : t.dirAt q = true) (hpq : p <+: q) :
    t.dirAt p = true := by
  obtain ⟨rest, rfl⟩ := hpq
  cases rest with
  | nil => rwa [List.append_nil] at h
  | cons name rest =>
      obtain ⟨n, hn, _⟩ := Node.find_eq_some_of_dirAt h
      exact Node.dirAt_of_find (q := name :: rest) (by rw [hn]; exact Option.some_ne_none n)
        (List.cons_ne_nil _ _)

theorem Below.of_before (h : Below platform staging path) (hdir : tree.dirAt staging = true)
    (hpath : target <+: path) (htarget : tree.dirAt target = false) :
    Below platform staging target := by
  obtain ⟨names, _, hplain, rfl⟩ := h
  rcases List.prefix_or_prefix_of_prefix hpath
    (List.prefix_append staging (names.map .normal)) with habove | ⟨rest, rfl⟩
  · rw [dirAt_of_above hdir habove] at htarget
    cases htarget
  · obtain ⟨some, hsome, rfl⟩ :=
      List.prefix_map_iff.mp ((List.prefix_append_right_inj staging).mp hpath)
    refine ⟨some, ?_, fun name hname => hplain name (hsome.subset hname), rfl⟩
    rintro rfl
    rw [List.map_nil, List.append_nil, hdir] at htarget
    cases htarget

theorem Unpacks.spares (h : Unpacks platform staging op) {t t' : Tree} (hop : op.apply t = some t')
    (hdir : t.dirAt staging = true) : t'.dirAt staging = true := by
  apply FileOp.dirAt_of_apply hop hdir
  rintro source target rfl
  cases h

def collisionKey (platform : Platform) (names : List OsString) : Bytes :=
  ((platform.render (names.map .normal)).map fun b => if b = backslash then slash else b).map
    asciiLower

theorem asciiLower_turned (b : UInt8) : asciiLower (if b = backslash then slash else b) =
    if asciiLower b = backslash then slash else asciiLower b := by
  by_cases hb : b = backslash
  · rw [hb]
    rfl
  · rw [if_neg hb, if_neg]
    unfold asciiLower
    split <;> grind [backslash]

theorem map_intercalate (f : UInt8 → UInt8) (sep : OsString) (names : List OsString) :
    (sep.intercalate names).map f = (sep.map f).intercalate (names.map (List.map f)) := by
  induction names with
  | nil => rfl
  | cons name names ih =>
      cases names with
      | nil => simp [List.intercalate]
      | cons next names => simpa [List.intercalate, List.intersperse] using ih

theorem collisionKey_of_sameButForCase
    (h : SameButForCase (staging ++ names.map .normal) (staging ++ names'.map .normal)) :
    collisionKey platform names = collisionKey platform names' := by
  have hkey (names : List OsString) : collisionKey platform names =
      ([platform.mainSeparator].intercalate (names.map (List.map asciiLower))).map fun b =>
        if b = backslash then slash else b := by
    have hsep : [platform.mainSeparator] = [platform.mainSeparator].map asciiLower := by
      cases platform <;> rfl
    rw [collisionKey, render_normal, List.map_map]
    conv_rhs => rw [hsep, ← map_intercalate, List.map_map]
    exact List.map_congr_left fun b _ => asciiLower_turned b
  have hnames : (names.map (List.map asciiLower)).map Component.normal =
      (names'.map (List.map asciiLower)).map .normal := by
    rw [SameButForCase, List.map_append, List.map_append, List.append_cancel_left_eq, List.map_map,
      List.map_map] at h
    rw [List.map_map, List.map_map]
    exact h
  rw [hkey, hkey, List.map_injective_iff.mpr (fun _ _ heq => Component.normal.inj heq) hnames]

end ImpossibleVoice.Artifacts

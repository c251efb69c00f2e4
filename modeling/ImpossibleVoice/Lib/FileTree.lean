import Mathlib.Data.List.Basic
import Mathlib.Data.List.Nodup
import Mathlib.Data.List.Infix

namespace ImpossibleVoice.Lib

inductive Node (ν β : Type) where
  | file (content : List β)
  | dir (entries : List (ν × Node ν β))
  | link (target : Option (Node ν β))
  | other

namespace Node

variable {ν β : Type} {n m : Node ν β} {p q : List ν} {v : Option (Node ν β)} {x y : ν}

def follow : Node ν β → Option (Node ν β)
  | link target => target
  | node => some node

def isDir (node : Node ν β) : Bool :=
  match node.follow with
  | some (dir _) => true
  | _ => false

def entries (node : Node ν β) : List (ν × Node ν β) :=
  match node.follow with
  | some (dir entries) => entries
  | _ => []

def bytes (node : Node ν β) : Option (List β) :=
  match node.follow with
  | some (file content) => some content
  | _ => none

def setEntries (entries : List (ν × Node ν β)) : Node ν β → Node ν β
  | dir _ => dir entries
  | link (some (dir _)) => link (some (dir entries))
  | node => node

theorem entries_setEntries (h : n.isDir = true) (es : List (ν × Node ν β)) :
    (n.setEntries es).entries = es := by
  match n, h with
  | dir _, _ => rfl
  | link (some (dir _)), _ => rfl

theorem isDir_setEntries (n : Node ν β) (es : List (ν × Node ν β)) :
    (n.setEntries es).isDir = n.isDir := by
  match n with
  | dir _ | file _ | other | link none => rfl
  | link (some (dir _)) | link (some (file _)) | link (some other) | link (some (link _)) => rfl

theorem setEntries_of_not_isDir (h : n.isDir = false) (es : List (ν × Node ν β)) :
    n.setEntries es = n := by
  match n, h with
  | file _, _ | other, _ | link none, _ => rfl
  | link (some (file _)), _ | link (some other), _ | link (some (link _)), _ => rfl

theorem entries_of_not_isDir (h : n.isDir = false) : n.entries = [] := by
  match n, h with
  | file _, _ | other, _ | link none, _ => rfl
  | link (some (file _)), _ | link (some other), _ | link (some (link _)), _ => rfl

mutual

def directories : Node ν β → Nat
  | dir entries => directoriesOf entries + 1
  | file _ | link _ | other => 0

def directoriesOf : List (ν × Node ν β) → Nat
  | [] => 0
  | (_, node) :: entries => node.directories + directoriesOf entries

end

variable [DecidableEq ν]

def assign (x : ν) (v : Option (Node ν β)) (entries : List (ν × Node ν β)) : List (ν × Node ν β) :=
  entries.filter (fun e => e.1 ≠ x) ++ (v.map fun node => (x, node)).toList

def find (node : Node ν β) : List ν → Option (Node ν β)
  | [] => some node
  | x :: p => (node.entries.lookup x).bind fun child => child.find p

/-- The tree with what is at a path replaced, or removed; the root stays. -/
def put (v : Option (Node ν β)) : List ν → Node ν β → Node ν β
  | [], node => node
  | x :: p, node =>
      node.setEntries
        (assign x (if p = [] then v else (node.entries.lookup x).map (put v p)) node.entries)

def dirAt (node : Node ν β) (p : List ν) : Bool := (node.find p).any isDir

theorem lookup_assign_self (x : ν) (v : Option (Node ν β)) (es : List (ν × Node ν β)) :
    (assign x v es).lookup x = v := by
  have hnone : (es.filter fun e => e.1 ≠ x).lookup x = none := by
    rw [List.lookup_eq_none_iff]
    intro e he
    simpa using (Ne.symm (of_decide_eq_true (List.mem_filter.mp he).2))
  rw [assign, List.lookup_append, hnone]
  cases v with
  | none => rfl
  | some node => simp

theorem lookup_assign_of_ne (h : y ≠ x) (v : Option (Node ν β)) (es : List (ν × Node ν β)) :
    (assign x v es).lookup y = es.lookup y := by
  have hv : ((v.map fun node => (x, node)).toList).lookup y = none := by
    cases v with
    | none => rfl
    | some node => simp [h]
  rw [assign, List.lookup_append, hv, Option.or_none]
  induction es with
  | nil => rfl
  | cons e es ih =>
      by_cases he : e.1 = x
      · have hy : (y == e.1) = false := by simpa [he] using h
        rw [List.filter_cons_of_neg (by simpa using he), ih, List.lookup_cons, hy]
      · rw [List.filter_cons_of_pos (by simpa using he), List.lookup_cons, List.lookup_cons, ih]

@[simp] theorem find_nil (n : Node ν β) : n.find [] = some n := rfl

theorem find_cons (n : Node ν β) (x : ν) (p : List ν) :
    n.find (x :: p) = (n.entries.lookup x).bind fun child => child.find p :=
  rfl

theorem find_append (n : Node ν β) (p q : List ν) :
    n.find (p ++ q) = (n.find p).bind fun m => m.find q := by
  induction p generalizing n with
  | nil => rfl
  | cons x p ih =>
      rw [List.cons_append, find_cons, find_cons]
      cases n.entries.lookup x with
      | none => rfl
      | some child => exact ih child

theorem find_append_of_eq (h : n.find p = some m) (q : List ν) : n.find (p ++ q) = m.find q := by
  rw [find_append, h]
  rfl

theorem find_append_none (h : n.find p = none) (q : List ν) : n.find (p ++ q) = none := by
  rw [find_append, h]
  rfl

theorem dirAt_of_find (h : n.find (p ++ q) ≠ none) (hq : q ≠ []) : n.dirAt p = true := by
  rw [find_append] at h
  cases hp : n.find p with
  | none => rw [hp] at h; exact absurd rfl h
  | some m =>
      rw [dirAt, hp]
      cases q with
      | nil => exact absurd rfl hq
      | cons y q =>
          rw [Option.any_some]
          by_contra hdir
          rw [hp, Option.bind_some, find_cons,
            entries_of_not_isDir (Bool.eq_false_iff.mpr hdir)] at h
          exact h rfl

theorem find_eq_some_of_dirAt (h : n.dirAt p = true) : ∃ m, n.find p = some m ∧ m.isDir = true := by
  rw [dirAt] at h
  cases hp : n.find p with
  | none => rw [hp] at h; cases h
  | some m =>
      rw [hp] at h
      exact ⟨m, rfl, h⟩

theorem isDir_put (v : Option (Node ν β)) (p : List ν) (n : Node ν β) :
    (put v p n).isDir = n.isDir := by
  cases p with
  | nil => rfl
  | cons x p => exact isDir_setEntries n _

theorem find_put_self (v : Option (Node ν β)) (h : n.dirAt p = true) (x : ν) :
    (put v (p ++ [x]) n).find (p ++ [x]) = v := by
  obtain ⟨m, hm, hdir⟩ := find_eq_some_of_dirAt h
  clear h
  induction p generalizing n with
  | nil =>
      cases hm
      rw [List.nil_append, put, find_cons, entries_setEntries hdir, lookup_assign_self, if_pos rfl]
      cases v <;> rfl
  | cons y p ih =>
      rw [find_cons] at hm
      obtain ⟨child, hchild, hm⟩ := Option.bind_eq_some_iff.mp hm
      have hn : n.isDir = true := by
        by_contra hn
        rw [entries_of_not_isDir (Bool.eq_false_iff.mpr hn)] at hchild
        cases hchild
      rw [List.cons_append, put, find_cons, entries_setEntries hn, lookup_assign_self,
        if_neg (by simp), hchild]
      exact ih hm

theorem find_put_of_beside (v : Option (Node ν β)) (n : Node ν β) (h : ¬ p <+: q) (h' : ¬ q <+: p) :
    (put v p n).find q = n.find q := by
  induction p generalizing n q with
  | nil => exact absurd List.nil_prefix h
  | cons x p ih =>
      cases q with
      | nil => exact absurd List.nil_prefix h'
      | cons y q =>
          by_cases hn : n.isDir = true
          · rw [put, find_cons, find_cons, entries_setEntries hn]
            by_cases hxy : y = x
            · subst hxy
              have hp : ¬ p <+: q := fun hpq => h (List.cons_prefix_cons.mpr ⟨rfl, hpq⟩)
              have hq : ¬ q <+: p := fun hqp => h' (List.cons_prefix_cons.mpr ⟨rfl, hqp⟩)
              have hne : p ≠ [] := fun hnil => hp (hnil ▸ List.nil_prefix)
              rw [lookup_assign_self, if_neg hne]
              cases n.entries.lookup y with
              | none => rfl
              | some child => exact ih child hp hq
            · rw [lookup_assign_of_ne hxy]
          · rw [put, setEntries_of_not_isDir (Bool.eq_false_iff.mpr hn)]

/-- What is put below a path changes what is there by that much. -/
theorem find_put_above (v : Option (Node ν β)) (n : Node ν β) (q : List ν) (hp : p ≠ []) :
    (put v (q ++ p) n).find q = (n.find q).map (put v p) := by
  induction q generalizing n with
  | nil => rfl
  | cons y q ih =>
      by_cases hn : n.isDir = true
      · rw [List.cons_append, put, find_cons, find_cons, entries_setEntries hn, lookup_assign_self,
          if_neg (by simp [hp])]
        cases n.entries.lookup y with
        | none => rfl
        | some child => exact ih child
      · rw [List.cons_append, put, setEntries_of_not_isDir (Bool.eq_false_iff.mpr hn), find_cons,
          entries_of_not_isDir (Bool.eq_false_iff.mpr hn)]
        rfl

theorem dirAt_put_above (v : Option (Node ν β)) (n : Node ν β) (q : List ν) (hp : p ≠ []) :
    (put v (q ++ p) n).dirAt q = n.dirAt q := by
  rw [dirAt, dirAt, find_put_above v n q hp]
  cases n.find q with
  | none => rfl
  | some m => exact isDir_put v p m

def Reaches (n : Node ν β) : List ν → Node ν β → Prop
  | [], m => m = n
  | x :: p, m => ∃ child, (x, child) ∈ n.entries ∧ child.Reaches p m

def Distinct (n : Node ν β) : Prop := ∀ p m, n.find p = some m → (m.entries.map Prod.fst).Nodup

theorem lookup_eq_some_of_nodup {es : List (ν × Node ν β)} (h : (es.map Prod.fst).Nodup) :
    es.lookup x = some n ↔ (x, n) ∈ es := by
  induction es with
  | nil => simp
  | cons e es ih =>
      rw [List.map_cons, List.nodup_cons] at h
      rw [List.lookup_cons, List.mem_cons]
      by_cases hx : x = e.1
      · rw [hx]
        simp only [BEq.rfl]
        constructor
        · rintro ⟨⟩
          exact Or.inl rfl
        · rintro (heq | hmem)
          · rw [← heq]
          · exact absurd (List.mem_map_of_mem hmem) h.1
      · have hbeq : (x == e.1) = false := by simpa using hx
        rw [hbeq]
        simp only [ih h.2]
        constructor
        · exact Or.inr
        · rintro (rfl | hmem)
          · exact absurd rfl hx
          · exact hmem

theorem Distinct.child (h : n.Distinct) (hx : n.entries.lookup x = some m) : m.Distinct := by
  intro p k hk
  apply h (x :: p) k
  rw [find_cons, hx]
  exact hk

theorem Distinct.reaches_iff (h : n.Distinct) : n.Reaches p m ↔ n.find p = some m := by
  induction p generalizing n with
  | nil =>
      rw [Reaches, find_nil, Option.some_inj]
      exact eq_comm
  | cons x p ih =>
      rw [Reaches, find_cons, Option.bind_eq_some_iff]
      have hnodup := h [] n rfl
      constructor
      · rintro ⟨child, hchild, hreach⟩
        have hx := (lookup_eq_some_of_nodup hnodup).mpr hchild
        exact ⟨child, hx, (ih (h.child hx)).mp hreach⟩
      · rintro ⟨child, hx, hfind⟩
        exact ⟨child, (lookup_eq_some_of_nodup hnodup).mp hx, (ih (h.child hx)).mpr hfind⟩

end Node

end ImpossibleVoice.Lib

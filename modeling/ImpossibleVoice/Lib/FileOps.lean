import ImpossibleVoice.Lib.FileTree

namespace ImpossibleVoice.Lib

/-- One operation of a file system. `openCreate` opens for writing and keeps what is there. -/
inductive FileOp (ν β : Type) where
  | mkdir (path : List ν)
  | createNew (path : List ν)
  | append (path : List ν) (bytes : List β)
  | openCreate (path : List ν)
  | rename (source target : List ν)

variable {ν β : Type} [DecidableEq ν] {t t' : Node ν β} {o p q r : List ν}
  {n m : Node ν β} {c : List β}

namespace Node

/-- The tree with a new entry, whose directory must be there and whose name must be free. -/
def create (node : Node ν β) (p : List ν) (t : Node ν β) : Option (Node ν β) :=
  if p ≠ [] ∧ t.dirAt p.dropLast = true ∧ (t.find p).isNone = true then some (t.put (some node) p)
    else none

/-- Whether moving `source` to a place replaces what is there without an error: a directory
replaces an empty one, anything else replaces whatever is no directory. -/
def yields (source : Node ν β) : Option (Node ν β) → Bool
  | none => true
  | some (dir []) => match source with
      | dir _ => true
      | _ => false
  | some (dir (_ :: _)) => false
  | some _ => match source with
      | dir _ => false
      | _ => true

end Node

namespace FileOp

def apply (op : FileOp ν β) (t : Node ν β) : Option (Node ν β) :=
  match op with
  | mkdir path => (Node.dir []).create path t
  | createNew path => (Node.file []).create path t
  | append path bytes =>
      match t.find path with
      | some (.file content) => some (t.put (some (.file (content ++ bytes))) path)
      | _ => none
  | openCreate path =>
      match t.find path with
      | none => (Node.file []).create path t
      | some (.file _) | some (.link (some (.file _))) => some t
      | some (.link none) => some (t.put (some (.link (some (.file [])))) path)
      | _ => none
  | rename source target =>
      match t.find source with
      | none => none
      | some node =>
          if source ≠ [] ∧ target ≠ [] ∧ ¬ source <+: target ∧ t.dirAt target.dropLast = true ∧
              node.yields (t.find target) = true then
            some ((t.put none source).put (some node) target)
          else none

def Spares (o : List ν) : FileOp ν β → Prop
  | mkdir path | createNew path | append path _ | openCreate path => ¬ o <+: path
  | rename source target => ¬ o <+: source ∧ ¬ source <+: o ∧ ¬ o <+: target ∧ ¬ target <+: o

end FileOp

namespace Node

theorem find_put (v : Option (Node ν β)) (hp : p ≠ []) (h : t.dirAt p.dropLast = true) :
    (put v p t).find p = v := by
  have hself := find_put_self v h (p.getLast hp)
  rwa [List.dropLast_append_getLast hp] at hself

theorem find_put_below (v : Option (Node ν β)) (hp : p ≠ []) (h : t.dirAt p.dropLast = true)
    (q : List ν) : (put v p t).find (p ++ q) = v.bind fun m => m.find q := by
  rw [find_append, find_put v hp h]

theorem create_eq_some (h : n.create p t = some t') :
    p ≠ [] ∧ t.dirAt p.dropLast = true ∧ t.find p = none ∧ t' = t.put (some n) p := by
  unfold create at h
  split at h
  · next hguard =>
      cases h
      exact ⟨hguard.1, hguard.2.1, Option.isNone_iff_eq_none.mp hguard.2.2, rfl⟩
  · cases h

theorem find_create (h : n.create p t = some t') : t'.find p = some n := by
  obtain ⟨hp, hdir, _, rfl⟩ := create_eq_some h
  exact find_put _ hp hdir

def IsLeaf (n : Node ν β) : Prop := ∀ q, q ≠ [] → n.find q = none

theorem isLeaf_of_entries (h : n.entries = []) : n.IsLeaf := by
  intro q hq
  cases q with
  | nil => exact absurd rfl hq
  | cons x q => rw [find_cons, h]; rfl

theorem isLeaf_file (c : List β) : (file c : Node ν β).IsLeaf := isLeaf_of_entries rfl

theorem isLeaf_emptyDir : (dir [] : Node ν β).IsLeaf := isLeaf_of_entries rfl

theorem find_of_leaf_above (hleaf : n.IsLeaf) (hp : t.find p = some n) (h : p <+: q) (hne : p ≠ q) :
    t.find q = none := by
  obtain ⟨rest, rfl⟩ := h
  rw [find_append_of_eq hp]
  refine hleaf rest fun hnil => hne ?_
  rw [hnil, List.append_nil]

theorem find_none_below (hp : t.find p = none) (h : p <+: q) : t.find q = none := by
  obtain ⟨rest, rfl⟩ := h
  exact find_append_none hp rest

theorem find_put_leaf (hleaf : n.IsLeaf) (hp : p ≠ []) (hdir : t.dirAt p.dropLast = true)
    (hwas : ∀ m, t.find p = some m → m.IsLeaf) (h : ¬ o <+: p) :
    (put (some n) p t).find o = t.find o := by
  by_cases hpo : p <+: o
  · have hne : p ≠ o := fun heq => h (heq ▸ List.prefix_refl p)
    have hbefore : t.find o = none := by
      cases hfind : t.find p with
      | none => exact find_none_below hfind hpo
      | some m => exact find_of_leaf_above (hwas m hfind) hfind hpo hne
    rw [hbefore, find_of_leaf_above hleaf (find_put _ hp hdir) hpo hne]
  · exact find_put_of_beside _ _ hpo h

theorem dirAt_put_of_not_below (v : Option (Node ν β)) (t : Node ν β) (h : ¬ p <+: o) :
    (put v p t).dirAt o = t.dirAt o := by
  by_cases ho : o <+: p
  · obtain ⟨rest, rfl⟩ := ho
    refine dirAt_put_above v t o fun hnil => h ?_
    rw [hnil, List.append_nil]
  · rw [dirAt, dirAt, find_put_of_beside v t h ho]

theorem dirAt_dropLast_of_find (hp : p ≠ []) (h : t.find p ≠ none) : t.dirAt p.dropLast = true := by
  rw [← List.dropLast_append_getLast hp] at h
  exact dirAt_of_find h (List.cons_ne_nil _ _)

theorem find_overwrite_leaf (hm : m.IsLeaf) (hn : n.IsLeaf) (hfind : t.find p = some n)
    (h : ¬ o <+: p) : (put (some m) p t).find o = t.find o := by
  by_cases hp : p = []
  · subst hp
    rfl
  · apply find_put_leaf hm hp
      (dirAt_dropLast_of_find hp (by rw [hfind]; exact Option.some_ne_none _)) ?_ h
    intro k hk
    rw [hfind] at hk
    cases hk
    exact hn

/-- No directory is below something that is none. -/
theorem not_prefix_of_dirAt (hleaf : n.IsLeaf) (hn : n.isDir = false) (hfind : t.find o = some n)
    (hdir : t.dirAt p = true) : ¬ o <+: p := by
  intro hop
  obtain ⟨m, hm, hmdir⟩ := find_eq_some_of_dirAt hdir
  by_cases heq : o = p
  · rw [← heq, hfind] at hm
    cases hm
    rw [hn] at hmdir
    cases hmdir
  · rw [find_of_leaf_above hleaf hfind hop heq] at hm
    cases hm

end Node

namespace FileOp

open Node

variable {op : FileOp ν β}

theorem append_eq_some (h : (append p c).apply t = some t') :
    ∃ content, t.find p = some (.file content) ∧ t' = t.put (some (.file (content ++ c))) p := by
  unfold apply at h
  simp only at h
  split at h
  · next content hfind =>
      cases h
      exact ⟨content, hfind, rfl⟩
  · cases h

theorem find_of_append (h : (append p c).apply t = some t') {b : List β}
    (hfile : t.find p = some (.file b)) (hp : p ≠ []) : t'.find p = some (.file (b ++ c)) := by
  obtain ⟨content, hfind, rfl⟩ := append_eq_some h
  rw [hfile] at hfind
  cases hfind
  exact find_put _ hp (dirAt_dropLast_of_find hp (by rw [hfile]; exact Option.some_ne_none _))

theorem rename_eq_some (h : (rename p q).apply t = some t') :
    ∃ n, t.find p = some n ∧ p ≠ [] ∧ q ≠ [] ∧ ¬ p <+: q ∧ t.dirAt q.dropLast = true ∧
    n.yields (t.find q) = true ∧ t' = (t.put none p).put (some n) q := by
  unfold apply at h
  simp only at h
  split at h
  · cases h
  · next n hfind =>
      split at h
      · next hguard =>
          cases h
          exact ⟨n, hfind, hguard.1, hguard.2.1, hguard.2.2.1, hguard.2.2.2.1, hguard.2.2.2.2, rfl⟩
      · cases h

/-- Opening for writing makes an empty file, follows a link that leads nowhere, or changes
nothing. -/
theorem openCreate_eq_some (h : (openCreate p).apply t = some t') :
    t' = t ∧ (∃ n, t.find p = some n ∧ n.bytes ≠ none) ∨
      (t.find p = none ∧ p ≠ [] ∧ t.dirAt p.dropLast = true ∧ t' = t.put (some (.file [])) p) ∨
      (t.find p = some (.link none) ∧ t' = t.put (some (.link (some (.file [])))) p) := by
  unfold apply at h
  simp only at h
  split at h
  · next hfind =>
      obtain ⟨hp, hdir, _, rfl⟩ := create_eq_some h
      exact Or.inr (Or.inl ⟨hfind, hp, hdir, rfl⟩)
  · next hfind =>
      cases h
      exact Or.inl ⟨rfl, _, hfind, Option.some_ne_none _⟩
  · next hfind =>
      cases h
      exact Or.inl ⟨rfl, _, hfind, Option.some_ne_none _⟩
  · next hfind =>
      cases h
      exact Or.inr (Or.inr ⟨hfind, rfl⟩)
  · cases h

theorem dirAt_target_of_rename (h : (rename p q).apply t = some t') :
    (t.put none p).dirAt q.dropLast = true := by
  obtain ⟨n, _, _, _, hpq, hdir, _, _⟩ := rename_eq_some h
  rw [dirAt_put_of_not_below]
  · exact hdir
  · exact fun hbelow => hpq (hbelow.trans (List.dropLast_prefix q))

theorem find_target_of_rename (h : (rename p q).apply t = some t') (hfind : t.find p = some n)
    (rest : List ν) : t'.find (q ++ rest) = n.find rest := by
  have hdir := dirAt_target_of_rename h
  obtain ⟨m, hm, _, hq, _, _, _, rfl⟩ := rename_eq_some h
  rw [hfind] at hm
  cases hm
  rw [find_put_below _ hq hdir]
  rfl

theorem find_of_rename (h : (rename p q).apply t = some t') (hp : ¬ p <+: o) (hp' : ¬ o <+: p)
    (hq : ¬ q <+: o) (hq' : ¬ o <+: q) : t'.find o = t.find o := by
  obtain ⟨n, _, _, _, _, _, _, rfl⟩ := rename_eq_some h
  rw [find_put_of_beside _ _ hq hq', find_put_of_beside _ _ hp hp']

theorem find_of_spares (h : op.apply t = some t') (hs : op.Spares o) : t'.find o = t.find o := by
  cases op with
  | mkdir path =>
      obtain ⟨hp, hdir, hnone, rfl⟩ := create_eq_some h
      exact find_put_leaf isLeaf_emptyDir hp hdir (fun m hm => by rw [hnone] at hm; cases hm) hs
  | createNew path =>
      obtain ⟨hp, hdir, hnone, rfl⟩ := create_eq_some h
      exact find_put_leaf (isLeaf_file []) hp hdir (fun m hm => by rw [hnone] at hm; cases hm) hs
  | append path bytes =>
      obtain ⟨content, hfind, rfl⟩ := append_eq_some h
      exact find_overwrite_leaf (isLeaf_file _) (isLeaf_file _) hfind hs
  | openCreate path =>
      obtain ⟨rfl, _⟩ | ⟨hnone, hp, hdir, rfl⟩ | ⟨hfind, rfl⟩ := openCreate_eq_some h
      · rfl
      · exact find_put_leaf (isLeaf_file []) hp hdir (fun m hm => by rw [hnone] at hm; cases hm) hs
      · exact find_overwrite_leaf (isLeaf_of_entries rfl) (isLeaf_of_entries rfl) hfind hs
  | rename source target => exact find_of_rename h hs.2.1 hs.1 hs.2.2.2 hs.2.2.1

theorem dirAt_of_apply (h : op.apply t = some t') (hd : t.dirAt o = true)
    (hr : ∀ source target, op = rename source target → ¬ source <+: o ∧ ¬ target <+: o) :
    t'.dirAt o = true := by
  have hcreate {p : List ν} {n : Node ν β} (hnone : t.find p = none) :
      (t.put (some n) p).dirAt o = true := by
    rw [dirAt_put_of_not_below, hd]
    intro hpo
    obtain ⟨k, hk, _⟩ := find_eq_some_of_dirAt hd
    rw [find_none_below hnone hpo] at hk
    cases hk
  have hleaf {p : List ν} {m n : Node ν β} (hfind : t.find p = some n) (hn : n.IsLeaf)
      (hdir : n.isDir = false) :
      (t.put (some m) p).dirAt o = true := by
    rw [dirAt_put_of_not_below, hd]
    intro hpo
    obtain ⟨k, hk, hkdir⟩ := find_eq_some_of_dirAt hd
    by_cases hne : p = o
    · rw [← hne, hfind] at hk
      cases hk
      rw [hdir] at hkdir
      cases hkdir
    · rw [find_of_leaf_above hn hfind hpo hne] at hk
      cases hk
  cases op with
  | mkdir path | createNew path =>
      obtain ⟨_, _, hnone, rfl⟩ := create_eq_some h
      exact hcreate hnone
  | append path bytes =>
      obtain ⟨content, hfind, rfl⟩ := append_eq_some h
      exact hleaf hfind (isLeaf_file _) rfl
  | openCreate path =>
      obtain ⟨rfl, _⟩ | ⟨hnone, _, _, rfl⟩ | ⟨hfind, rfl⟩ := openCreate_eq_some h
      · exact hd
      · exact hcreate hnone
      · exact hleaf hfind (isLeaf_of_entries rfl) rfl
  | rename source target =>
      obtain ⟨hsource, htarget⟩ := hr source target rfl
      obtain ⟨n, _, _, _, _, _, _, rfl⟩ := rename_eq_some h
      rw [dirAt_put_of_not_below _ _ htarget, dirAt_put_of_not_below _ _ hsource, hd]

/-- A regular file keeps its bytes unless it is appended to or moved, or something is moved over
it. -/
theorem file_of_apply (h : op.apply t = some t') (hfile : t.find o = some (.file c))
    (happend : ∀ bytes, op ≠ append o bytes)
    (hr : ∀ source target, op = rename source target →
      ¬ source <+: o ∧ (t.find target = none ∨ t.find target = some (.link none))) :
        t'.find o = some (.file c) := by
  have hbelow {p : List ν} (hdir : t.dirAt p.dropLast = true) (hop : o <+: p) (hp : p ≠ []) :
      o = p := by
    rw [← List.dropLast_append_getLast hp, List.prefix_concat_iff,
      List.dropLast_append_getLast hp] at hop
    exact hop.resolve_right (not_prefix_of_dirAt (isLeaf_file c) rfl hfile hdir)
  have hcreate {p : List ν} {n : Node ν β} (hp : p ≠ []) (hdir : t.dirAt p.dropLast = true)
      (hnone : t.find p = none)
      (hn : n.IsLeaf) : (t.put (some n) p).find o = some (.file c) := by
    rw [find_put_leaf hn hp hdir (fun m hm => by rw [hnone] at hm; cases hm), hfile]
    intro hop
    rw [hbelow hdir hop hp, hnone] at hfile
    cases hfile
  have hleaf {p : List ν} {m n : Node ν β} (hm : m.IsLeaf) (hn : n.IsLeaf)
      (hfind : t.find p = some n) (hne : o ≠ p) :
      (t.put (some m) p).find o = some (.file c) := by
    rw [find_overwrite_leaf hm hn hfind, hfile]
    intro hop
    rw [find_of_leaf_above (isLeaf_file c) hfile hop hne] at hfind
    cases hfind
  cases op with
  | mkdir path =>
      obtain ⟨hp, hdir, hnone, rfl⟩ := create_eq_some h
      exact hcreate hp hdir hnone isLeaf_emptyDir
  | createNew path =>
      obtain ⟨hp, hdir, hnone, rfl⟩ := create_eq_some h
      exact hcreate hp hdir hnone (isLeaf_file [])
  | append path bytes =>
      obtain ⟨content, hfind, rfl⟩ := append_eq_some h
      refine hleaf (isLeaf_file _) (isLeaf_file _) hfind ?_
      rintro rfl
      exact happend bytes rfl
  | openCreate path =>
      obtain ⟨rfl, _⟩ | ⟨hnone, hp, hdir, rfl⟩ | ⟨hfind, rfl⟩ := openCreate_eq_some h
      · exact hfile
      · exact hcreate hp hdir hnone (isLeaf_file [])
      · refine hleaf (isLeaf_of_entries rfl) (isLeaf_of_entries rfl) hfind ?_
        rintro rfl
        rw [hfind] at hfile
        cases hfile
  | rename source target =>
      obtain ⟨hsource, htarget⟩ := hr source target rfl
      obtain ⟨n, hn, _, hne, _, hdir, _, _⟩ := rename_eq_some h
      rw [find_of_rename h hsource ?_ ?_ ?_, hfile]
      · intro hos
        by_cases heq : o = source
        · exact hsource (heq ▸ List.prefix_refl _)
        · rw [find_of_leaf_above (isLeaf_file c) hfile hos heq] at hn
          cases hn
      · intro hto
        rcases htarget with hnone | hlink
        · rw [find_none_below hnone hto] at hfile
          cases hfile
        · by_cases heq : target = o
          · rw [← heq, hlink] at hfile
            cases hfile
          · rw [find_of_leaf_above (isLeaf_of_entries rfl) hlink hto heq] at hfile
            cases hfile
      · intro hot
        rw [hbelow hdir hot hne] at hfile
        rcases htarget with hnone | hlink
        · rw [hnone] at hfile
          cases hfile
        · rw [hlink] at hfile
          cases hfile

end FileOp

end ImpossibleVoice.Lib

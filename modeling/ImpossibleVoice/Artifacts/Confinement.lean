import ImpossibleVoice.Artifacts.Containment
import ImpossibleVoice.Artifacts.Detection

namespace ImpossibleVoice.Artifacts

open Lib

variable {platform : Platform} {env : Environment} {lib : Libraries}
  {staging path destination : List Component}
  {limit size total : Nat} {base : Journal Component UInt8} {added : List Op} {op : Op}
    {es : List Entry}
  {cs : List (List Component)} {names : List OsString} {m : Machine}

/-- Below `staging` the files `cs` have been made, with `total` bytes in them. -/
structure Unpacking (platform : Platform) (staging : List Component) (limit : Nat)
    (base : Journal Component UInt8) (cs : List (List Component)) (total : Nat)
    (j : Journal Component UInt8) : Prop where
  dir : j.tree.dirAt staging = true
  reached : Extends (fun _ op => Unpacks platform staging op) base j
  account : ∃ added, j.ops = base.ops ++ added ∧ Contained platform staging limit added ∧
    created added = cs ∧
    payload added = total

namespace Unpacking

variable {j : Journal Component UInt8} {tree : Tree}

theorem start (h : base.tree.dirAt staging = true) :
    Unpacking platform staging limit base [] 0 base :=
  ⟨h, .refl, [], (List.append_nil _).symm, .empty platform staging limit, rfl, rfl⟩

theorem total_le (h : Unpacking platform staging limit base cs total j) : total ≤ limit := by
  obtain ⟨_, _, hcontained, _, rfl⟩ := h.account
  exact hcontained.bounded

theorem step (h : Unpacking platform staging limit base cs total j)
    (hop : Unpacks platform staging op)
    (hfresh : ∀ path, op = .createNew path → ∀ p ∈ cs, ¬ SameButForCase p path)
    (hown : ∀ path bytes, op = .append path bytes → cs.getLast? = some path)
    (hbound : total + writtenBy op ≤ limit) (happly : op.apply j.tree = some tree) :
    Unpacking platform staging limit base (cs ++ (createdBy op).toList) (total + writtenBy op)
      (j.record op tree) := by
  obtain ⟨added, hops, hcontained, rfl, rfl⟩ := h.account
  refine ⟨hop.spares happly h.dir, .step h.reached hop happly, added ++ [op], ?_,
    hcontained.snoc hop hfresh hown hbound, ?_, ?_⟩
  · rw [Journal.record_ops, hops, List.append_assoc]
  · rw [created_append, created_singleton]
  · rw [payload_append]
    rfl

theorem mkdir (h : Unpacking platform staging limit base cs total j)
    (hpath : Below platform staging path) (happly : (FileOp.mkdir path).apply j.tree = some tree) :
    Unpacking platform staging limit base cs total (j.record (.mkdir path) tree) := by
  have hstep :=
    h.step (.mkdir hpath) (fun _ heq => by cases heq) (fun _ _ heq => by cases heq)
      h.total_le happly
  rwa [show cs ++ (createdBy (.mkdir path)).toList = cs from List.append_nil cs] at hstep

theorem createNew (h : Unpacking platform staging limit base cs total j)
    (hpath : Below platform staging path) (hfresh : ∀ p ∈ cs, ¬ SameButForCase p path)
    (happly : (FileOp.createNew path).apply j.tree = some tree) :
    Unpacking platform staging limit base (cs ++ [path]) total
      (j.record (.createNew path) tree) := by
  refine h.step (.createNew hpath) ?_ (fun _ _ heq => by cases heq) h.total_le happly
  rintro _ ⟨⟩
  exact hfresh

theorem append {bytes : Bytes} (h : Unpacking platform staging limit base (cs ++ [path]) total j)
    (hpath : Below platform staging path) (hbound : total + bytes.length ≤ limit)
    (happly : (FileOp.append path bytes).apply j.tree = some tree) :
    Unpacking platform staging limit base (cs ++ [path]) (total + bytes.length)
      (j.record (.append path bytes) tree) := by
  have hstep := h.step (.append hpath) (fun _ heq => by cases heq) (fun _ _ heq => ?_) hbound happly
  · rwa
      [show cs ++ [path] ++ (createdBy (.append path bytes)).toList =
      cs ++ [path] from List.append_nil _] at hstep
  · cases heq
    exact List.getLast?_concat

end Unpacking

def Stage (platform : Platform) (staging : List Component) (limit : Nat)
    (base : Journal Component UInt8) (es : List Entry) (cs : List (List Component)) (total : Nat)
    (m : Machine) : Prop :=
  m.entered = es ∧ Unpacking platform staging limit base cs total m.journal

def Halted (platform : Platform) (staging : List Component) (limit : Nat)
    (base : Journal Component UInt8) (es : List Entry) (m : Machine) : Prop :=
  ∃ cs total, Stage platform staging limit base es cs total m

theorem Stage.halted (h : Stage platform staging limit base es cs total m) :
    Halted platform staging limit base es m :=
  ⟨cs, total, h⟩

theorem triple_copyPayload (hpath : Below platform staging path) (reads : List (Option Bytes))
    (size : Nat) (hashed : Bytes) (total : Nat) :
    Triple (Stage platform staging limit base es (cs ++ [path]) total)
      (copyPayload env path limit reads size hashed total)
      (fun r => Stage platform staging limit base es (cs ++ [path]) r.2.2) fun _ =>
      Halted platform staging limit base es := by
  induction reads generalizing size hashed total with
  | nil => exact Triple.pure fun _ hm => hm
  | cons read reads ih =>
      cases read with
      | none => exact fun m hm => hm.halted
      | some bytes =>
          rw [copyPayload]
          refine Triple.bind
            (Q := fun _ => Stage platform staging limit base es (cs ++ [path]) total)
            (triple_check (fun m hm => hm) fun m _ hm => hm.halted) fun _ => ?_
          split
          · exact Triple.pure fun _ hm => hm
          · cases checkedAdd 64 size bytes.length with
            | none => exact fun m hm => hm.halted
            | some size' =>
                cases hadd : checkedAdd 64 total bytes.length with
                | none => exact fun m hm => hm.halted
                | some total' =>
                    obtain rfl := checkedAdd_eq_some hadd
                    simp only
                    split
                    · exact fun m hm => hm.halted
                    · next hle =>
                        refine Triple.bind
                          (Q := fun _ => Stage platform staging limit base es (cs ++ [path])
                          (total + bytes.length))
                          ?_ fun _ => ih _ _ _
                        apply triple_perform
                        · rintro m tree ⟨hes, hm⟩ happly
                          exact ⟨hes, hm.append hpath (by omega) happly⟩
                        · exact fun m _ hm => Stage.halted hm
                        · rintro m _ _ _ through tree ⟨hes, hm⟩ ⟨⟩ happly
                          have hlength := List.length_take_le' through bytes
                          exact Stage.halted ⟨hes, hm.append hpath (by omega) happly⟩

theorem triple_createDirAll {message : String} (hpath : Below platform staging destination)
    (habove : path <+: destination) :
    Triple (Stage platform staging limit base es cs total) (createDirAll env path message)
      (fun _ => Stage platform staging limit base es cs total) fun _ =>
      Halted platform staging limit base es := by
  refine Triple.conseq
    (keeps_createDirAll (I := Stage platform staging limit base es cs total) (fun _ hm => hm) ?_)
    (fun _ hm => hm) (fun _ _ hm => hm) fun _ m hm => hm.halted
  rintro m target tree ⟨hes, hm⟩ _ htarget hdir happly
  exact ⟨hes, hm.mkdir (hpath.of_before hm.dir (htarget.trans habove) hdir) happly⟩

theorem triple_writeExtractedFile {reads : List (Option Bytes)} {relativePath : Text}
    (hpath : Below platform staging path) (hfresh : ∀ p ∈ cs, ¬ SameButForCase p path) :
    Triple (Stage platform staging limit base es cs total)
      (writeExtractedFile env lib reads path relativePath total limit)
      (fun r => Stage platform staging limit base es (cs ++ [path]) r.2) fun _ =>
      Halted platform staging limit base es := by
  rw [writeExtractedFile]
  refine Triple.bind (Q := fun _ => Stage platform staging limit base es cs total) ?_ fun _ => ?_
  · rw [createParent]
    split
    · exact triple_createDirAll hpath (List.dropLast_prefix path)
    · exact Triple.pure fun _ hm => hm
  refine Triple.bind
    (Q := fun _ => Stage platform staging limit base es (cs ++ [path]) total) ?_ fun _ => ?_
  · apply triple_perform
    · rintro m tree ⟨hes, hm⟩ happly
      exact ⟨hes, hm.createNew hpath hfresh happly⟩
    · exact fun m _ hm => Stage.halted hm
    · intro _ _ _ _ _ _ _ heq
      cases heq
  refine Triple.bind (triple_copyPayload hpath reads 0 [] total) fun r => ?_
  refine Triple.bind (Q := fun _ => Stage platform staging limit base es (cs ++ [path]) r.2.2)
    (triple_check (fun m hm => hm) fun m _ hm => hm.halted) fun _ => Triple.pure fun _ hm => hm

theorem pushPath_normal (staging : List Component) (names : List OsString) :
    platform.pushPath staging (names.map .normal) = staging ++ names.map .normal := by
  cases platform <;> cases names <;> rfl

/-- An entry none of whose names opens with a drive, or that is refused whatever its names. -/
def Anchored (platform : Platform) (root : OsString) (entry : Entry) : Prop :=
  ∀ (path : OsString) (names : List OsString), entry.path = some path → entry.kind ≠ .other →
    platform.components path = .normal root :: names.map .normal →
      ∀ name ∈ names, Confined platform name

def Keyed (platform : Platform) (staging : List Component) (seen : Finset Text)
    (cs : List (List Component)) : Prop :=
  ∀ path ∈ cs, ∃ names, path = staging ++ names.map .normal ∧
    ∃ key ∈ seen, key.bytes = collisionKey platform names

def Between (platform : Platform) (staging : List Component) (limit : Nat)
    (base : Journal Component UInt8) (es : List Entry) (x : Extraction) (m : Machine) : Prop :=
  ∃ cs, Stage platform staging limit base es cs x.total m ∧ Keyed platform staging x.seen cs

variable {artifact : ArtifactSpec} {x : Extraction} {entry : Entry}

theorem triple_extractEntry (hanchored : Anchored platform artifact.archiveRoot.bytes entry) :
    Triple (Between platform staging artifact.maxUnpackedBytes base es x)
      (extractEntry platform env lib staging artifact x entry)
      (fun x' => Between platform staging artifact.maxUnpackedBytes base es x') fun _ =>
      Halted platform staging artifact.maxUnpackedBytes base es := by
  have hhalt {m : Machine} (hm : Between platform staging artifact.maxUnpackedBytes base es x m) :
      Halted platform staging artifact.maxUnpackedBytes base es m := hm.choose_spec.1.halted
  rw [extractEntry]
  cases hentry : entry.path with
  | none => exact fun m hm => hhalt hm
  | some text =>
      refine Triple.bind (triple_failOn fun m _ hm => hhalt hm) fun relative =>
        Triple.of_fact fun hrelative => ?_
      obtain ⟨names, hcomponents, hplain, hnames⟩ := stripArchiveRoot_ok hrelative
      by_cases hnil : relative = []
      · rw [if_pos hnil]
        exact Triple.pure fun _ hm => hm
      · rw [if_neg hnil]
        split
        · exact fun m hm => hhalt hm
        · next relativeText htext =>
            by_cases hother : entry.kind = .other
            · rw [if_neg (by rw [hother]; decide), if_pos (Or.inl (by rw [hother]; decide))]
              exact fun m hm => hhalt hm
            · have hconfined := hanchored text names hentry hother hcomponents
              obtain rfl := hnames hconfined
              rw [pushPath_normal]
              have hbelow : Below platform staging (staging ++ names.map .normal) :=
                ⟨names, fun h => hnil (h ▸ rfl),
                  fun name hname => ⟨hplain name hname, hconfined name hname⟩, rfl⟩
              split
              · apply Triple.of_eq
                rintro m ⟨cs, hstage, hkeyed⟩
                refine Triple.bind
                  (Q := fun _ =>
                  Stage platform staging artifact.maxUnpackedBytes base es cs x.total) ?_
                  fun _ => Triple.pure fun m hm => ⟨cs, hm, hkeyed⟩
                exact Triple.conseq (triple_createDirAll hbelow (List.prefix_refl _))
                  (fun _ heq => heq ▸ hstage)
                  (fun _ _ hm => hm) fun _ _ hm => hm
              · split
                · exact fun m hm => hhalt hm
                · next hnew =>
                    apply Triple.of_eq
                    rintro m ⟨cs, hstage, hkeyed⟩
                    have hbytes : (toAsciiLowercase relativeText).bytes =
                        collisionKey platform names := by
                      obtain ⟨text, hstr, rfl⟩ := Option.map_eq_some_iff.mp htext
                      rw [collisionKey, ← toStr_eq_some.mp hstr]
                      rfl
                    have hfresh : ∀ p ∈ cs, ¬ SameButForCase p (staging ++ names.map .normal) := by
                      intro p hp hsame
                      obtain ⟨names', rfl, key, hkey, hkeybytes⟩ := hkeyed p hp
                      rw [collisionKey_of_sameButForCase hsame, ← hbytes] at hkeybytes
                      exact hnew (Or.inr (Text.ext hkeybytes ▸ hkey))
                    refine Triple.bind
                      (Q := fun r => Stage platform staging artifact.maxUnpackedBytes base es
                      (cs ++ [staging ++ names.map .normal]) r.2) ?_ fun r =>
                        Triple.pure fun m hm => ⟨_, hm, ?_⟩
                    · exact Triple.conseq (triple_writeExtractedFile hbelow hfresh)
                        (fun _ heq => heq ▸ hstage)
                        (fun _ _ hm => hm) fun _ _ hm => hm
                    · intro p hp
                      rcases List.mem_append.mp hp with hp | hp
                      · obtain ⟨names', hp, key, hkey, hkeybytes⟩ := hkeyed p hp
                        exact ⟨names', hp, key, Finset.mem_insert_of_mem hkey, hkeybytes⟩
                      · exact ⟨names, List.mem_singleton.mp hp, _, Finset.mem_insert_self _ _,
                          hbytes⟩

theorem keeps_extractEntry {I : Machine → Prop} (htick : ∀ m, I m → I m.tick)
    (hop : ∀ m op tree, I m → op.apply m.tree = some tree → I (m.after op tree)) :
    Preserves I (extractEntry platform env lib staging artifact x entry) := by
  have hperform (op : Op) (message : String) : Preserves I (perform env op message) :=
    keeps_perform htick (fun m tree hm happly => hop m op tree hm happly) fun m _ _ _ tree hm
      _ happly => hop m _ tree hm happly
  have hdirs (path : List Component) (message : String) :
      Preserves I (createDirAll env path message) :=
    keeps_createDirAll htick fun m _ tree hm _ _ _ happly => hop m _ tree hm happly
  have hcopy (path : List Component) (reads : List (Option Bytes)) (size : Nat) (hashed : Bytes)
      (total : Nat) :
      Preserves I (copyPayload env path artifact.maxUnpackedBytes reads size hashed total) := by
    induction reads generalizing size hashed total with
    | nil => exact Preserves.pure _
    | cons read reads ih =>
        cases read with
        | none => exact keeps_fail
        | some bytes =>
            refine Preserves.bind (keeps_check htick) fun _ => ?_
            split
            · exact Preserves.pure _
            · split
              · split
                · exact keeps_fail
                · exact Preserves.bind (hperform _ _) fun _ => ih _ _ _
              · exact keeps_fail
  rw [extractEntry]
  split
  · exact keeps_fail
  · refine Preserves.bind (keeps_failOn _) fun relative => ?_
    split
    · exact Preserves.pure _
    · split
      · exact keeps_fail
      · split
        · exact Preserves.bind (hdirs _ _) fun _ => Preserves.pure _
        · split
          · exact keeps_fail
          · refine Preserves.bind ?_ fun _ => Preserves.pure _
            refine Preserves.bind ?_ fun _ => Preserves.bind (hperform _ _) fun _ =>
              Preserves.bind (hcopy _ _ _ _ _) fun _ => Preserves.bind (keeps_check htick) fun _ =>
                Preserves.pure _
            rw [createParent]
            split
            · exact hdirs _ _
            · exact Preserves.pure _

/-- The state between two entries of a run all of whose entries may have been anchored. -/
def Going (platform : Platform) (staging : List Component) (artifact : ArtifactSpec)
    (base : Journal Component UInt8) (x : Extraction) (m : Machine) : Prop :=
  (∀ e ∈ m.entered, Anchored platform artifact.archiveRoot.bytes e) →
    Between platform staging artifact.maxUnpackedBytes base m.entered x m

def Stopped (platform : Platform) (staging : List Component) (artifact : ArtifactSpec)
    (base : Journal Component UInt8) (m : Machine) : Prop :=
  m.entered.length ≤ maxArchiveEntries ∧
    ((∀ e ∈ m.entered, Anchored platform artifact.archiveRoot.bytes e) →
    Halted platform staging artifact.maxUnpackedBytes base m.entered m)

theorem Going.stopped (h : Going platform staging artifact base x m)
    (hlength : m.entered.length ≤ maxArchiveEntries) : Stopped platform staging artifact base m :=
  ⟨hlength, fun hall => (h hall).choose_spec.1.halted⟩

theorem triple_extractNext {index : Nat} (hlt : index < maxArchiveEntries) (next : Option Entry) :
    Triple (fun m => Going platform staging artifact base x m ∧ m.entered.length = index)
      (extractNext platform env lib staging artifact x next)
      (fun x' m => Going platform staging artifact base x' m ∧ m.entered.length = index + 1)
      fun _ => Stopped platform staging artifact base := by
  cases next with
  | none => exact fun m ⟨hm, hindex⟩ => hm.stopped (by omega)
  | some entry =>
      apply Triple.of_eq
      rintro m ⟨hm, hindex⟩
      apply at_modify
      have hlength : (m.entered ++ [entry]).length = index + 1 := by
        rw [List.length_append, hindex]
        rfl
      by_cases hall : ∀ e ∈ m.entered ++ [entry], Anchored platform artifact.archiveRoot.bytes e
      · have hbetween := hm fun e he => hall e (List.mem_append_left _ he)
        have hentry :
            Triple
            (Between platform staging artifact.maxUnpackedBytes base (m.entered ++ [entry]) x)
            (extractEntry platform env lib staging artifact x entry)
            (Between platform staging artifact.maxUnpackedBytes base (m.entered ++ [entry]))
            fun _ =>
              Halted platform staging artifact.maxUnpackedBytes base (m.entered ++ [entry]) :=
          triple_extractEntry (hall entry (List.mem_append_right _ List.mem_cons_self))
        refine Triple.conseq hentry ?_ ?_ ?_
        · rintro _ rfl
          obtain ⟨cs, hstage, hkeyed⟩ := hbetween
          exact ⟨cs, ⟨rfl, hstage.2⟩, hkeyed⟩
        · rintro x' t ht
          have hes : t.entered = m.entered ++ [entry] := ht.choose_spec.1.1
          exact ⟨fun _ => hes.symm ▸ ht, hes.symm ▸ hlength⟩
        · rintro _ t ht
          have hes : t.entered = m.entered ++ [entry] := ht.choose_spec.choose_spec.1
          refine ⟨?_, fun _ => hes.symm ▸ ht⟩
          rw [hes, hlength]
          exact hlt
      · have hkeep : Preserves (fun t => t.entered = m.entered ++ [entry])
            (extractEntry platform env lib staging artifact x entry) :=
          keeps_extractEntry (fun _ ht => ht) fun _ _ _ ht _ => ht
        refine Triple.conseq hkeep ?_ ?_ ?_
        · rintro _ rfl
          rfl
        · intro x' t ht
          exact ⟨fun hanchored => absurd (ht ▸ hanchored) hall, by rw [ht, hlength]⟩
        · intro _ t ht
          refine ⟨?_, fun hanchored => absurd (ht ▸ hanchored) hall⟩
          rw [ht, hlength]
          exact hlt

theorem triple_extractEntries (entries : List (Option Entry)) (index : Nat) (x : Extraction) :
    Triple
      (fun m => Going platform staging artifact base x m ∧ m.entered.length = index ∧
      index ≤ maxArchiveEntries) (extractEntries platform env lib staging artifact index entries x)
      (fun x' m => Going platform staging artifact base x' m ∧ m.entered.length ≤ maxArchiveEntries)
      fun _ => Stopped platform staging artifact base := by
  induction entries generalizing index x with
  | nil => exact Triple.pure fun m ⟨hm, hindex, hle⟩ => ⟨hm, hindex ▸ hle⟩
  | cons next entries ih =>
      rw [extractEntries]
      split
      · exact fun m ⟨hm, hindex, hle⟩ => hm.stopped (hindex ▸ hle)
      · next hlt =>
          refine Triple.bind
            (Q := fun _ m => Going platform staging artifact base x m ∧ m.entered.length = index) ?_
            fun _ => ?_
          · exact triple_check (fun m ⟨hm, hindex, _⟩ => ⟨hm, hindex⟩) fun m _ ⟨hm, hindex, hle⟩ =>
              Going.stopped (m := m.tick) hm (hindex ▸ hle)
          refine Triple.bind (triple_extractNext (by omega) next) fun x' => ?_
          refine Triple.conseq (ih (index + 1) x') ?_ (fun _ _ hm => hm) fun _ _ hm => hm
          rintro m ⟨hm, hindex⟩
          exact ⟨hm, hindex, by omega⟩

inductive Marks (marker : List Component) : Op → Prop
  | createNew : Marks marker (.createNew marker)
  | append (bytes : Bytes) : Marks marker (.append marker bytes)

def Marking (marker : List Component) (es : List Entry) (base : Journal Component UInt8)
    (m : Machine) : Prop :=
  m.entered = es ∧ Extends (fun _ op => Marks marker op) base m.journal ∧
    ∃ bytes record, m.journal.ops = base.ops ++ record ∧
      record <+: [.createNew marker, .append marker bytes]

theorem triple_writeMarker (marker : List Component) (bytes : Bytes) :
    Triple (fun m => m.entered = es ∧ m.journal = base) (writeMarker env marker bytes)
      (fun _ => Marking marker es base) fun _ => Marking marker es base := by
  have hnone {m : Machine} (hm : m.entered = es ∧ m.journal = base) : Marking marker es base m := by
    obtain ⟨hes, rfl⟩ := hm
    exact ⟨hes, .refl, bytes, [], (List.append_nil _).symm, List.nil_prefix⟩
  refine Triple.bind
    (Q := fun _ m => m.entered = es ∧ m.journal.ops = base.ops ++ [.createNew marker] ∧
      Extends (fun _ op => Marks marker op) base m.journal) ?_ fun _ => ?_
  · apply triple_perform
    · rintro m tree ⟨hes, rfl⟩ happly
      exact ⟨hes, rfl, .step .refl .createNew happly⟩
    · exact fun m _ hm => hnone (m := m.tick) hm
    · intro _ _ _ _ _ _ _ heq
      cases heq
  have hopened {m : Machine}
      (hm : m.entered = es ∧ m.journal.ops = base.ops ++ [.createNew marker] ∧
      Extends (fun _ op => Marks marker op) base m.journal) : Marking marker es base m :=
    ⟨hm.1, hm.2.2, bytes, [.createNew marker], hm.2.1, ⟨[.append marker bytes], rfl⟩⟩
  have hwritten {m : Machine} {tree : Tree} {part : Bytes} (hm : m.entered = es ∧
      m.journal.ops = base.ops ++ [.createNew marker] ∧
        Extends (fun _ op => Marks marker op) base m.journal)
      (happly : (FileOp.append marker part).apply m.tree = some tree) :
      Marking marker es base (m.after (.append marker part) tree) := by
    refine ⟨hm.1, .step hm.2.2 (.append part) happly, part,
      [.createNew marker, .append marker part], ?_, List.prefix_refl _⟩
    rw [Machine.after, Journal.record_ops, hm.2.1, List.append_assoc]
    rfl
  refine Triple.bind (Q := fun _ => Marking marker es base) ?_ fun _ =>
    triple_check (fun _ hm => hm) fun _ _ hm => hm
  apply triple_perform
  · exact fun m tree hm happly => hwritten hm happly
  · exact fun m _ hm => hopened (m := m.tick) hm
  · rintro m _ _ _ _ tree hm ⟨⟩ happly
    exact hwritten hm happly

theorem plain_installationFile (platform : Platform) :
    PlainName platform installationFile ∧ Confined platform installationFile := by
  cases platform
  · exact ⟨by decide, Or.inl rfl⟩
  · exact ⟨by decide, Or.inr (by decide)⟩

theorem push_installationFile (staging : List Component) :
    platform.push staging installationFile = staging ++ [.normal installationFile] :=
  (plain_installationFile platform).1.push (plain_installationFile platform).2 staging

theorem Marks.unpacks (h : Marks (staging ++ [.normal installationFile]) op) :
    Unpacks platform staging op := by
  have hbelow : Below platform staging (staging ++ [.normal installationFile]) := by
    refine ⟨[installationFile], List.cons_ne_nil _ _, fun name hname => ?_, rfl⟩
    rw [List.mem_singleton.mp hname]
    exact plain_installationFile platform
  cases h with
  | createNew => exact .createNew hbelow
  | append bytes => exact .append hbelow

def Confinement (platform : Platform) (staging : List Component) (limit : Nat) (ops : List Op) :
    Prop :=
  ∃ unpacked record bytes, ops = unpacked ++ record ∧ Contained platform staging limit unpacked ∧
    record <+:
      [.createNew (staging ++ [.normal installationFile]),
      .append (staging ++ [.normal installationFile]) bytes]

theorem Confinement.of_before {ops before : List Op} (h : Confinement platform staging limit ops)
    (hbefore : before <+: ops) : Confinement platform staging limit before := by
  obtain ⟨unpacked, record, bytes, rfl, hunpacked, hrecord⟩ := h
  rcases List.prefix_or_prefix_of_prefix hbefore
    (List.prefix_append unpacked record) with habove | ⟨rest, rfl⟩
  · exact ⟨before, [], bytes, (List.append_nil _).symm, hunpacked.of_before habove, List.nil_prefix⟩
  · exact ⟨unpacked, rest, bytes, rfl, hunpacked,
      ((List.prefix_append_right_inj unpacked).mp hbefore).trans hrecord⟩

def Ended (platform : Platform) (staging : List Component) (artifact : ArtifactSpec)
    (base : Journal Component UInt8) (m : Machine) : Prop :=
  m.entered.length ≤ maxArchiveEntries ∧
    ((∀ e ∈ m.entered, Anchored platform artifact.archiveRoot.bytes e) →
    Extends (fun _ op => Unpacks platform staging op) base m.journal ∧
      ∃ added, m.journal.ops = base.ops ++ added ∧
        Confinement platform staging artifact.maxUnpackedBytes added)

theorem Stopped.ended (h : Stopped platform staging artifact base m) :
    Ended platform staging artifact base m := by
  refine ⟨h.1, fun hall => ?_⟩
  obtain ⟨cs, total, _, hm⟩ := h.2 hall
  obtain ⟨added, hops, hcontained, _⟩ := hm.account
  exact ⟨hm.reached, added, hops, added, [], [], (List.append_nil _).symm, hcontained,
    List.nil_prefix⟩

theorem keeps_openArchive {archivePath : List Component} {I : Machine → Prop}
    (htick : ∀ m, I m → I m.tick) : Preserves I (openArchive env lib archivePath) := by
  refine Preserves.bind (keeps_check htick) fun _ =>
    Preserves.bind (Preserves.gets _) fun found => ?_
  split
  · exact keeps_fail
  · split
    · exact keeps_fail
    · exact Preserves.pure _

theorem triple_extractVerifiedArchive (platform : Platform) (env : Environment) (lib : Libraries)
    (archivePath : List Component) (artifact : ArtifactSpec)
    (hstaging : base.tree.dirAt staging = true) :
    Triple (fun m => m.journal = base)
      (extractVerifiedArchive platform env lib archivePath staging artifact)
      (fun _ => Ended platform staging artifact base) fun _ =>
      Ended platform staging artifact base := by
  have hstart {m : Machine} (hm : m.entered = [] ∧ m.journal = base) :
      Going platform staging artifact base .empty m := by
    obtain ⟨hes, rfl⟩ := hm
    exact fun _ => ⟨[], ⟨rfl, .start hstaging⟩, fun _ hpath => absurd hpath List.not_mem_nil⟩
  have hearly {m : Machine} (hm : m.entered = [] ∧ m.journal = base) :
      Ended platform staging artifact base m :=
    Stopped.ended ((hstart hm).stopped (by rw [hm.1]; exact Nat.zero_le _))
  have hread {β : Type} {p : Run β} (h : Preserves (fun m => m.entered = [] ∧ m.journal = base) p) :
      Triple (fun m => m.entered = [] ∧ m.journal = base) p
        (fun _ m => m.entered = [] ∧ m.journal = base)
        fun _ => Ended platform staging artifact base :=
    Triple.conseq h (fun _ hm => hm) (fun _ _ hm => hm) fun _ _ hm => hearly hm
  refine Triple.bind (Q := fun _ m => m.entered = [] ∧ m.journal = base)
    (Triple.modify fun m hm => ⟨rfl, hm⟩) fun _ => ?_
  refine Triple.bind (hread (keeps_inspect fun _ hm => hm)) fun verified => ?_
  refine Triple.bind (hread (keeps_failOn verified)) fun _ => ?_
  refine Triple.bind (hread (keeps_openArchive fun _ hm => hm)) fun entries => ?_
  refine Triple.bind
    (Q := fun x m => Going platform staging artifact base x m ∧
      m.entered.length ≤ maxArchiveEntries) ?_
    fun x => ?_
  · refine Triple.conseq (triple_extractEntries entries 0 .empty)
      (fun m hm => ⟨hstart hm, ?_, Nat.zero_le _⟩)
      (fun _ _ hm => hm) fun _ _ hm => hm.ended
    rw [hm.1]
    rfl
  split
  · exact fun m ⟨hm, hlength⟩ => (hm.stopped hlength).ended
  · rw [push_installationFile]
    apply Triple.of_eq
    rintro m ⟨hm, hlength⟩
    have hend {t : Machine}
        (ht : Marking (staging ++ [.normal installationFile]) m.entered m.journal t) :
        Ended platform staging artifact base t := by
      obtain ⟨hes, hreached, bytes, record, hops, hrecord⟩ := ht
      refine ⟨hes ▸ hlength, fun hall => ?_⟩
      obtain ⟨cs, ⟨_, hunpacking⟩, _⟩ := hm (hes ▸ hall)
      obtain ⟨added, hadded, hcontained, _⟩ := hunpacking.account
      refine ⟨hunpacking.reached.trans (hreached.mono fun _ _ hop => hop.unpacks),
        added ++ record, ?_,
        added, record, bytes, rfl, hcontained, hrecord⟩
      rw [hops, hadded, List.append_assoc]
    refine Triple.conseq (triple_writeMarker _ _) ?_ (fun _ _ ht => hend ht) fun _ _ ht => hend ht
    rintro _ rfl
    exact ⟨rfl, rfl⟩

/-- What the passing of time, the operations and the entries looked at keep, an extraction keeps. -/
theorem triple_of_extraction {P I : Machine → Prop} {archivePath : List Component}
    (hstart : ∀ m, P m → I { m with entered := [] }) (htick : ∀ m, I m → I m.tick)
    (hop : ∀ m op tree, I m → op.apply m.tree = some tree → I (m.after op tree))
    (hlook : ∀ m entry, I m → I (m.looking artifact.archiveRoot.bytes entry)) :
    Triple P (extractVerifiedArchive platform env lib archivePath staging artifact) (fun _ => I)
      fun _ => I := by
  have hperform (op : Op) (message : String) : Preserves I (perform env op message) :=
    keeps_perform htick (fun m tree hm happly => hop m op tree hm happly) fun m _ _ _ tree hm
      _ happly => hop m _ tree hm happly
  have hentries (index : Nat) (entries : List (Option Entry)) (x : Extraction) :
      Preserves I (extractEntries platform env lib staging artifact index entries x) := by
    induction entries generalizing index x with
    | nil => exact Preserves.pure _
    | cons entry entries ih =>
        rw [extractEntries]
        split
        · exact keeps_fail
        · refine Preserves.bind (keeps_check htick) fun _ => Preserves.bind ?_ fun x => ih _ _
          cases entry with
          | none => exact keeps_fail
          | some entry =>
              exact Preserves.bind (Preserves.modify fun m hm => hlook m entry hm) fun _ =>
                keeps_extractEntry htick hop
  refine Triple.bind (Q := fun _ => I) (Triple.modify hstart) fun _ =>
    Preserves.bind (keeps_inspect htick) fun verified =>
    Preserves.bind (keeps_failOn _) fun _ => Preserves.bind (keeps_openArchive htick) fun entries =>
    Preserves.bind (hentries 0 entries .empty) fun x => ?_
  split
  · exact keeps_fail
  · exact Preserves.bind (hperform _ _) fun _ => Preserves.bind (hperform _ _) fun _ =>
      keeps_check htick

def extraction (platform : Platform) (env : Environment) (lib : Libraries)
    (archivePath staging : List Component) (artifact : ArtifactSpec) (tree : Tree) : Machine :=
  leaves (extractVerifiedArchive platform env lib archivePath staging artifact) (.start tree)

/-- At every point of an extraction that looks at no name which opens with a drive, all that has
been made is new and below the staging directory, and bounded. -/
theorem extraction_is_confined_and_bounded (platform : Platform) (env : Environment)
    (lib : Libraries) (archivePath staging : List Component) (artifact : ArtifactSpec) (tree : Tree)
    (hstaging : tree.dirAt staging = true)
    (hanchored : ∀ e ∈ (extraction platform env lib archivePath staging artifact tree).entered,
      Anchored platform artifact.archiveRoot.bytes e) :
    (extraction platform env lib archivePath staging artifact tree).entered.length ≤
      maxArchiveEntries ∧
      ∀ before,
        before <+: (extraction platform env lib archivePath staging artifact tree).journal.ops →
        Confinement platform staging artifact.maxUnpackedBytes before ∧
        (∃ t, run FileOp.apply tree before = some t) ∧
        ∀ path t,
          before ++ [.createNew path] <+:
          (extraction platform env lib archivePath staging artifact tree).journal.ops →
          run FileOp.apply tree before = some t → t.find path = none := by
  have htriple := triple_extractVerifiedArchive platform env lib archivePath artifact
    (show (⟨[], tree⟩ : Journal Component UInt8).tree.dirAt staging = true from hstaging)
  obtain ⟨hlength, hended⟩ : Ended platform staging artifact ⟨[], tree⟩
      (extraction platform env lib archivePath staging artifact tree) :=
        leaves_of_triple htriple rfl
  obtain ⟨hreached, added, hops, hconfinement⟩ := hended hanchored
  refine ⟨hlength, fun before hbefore => ⟨?_, ?_, fun path t hnext hrun => ?_⟩⟩
  · rw [hops] at hbefore
    exact hconfinement.of_before hbefore
  · obtain ⟨t, _, hrun⟩ := hreached.point hbefore
    exact ⟨t, hrun⟩
  · obtain ⟨t', _, hrun'⟩ := hreached.point hnext
    have hstep := run_append_singleton FileOp.apply tree before (.createNew path)
    rw [hrun] at hstep
    have hrun' := hstep.symm.trans hrun'
    exact (Node.create_eq_some hrun').2.2.1

theorem Confinement.below {ops : List Op} (h : Confinement platform staging limit ops)
    (hpath : path ∈ created ops) : staging <+: path := by
  obtain ⟨unpacked, record, bytes, rfl, hunpacked, hrecord⟩ := h
  rw [created_append, List.mem_append] at hpath
  rcases hpath with hpath | hpath
  · obtain ⟨op, hop, hpath⟩ := List.mem_filterMap.mp hpath
    cases op with
    | createNew created =>
        cases hpath
        cases hunpacked.below _ hop with
        | createNew hbelow =>
            obtain ⟨names, _, _, rfl⟩ := hbelow
            exact List.prefix_append _ _
    | mkdir | append | openCreate | rename => cases hpath
  · obtain ⟨op, hop, hpath⟩ := List.mem_filterMap.mp hpath
    have hmark := hrecord.subset hop
    simp only [List.mem_cons, List.not_mem_nil, or_false] at hmark
    rcases hmark with rfl | rfl
    · cases hpath
      exact List.prefix_append _ _
    · cases hpath

theorem anchored_linux (root : OsString) (entry : Entry) : Anchored .linux root entry :=
  fun _ _ _ _ _ _ _ => Or.inl rfl

def undisturbed (response : Option Response) : Environment :=
  ⟨1, id, fun _ => .none, fun _ => response⟩

def oneEntryLibraries (path : String) : Libraries :=
  spelledLibraries (fun _ => []) (fun _ => none) fun _ =>
    some [some ⟨some (ascii path), .regular, [some [7]]⟩]

def oneEntryTree : Tree :=
  .dir
    [(.normal (ascii "archive"), .file [1]), (.normal (ascii "staging"), .dir []),
    (.pathPrefix (ascii "C:"), .dir [])]

def oneEntryExtraction (platform : Platform) (path : String) : Machine :=
  extraction platform (undisturbed none) (oneEntryLibraries path) [.normal (ascii "archive")]
    [.normal (ascii "staging")]
    (fixtureSpec 1 ⟨spelled [1], isUtf8_spelled [1]⟩ []) oneEntryTree

/-- On Windows a name that opens with a drive leads out of the staging directory. -/
theorem a_drive_escapes :
    oneEntryTree.dirAt [.normal (ascii "staging")] = true ∧
    ¬ Confinement .windows [.normal (ascii "staging")] 1024
      (oneEntryExtraction .windows "fixture/C:/x").journal.ops := by
  refine ⟨by decide +kernel, fun h => ?_⟩
  have hcreated : created (oneEntryExtraction .windows "fixture/C:/x").journal.ops =
      [[.pathPrefix (ascii "C:"), .normal (ascii "x")],
        [.normal (ascii "staging"), .normal installationFile]] := by decide +kernel
  have hbelow : ([.normal (ascii "staging")] : List Component) <+:
      [.pathPrefix (ascii "C:"), .normal (ascii "x")] :=
    h.below (hcreated ▸ List.mem_cons_self)
  obtain ⟨hhead, _⟩ := List.cons_prefix_cons.mp hbelow
  cases hhead

/-- The same archive stays inside on Linux, where a colon is part of a name. -/
theorem a_plain_entry_is_confined :
    Confinement .linux [.normal (ascii "staging")] 1024
      (extraction .linux (undisturbed none) (oneEntryLibraries "fixture/C:/x")
      [.normal (ascii "archive")] [.normal (ascii "staging")]
      (fixtureSpec 1 ⟨spelled [1], isUtf8_spelled [1]⟩ []) oneEntryTree).journal.ops := by
  have hstaging : oneEntryTree.dirAt [.normal (ascii "staging")] = true := by decide +kernel
  obtain ⟨_, hall⟩ :=
    extraction_is_confined_and_bounded .linux (undisturbed none) (oneEntryLibraries "fixture/C:/x")
    [.normal (ascii "archive")] [.normal (ascii "staging")]
      (fixtureSpec 1 ⟨spelled [1], isUtf8_spelled [1]⟩ []) oneEntryTree
    hstaging fun e _ => anchored_linux _ e
  exact (hall _ (List.prefix_refl _)).1

end ImpossibleVoice.Artifacts

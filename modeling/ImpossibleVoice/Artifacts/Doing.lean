import ImpossibleVoice.Artifacts.Confinement
import ImpossibleVoice.Artifacts.Store

namespace ImpossibleVoice.Artifacts

open Lib

variable {platform : Platform}

/-- No entry that was looked at opens with a drive below its archive's root. -/
def Anchors (platform : Platform) (m : Machine) : Prop := ∀ l ∈ m.looked, Anchored platform l.1 l.2

theorem anchors_linux (m : Machine) : Anchors .linux m := fun l _ => anchored_linux l.1 l.2

theorem Anchors.of_before {m t : Machine} (h : Anchors platform t)
    (hlooked : m.looked <+: t.looked) : Anchors platform m :=
  fun l hl => h l (hlooked.subset hl)

/-- However the program ends, every operation it has performed was allowed on the tree it met,
unless it looked at an entry that opens with a drive. -/
structure Does {α : Type} (platform : Platform) (allowed : Journal Component UInt8 → Op → Prop)
    (P : Machine → Prop) (p : Run α) (Q : α → Machine → Prop) : Prop where
  grows : ∀ l, Preserves (fun m => l <+: m.looked) p
  runs : ∀ m, P m → Triple (fun t => t = m) p
    (fun a t => Anchors platform t → Extends allowed m.journal t.journal ∧ Q a t)
    fun _ t => Anchors platform t → Extends allowed m.journal t.journal

abbrev onTree (allowed : Tree → Op → Prop) (j : Journal Component UInt8) (op : Op) : Prop :=
  allowed j.tree op

namespace Does

variable {α β : Type} {allowed allowed' : Journal Component UInt8 → Op → Prop}
  {P P' : Machine → Prop}
  {Q Q' : α → Machine → Prop} {R : β → Machine → Prop} {env : Environment} {message : String}
    {path : List Component}

theorem pure {a : α} (h : ∀ m, P m → Q a m) : Does platform allowed P (Pure.pure a : Run α) Q :=
  ⟨fun _ => Preserves.pure a, fun m hm => at_pure fun _ => ⟨.refl, h m hm⟩⟩

theorem throw {e : Interrupt} : Does platform allowed P (MonadExcept.throw e : Run α) Q :=
  ⟨fun _ _ hm => hm, fun _ _ => at_throw fun _ => .refl⟩

theorem fail : Does platform allowed P (fail message : Run α) Q := throw

/-- Nothing is asked once an entry that opens with a drive was looked at. -/
theorem runs_of_not_anchors {p : Run α} (h : Does platform allowed P p Q) {m : Machine}
    (hm : ¬ Anchors platform m) {Q' : α → Machine → Prop} {E : Interrupt → Machine → Prop} :
    Triple (fun t => t = m) p (fun a t => Anchors platform t → Q' a t) fun e t =>
      Anchors platform t → E e t :=
  Triple.conseq (h.grows m.looked) (fun _ heq => heq ▸ List.prefix_refl _)
    (fun _ _ hgrown hanchors => absurd (hanchors.of_before hgrown) hm)
    fun _ _ hgrown hanchors => absurd (hanchors.of_before hgrown) hm

theorem bind {p : Run α} {f : α → Run β} (hp : Does platform allowed P p Q)
    (hf : ∀ a, Does platform allowed (Q a) (f a) R) : Does platform allowed P (p >>= f) R := by
  refine ⟨fun l => (hp.grows l).bind fun a => (hf a).grows l, fun m hm => ?_⟩
  refine Triple.bind (hp.runs m hm) fun a => Triple.of_eq fun t ht => ?_
  by_cases hanchors : Anchors platform t
  · obtain ⟨hmt, hq⟩ := ht hanchors
    exact Triple.conseq ((hf a).runs t hq) (fun _ h => h)
      (fun _ _ h hend => ⟨hmt.trans (h hend).1, (h hend).2⟩)
      fun _ _ h hend => hmt.trans (h hend)
  · exact (hf a).runs_of_not_anchors hanchors

theorem conseq {p : Run α} (h : Does platform allowed P p Q) (hP : ∀ m, P' m → P m)
    (hQ : ∀ a m, Q a m → Q' a m) : Does platform allowed P' p Q' :=
  ⟨h.grows, fun m hm => Triple.conseq (h.runs m (hP m hm)) (fun _ h => h)
    (fun a t h hend => ⟨(h hend).1, hQ a t (h hend).2⟩) fun _ _ h => h⟩

theorem mono {p : Run α} (h : Does platform allowed P p Q)
    (hallowed : ∀ j op, allowed j op → allowed' j op) : Does platform allowed' P p Q :=
  ⟨h.grows,
    fun m hm =>
    Triple.conseq (h.runs m hm) (fun _ h => h)
    (fun _ _ h hend => ⟨(h hend).1.mono hallowed, (h hend).2⟩)
    fun _ _ h hend => (h hend).mono hallowed⟩

theorem holding {K : Journal Component UInt8 → Prop} {p : Run α} (h : Does platform allowed P p Q)
    (hK : ∀ j op t', K j → allowed j op → op.apply j.tree = some t' → K (j.record op t')) :
    Does platform allowed (fun m => P m ∧ K m.journal) p fun a m => Q a m ∧ K m.journal := by
  refine ⟨h.grows, ?_⟩
  rintro m ⟨hm, hk⟩
  refine Triple.conseq (h.runs m hm) (fun _ h => h)
    (fun _ t h hend => ⟨(h hend).1, (h hend).2, ?_⟩) fun _ _ h => h
  exact (h hend).1.invariant hk hK

theorem frame {K : Tree → Prop} {p : Run α} (h : Does platform allowed P p Q)
    (hK : ∀ j op t', K j.tree → allowed j op → op.apply j.tree = some t' → K t') :
    Does platform allowed (fun m => P m ∧ K m.tree) p fun a m => Q a m ∧ K m.tree :=
  h.holding (K := fun j => K j.tree) fun j op t hj ha hop => hK j op t hj ha hop

theorem returning {R : α → Machine → Prop} {p : Run α} (h : Does platform allowed P p Q)
    (hR : ∀ m a t, P m → p.run m = .ok a t → Anchors platform t → R a t) :
    Does platform allowed P p fun a m => Q a m ∧ R a m := by
  refine ⟨h.grows, ?_⟩
  rintro m hm _ rfl
  have hrun := h.runs _ hm _ rfl
  cases hp : p.run _ with
  | ok a t =>
      rw [hp] at hrun
      exact fun hend => ⟨(hrun hend).1, (hrun hend).2, hR _ a t hm hp hend⟩
  | error e t =>
      rw [hp] at hrun
      exact hrun

theorem both {p : Run α} (h : Does platform allowed P p Q) (h' : Does platform allowed' P' p Q') :
    Does platform allowed (fun m => P m ∧ P' m) p fun a m => Q a m ∧ Q' a m :=
  (h.conseq (fun _ hm => hm.1) fun _ _ h => h).returning fun m _ _ hm hrun hend =>
    ((h'.runs m hm.2).ok rfl hrun hend).2

theorem keeping {I : Machine → Prop} {p : Run α} (h : Does platform allowed P p Q)
    (hI : Preserves I p) : Does platform allowed (fun m => P m ∧ I m) p fun a m => Q a m ∧ I m :=
  (h.conseq (fun _ hm => hm.1) fun _ _ h => h).returning fun _ _ _ hm hrun _ => hI.ok hm.2 hrun

theorem gets {f : Machine → α} (h : ∀ m, P m → Q (f m) m) :
    Does platform allowed P (Lib.gets f : Run α) Q := by
  refine ⟨fun _ => Preserves.gets f, ?_⟩
  rintro m hm _ rfl
  exact fun _ => ⟨.refl, h _ hm⟩

theorem quiet {f : Machine → Machine} (hf : ∀ m, (f m).journal = m.journal)
    (hlooked : ∀ m, (f m).looked = m.looked) {Q : PUnit → Machine → Prop}
    (h : ∀ m, P m → Q ⟨⟩ (f m)) : Does platform allowed P (modify f : Run PUnit) Q := by
  refine ⟨fun l => Preserves.modify fun m hm => (hlooked m).symm ▸ hm, ?_⟩
  rintro m hm _ rfl
  refine fun _ => ⟨?_, h _ hm⟩
  rw [hf]
  exact .refl

theorem draw {Q : Nat → Machine → Prop}
    (h : ∀ m, P m → Q (env.suffix m.suffixes) { m with suffixes := m.suffixes + 1 }) :
    Does platform allowed P (uniqueSuffix env) Q := by
  refine ⟨fun _ _ hm => hm, ?_⟩
  rintro m hm _ rfl
  exact fun _ => ⟨.refl, h _ hm⟩

theorem check {Q : Unit → Machine → Prop} (h : ∀ m, P m → Q () m.tick) :
    Does platform allowed P (Artifacts.check env message) Q := by
  refine ⟨fun _ => keeps_check fun _ hm => hm, fun m hm => ?_⟩
  apply triple_check
  · rintro _ rfl _
    exact ⟨.refl, h _ hm⟩
  · rintro _ _ rfl _
    exact .refl

theorem inspect {result : Tree → Except ArtifactError α} {first : String} {others : List String}
    {Q : Except ArtifactError α → Machine → Prop} (h : ∀ m, P m → Q (result m.tree) m.tick)
    (hunread : ∀ m error, P m → Q (.error error) m.tick) :
    Does platform allowed P (Artifacts.inspect env result first others) Q := by
  refine ⟨fun _ => keeps_inspect fun _ hm => hm, fun m hm => ?_⟩
  apply triple_inspect
  · rintro _ rfl _
    exact ⟨.refl, h _ hm⟩
  · rintro _ error rfl _
    exact ⟨.refl, hunread _ error hm⟩
  · rintro _ _ rfl _
    exact .refl

theorem failOn {result : Except ArtifactError α} :
    Does platform allowed P (Artifacts.failOn result) fun a m => P m ∧ result = .ok a := by
  cases result with
  | ok a => exact pure fun m hm => ⟨hm, rfl⟩
  | error error => exact throw

theorem perform {op : Op} {Q : Unit → Machine → Prop} (hop : ∀ m, P m → allowed m.journal op)
    (htorn : ∀ m path bytes through, P m → op = .append path bytes →
      allowed m.journal (.append path (bytes.take through)))
    (h : ∀ m t, P m → op.apply m.tree = some t → Q () (m.after op t)) :
    Does platform allowed P (Artifacts.perform env op message) Q := by
  refine ⟨fun _ => keeps_perform (fun _ hm => hm) (fun _ _ hm _ => hm) fun _ _ _ _ _ hm _ _ => hm,
    fun m hm => ?_⟩
  apply triple_perform
  · rintro _ t rfl happly _
    exact ⟨.step .refl (hop _ hm) happly, h _ t hm happly⟩
  · rintro _ _ rfl _
    exact .refl
  · rintro _ _ path bytes through t rfl heq happly _
    exact .step .refl (htorn _ path bytes through hm heq) happly

theorem createDirAll (hmkdir : ∀ j target, target <+: path → allowed j (.mkdir target)) :
    Does platform allowed P (Artifacts.createDirAll env path message) fun _ _ => True := by
  refine ⟨fun _ => keeps_createDirAll (fun _ hm => hm) fun _ _ _ hm _ _ _ _ => hm, fun m _ => ?_⟩
  have hkeeps : Preserves (fun t : Machine => Extends allowed m.journal t.journal)
      (Artifacts.createDirAll env path message) :=
    keeps_createDirAll (fun _ h => h) fun t target _ ht _ hprefix _ happly =>
      .step ht (hmkdir _ target hprefix) happly
  refine Triple.conseq hkeeps ?_ (fun _ _ h _ => ⟨h, trivial⟩) fun _ _ h _ => h
  rintro _ rfl
  exact .refl

/-- A program with what is done about its errors. -/
theorem recovering {p : Run Unit} {root : List Component} {Q : Unit → Machine → Prop}
    {E : Machine → Prop} (hp : Does platform allowed P p Q)
    (hfailed : ∀ m, P m →
      Triple (fun t => t = m) p (fun _ _ => True) fun _ t => Anchors platform t → E t)
    (hrecover : ∀ error, Does platform allowed E
      (do
        Artifacts.recoverPath platform env path (recoveryPath platform root) "staging"
        MonadExcept.throw (.failed error)) Q) :
    Does platform allowed P (recoverOnError platform env root path p) Q := by
  constructor
  · intro l m hm
    have hgrown := hp.grows l m hm
    rw [EStateM.run, recoverOnError]
    cases hend : p.run m with
    | ok a t =>
        rw [hend] at hgrown
        exact hgrown
    | error e t =>
        rw [hend] at hgrown
        cases e with
        | stopped => exact hgrown
        | failed error => exact (hrecover error).grows l t hgrown
  · rintro m hm _ rfl
    have hrun := hp.runs _ hm _ rfl
    have hgone := hfailed _ hm _ rfl
    rw [EStateM.run, recoverOnError]
    cases hend : p.run _ with
    | ok a t =>
        rw [hend] at hrun
        exact hrun
    | error e t =>
        rw [hend] at hrun hgone
        cases e with
        | stopped => exact hrun
        | failed error =>
            by_cases hanchors : Anchors platform t
            · have hmt := hrun hanchors
              exact Triple.conseq ((hrecover error).runs t (hgone hanchors)) (fun _ h => h)
                (fun _ _ h hlast => ⟨hmt.trans (h hlast).1, (h hlast).2⟩)
                  (fun _ _ h hlast => hmt.trans (h hlast)) t rfl
            · exact (hrecover error).runs_of_not_anchors hanchors t rfl

/-- What a run has done, where no entry opened with a drive. -/
theorem extends_of_leaves {p : Run α} (h : Does platform allowed P p Q) {m : Machine} (hm : P m)
    (hanchors : Anchors platform (leaves p m)) : Extends allowed m.journal (leaves p m).journal :=
  leaves_of_triple (Q := fun t => Anchors platform t → Extends allowed m.journal t.journal)
    (Triple.conseq (h.runs m hm) (fun _ h => h) (fun _ _ h hend => (h hend).1) fun _ _ h => h) rfl
      hanchors

theorem ends_of_ok {p : Run α} (h : Does platform allowed P p Q) {m t : Machine} {a : α}
    (hm : P m) (hrun : p.run m = .ok a t) (hanchors : Anchors platform t) : Q a t := by
  exact ((h.runs m hm).ok rfl hrun hanchors).2

end Does

/-- Nothing is to be found at a path; a link that leads nowhere may be there. -/
def Absent (path : List Component) (t : Tree) : Prop := (t.find path).bind Node.follow = none

theorem absent_of_not_stat {t : Tree} {path : List Component} (h : (stat t path).isSome = false) :
    Absent path t :=
  Option.isSome_eq_false_iff.mp h |> Option.isNone_iff_eq_none.mp

theorem absent_of_spares {path : List Component} {t t' : Tree} {op : Op} (habsent : Absent path t)
    (happly : op.apply t = some t') (h : op.Spares path) : Absent path t' := by
  rw [Absent, FileOp.find_of_spares happly h]
  exact habsent

variable {root : List Component} {x y x' y' : OsString}

theorem not_prefix_spot (h : ¬ (x = x' ∧ y = y')) : ¬ spot root x y <+: spot root x' y' :=
  fun hprefix => h (spot_prefix_spot_iff.mp hprefix)

theorem absent_of_rename {t t' : Tree} {target : List Component}
    (hop : (FileOp.rename (spot root x y) target).apply t = some t')
    (h : ¬ target <+: spot root x y) (h' : ¬ spot root x y <+: target) :
    Absent (spot root x y) t' := by
  obtain ⟨n, hn, hne, _, _, _, _, rfl⟩ := FileOp.rename_eq_some hop
  have hdir : t.dirAt (spot root x y).dropLast = true :=
    Node.dirAt_dropLast_of_find hne (by rw [hn]; exact Option.some_ne_none n)
  rw [Absent, Node.find_put_of_beside _ _ h h', Node.find_put _ hne hdir]
  rfl

theorem Does.recoverPath {allowed : Journal Component UInt8 → Op → Prop} {P : Machine → Prop}
    {env : Environment} {label : String}
    (hlabel : label ∈ labels) (hx : x ≠ ascii "recovery")
    (hmkdir : ∀ j target, target <+: recoveryPath platform root → allowed j (.mkdir target))
    (hrename : ∀ j n,
      allowed j
      (.rename (spot root x y) (spot root (ascii "recovery") (recoveryName env label n)))) :
    Does platform allowed P
      (Artifacts.recoverPath platform env (spot root x y) (recoveryPath platform root) label)
      fun _ m => Absent (spot root x y) m.tree := by
  refine Does.bind (Q := fun there m => there = false → Absent (spot root x y) m.tree)
    (Does.gets fun m _ hgone => absent_of_not_stat hgone) fun there => ?_
  split
  · refine Does.bind (Does.createDirAll hmkdir) fun _ => ?_
    refine Does.bind (Q := fun _ _ => True) (Does.draw fun _ _ => trivial) fun suffix => ?_
    rw [join_recoveryName hlabel]
    apply Does.perform
    · exact fun m _ => hrename m.journal suffix
    · intro _ _ _ _ _ heq
      cases heq
    · intro m t _ hop
      exact absent_of_rename hop (not_prefix_spot fun h => hx h.1.symm)
        (not_prefix_spot fun h => hx h.1)
  · next hno => exact Does.pure fun m hm => hm (by simpa using hno)

end ImpossibleVoice.Artifacts

import ImpossibleVoice.Artifacts.Preservation

namespace ImpossibleVoice.Artifacts

open Lib

variable {platform : Platform} {α : Type} {env : Environment} {lib : Libraries}
  {root : List Component} {artifact : ArtifactSpec}
  {artifacts : List ArtifactSpec} {message label : String} {m : Machine} {t : Tree} {op : Op}
    {x y name : OsString}

theorem Does.making {allowed : Journal Component UInt8 → Op → Prop} {P : Machine → Prop}
    {Q : α → Machine → Prop} {p : Run α} {path : List Component} (h : Does platform allowed P p Q) :
    Does platform allowed (fun m => P m ∧ Made m.journal.ops path) p fun a m => Q a m ∧
      Made m.journal.ops path := by
  refine h.holding (K := fun j => Made j.ops path) fun j op t hmade _ _ => ?_
  exact hmade.imp (List.mem_append_left _) (List.mem_append_left _)

def Clear (env : Environment) (root : List Component) (m : Machine) : Prop :=
  ∀ label ∈ labels, ∀ n, m.suffixes ≤ n →
    m.tree.find (spot root (ascii "recovery") (recoveryName env label (env.suffix n))) = none

theorem Clear.after (h : Clear env root m) (happly : op.apply m.tree = some t)
    (hspares : ∀ name, op.Spares (spot root (ascii "recovery") name)) :
    Clear env root (m.after op t) := by
  intro label hlabel n hn
  change t.find _ = none
  rw [FileOp.find_of_spares happly (hspares _)]
  exact h label hlabel n hn

theorem keeps_clear_createDirAll {x : OsString} :
    Preserves (Clear env root) (createDirAll env (root ++ [.normal x]) message) := by
  apply keeps_createDirAll
  · exact fun _ h => h
  · intro m target t hm _ htarget _ happly
    have hprepares : Prepares root (.mkdir target) := .mkdir htarget
    exact hm.after happly fun _ => hprepares.spares

theorem careful_createDirAll {x : OsString} :
    Does platform (Careful root) (Clear env root) (createDirAll env (root ++ [.normal x]) message)
      fun _ => Clear env root :=
  ((Does.createDirAll (P := fun _ => True) fun _ _ _ => .mkdir).keeping
    keeps_clear_createDirAll).conseq (fun _ h => ⟨trivial, h⟩)
    fun _ _ h => h.2

theorem careful_recoverPath (hinj : Function.Injective env.suffix) (hx : x ≠ ascii "recovery")
    (hlabel : label ∈ labels) :
    Does platform (Careful root) (Clear env root)
      (recoverPath platform env (spot root x y) (recoveryPath platform root) label) fun _ =>
      Clear env root := by
  refine Does.bind (Q := fun _ => Clear env root) (Does.gets fun _ hm => hm) fun there => ?_
  split
  · rw [recoveryPath_eq]
    refine Does.bind careful_createDirAll fun _ => ?_
    refine Does.bind (Q := fun suffix m => ∃ k, suffix = env.suffix k ∧ m.suffixes = k + 1 ∧
      Clear env root { m with suffixes := k })
      (Does.draw fun m hm => ⟨m.suffixes, rfl, rfl, hm⟩) fun suffix => ?_
    rw [← recoveryPath_eq, join_recoveryName hlabel]
    apply Does.perform
    · rintro m ⟨k, rfl, _, hclear⟩
      exact .aside hx (hclear label hlabel k (Nat.le_refl k))
    · rintro m path bytes through _ ⟨⟩
    · rintro m t ⟨k, rfl, hk, hclear⟩ happly label' hlabel' n hn
      have hn : k + 1 ≤ n := hk ▸ hn
      have hother : ¬ (ascii "recovery" = ascii "recovery" ∧
          recoveryName env label' (env.suffix n) = recoveryName env label (env.suffix k)) := by
        rintro ⟨-, heq⟩
        have hsame := hinj (recoveryName_inj heq)
        omega
      change t.find _ = none
      rw [FileOp.find_of_spares happly (spares_rename (fun h => hx h.1.symm) hother)]
      exact hclear label' hlabel' n (show k ≤ n from Nat.le_of_succ_le hn)
  · exact Does.pure fun _ hm => hm

theorem careful_inspectObject {path : List Component} :
    Does platform (Careful root) (Clear env root) (inspectObject platform env lib artifact path)
      fun _ => Clear env root :=
  Does.inspect (fun _ hm => hm) fun _ _ hm => hm

theorem careful_standsVerified (hinj : Function.Injective env.suffix) (hc : Curated artifact) :
    Does platform (Careful root) (Clear env root) (standsVerified platform env lib root artifact)
      fun _ => Clear env root := by
  refine Does.bind (Q := fun _ => Clear env root) (Does.gets fun _ hm => hm) fun there => ?_
  split
  · refine Does.bind careful_inspectObject fun verified => ?_
    cases verified with
    | ok u => exact Does.pure fun _ hm => hm
    | error error =>
        refine Does.bind ?_ fun _ => Does.pure fun _ hm => hm
        rw [objectPath_eq hc]
        exact careful_recoverPath hinj (by decide) (by decide)
  · exact Does.pure fun _ hm => hm

theorem careful_sweepArchive (hinj : Function.Injective env.suffix) (hc : Curated artifact) :
    Does platform (Careful root) (Clear env root) (sweepArchive platform env lib root artifact)
      fun _ => Clear env root := by
  refine Does.bind (Q := fun _ => Clear env root) (Does.gets fun _ hm => hm) fun there => ?_
  split
  · refine Does.bind (Q := fun _ => Clear env root) (Does.inspect (fun _ hm => hm) fun _ _ hm => hm)
      fun valid => ?_
    cases valid with
    | ok u => exact Does.pure fun _ hm => hm
    | error error =>
        simp only [archivePath_eq hc]
        exact careful_recoverPath hinj (by decide) (by decide)
  · exact Does.pure fun _ hm => hm

theorem careful_copyChunks {expected : Nat} (hx : x ≠ ascii "recovery")
    (chunks : List (Option Bytes)) (size : Nat) (hashed : Bytes) :
    Does platform (Careful root) (fun m => Clear env root m ∧ Made m.journal.ops (spot root x y))
      (copyChunks env (spot root x y) expected chunks size hashed) fun _ m => Clear env root m ∧
        Made m.journal.ops (spot root x y) := by
  induction chunks generalizing size hashed with
  | nil => exact Does.pure fun m hm => hm
  | cons chunk chunks ih =>
      cases chunk with
      | none => exact Does.fail
      | some chunk =>
          rw [copyChunks]
          cases checkedAdd 64 size chunk.length with
          | none => exact Does.fail
          | some size' =>
              simp only
              split
              · exact Does.fail
              · refine Does.bind
                  (Q := fun _ m => Clear env root m ∧ Made m.journal.ops (spot root x y)) ?_
                  fun _ => ih _ _
                apply Does.perform
                · exact fun m hm => .append hx hm.2 (List.prefix_refl _)
                · rintro m path bytes through hm ⟨⟩
                  exact .append hx hm.2 (List.prefix_refl _)
                · rintro m t ⟨hclear, hmade⟩ happly
                  refine ⟨hclear.after happly fun name => not_prefix_spot fun h => hx h.1.symm, ?_⟩
                  exact hmade.imp (List.mem_append_left _) (List.mem_append_left _)

theorem careful_receiveArchive (hinj : Function.Injective env.suffix) (hc : Curated artifact)
    (response : Response) :
    Does platform (Careful root)
      (fun m => Clear env root m ∧ Absent (archivePath platform root artifact) m.tree)
      (receiveArchive platform env lib root artifact response) fun _ => Clear env root := by
  have hdownloads : ascii "downloads" ≠ ascii "recovery" := by decide
  have hbeside (n : Nat) : ¬ archivePath platform root artifact <+:
      partialPath platform env root artifact n := by
    rw [archivePath_eq hc, partialPath_eq hc]
    exact not_prefix_spot fun h => partialName_ne_archiveName hc h.2.symm
  have hnil (n : Nat) : partialPath platform env root artifact n ≠ [] := by
    rw [partialPath_eq hc, spot]
    simp
  refine Does.bind
    (Q := fun suffix m =>
    (Clear env root m ∧ Made m.journal.ops (partialPath platform env root artifact suffix)) ∧
    Received (partialPath platform env root artifact suffix) (archivePath platform root artifact) 0
      [] m) ?_ fun suffix => ?_
  · refine Does.bind
      (Q := fun _ m => Clear env root m ∧ Absent (archivePath platform root artifact) m.tree)
      (Does.draw ?_) fun suffix => ?_
    · rintro m ⟨hclear, habsent⟩
      exact ⟨fun label hlabel n hn => hclear label hlabel n (Nat.le_of_succ_le hn), habsent⟩
    refine Does.bind
      (Q := fun _ m =>
      (Clear env root m ∧ Made m.journal.ops (partialPath platform env root artifact suffix)) ∧
      Received (partialPath platform env root artifact suffix) (archivePath platform root artifact)
        0 [] m) ?_ fun _ => Does.pure fun _ hm => hm
    apply Does.perform
    · exact fun m _ => .createNew
    · rintro m path bytes through _ ⟨⟩
    · rintro m t ⟨hclear, habsent⟩ happly
      refine ⟨⟨hclear.after happly fun name => ?_, ?_⟩, Node.find_create happly, rfl,
        absent_of_spares habsent happly (hbeside suffix)⟩
      · change ¬ spot root (ascii "recovery") name <+: partialPath platform env root artifact suffix
        rw [partialPath_eq hc]
        exact not_prefix_spot fun h => hdownloads h.1.symm
      · exact Or.inl (List.mem_append_right _ List.mem_cons_self)
  · have hcopy : Does platform (onTree (Prior platform env lib root artifact))
        (Received (partialPath platform env root artifact suffix)
          (archivePath platform root artifact) 0 [])
        (copyChunks env (partialPath platform env root artifact suffix) artifact.size
          response.chunks 0 [])
        fun r =>
          Received (partialPath platform env root artifact suffix)
          (archivePath platform root artifact) r.1 r.2 :=
      does_copyChunks (hnil suffix) (hbeside suffix)
        (fun t bytes => ⟨.write, fun _ heq => by cases heq⟩) response.chunks 0 []
    have hcare :
        Does platform (Careful root)
        (fun m => Clear env root m ∧
        Made m.journal.ops (partialPath platform env root artifact suffix))
        (copyChunks env (partialPath platform env root artifact suffix) artifact.size
          response.chunks 0 [])
        fun _ m => Clear env root m ∧
          Made m.journal.ops (partialPath platform env root artifact suffix) := by
      rw [partialPath_eq hc]
      exact careful_copyChunks hdownloads response.chunks 0 []
    refine Does.bind (hcare.both hcopy) fun r => ?_
    refine Does.bind
      (Q := fun _ m =>
      (Clear env root m ∧ Made m.journal.ops (partialPath platform env root artifact suffix)) ∧
      Received (partialPath platform env root artifact suffix) (archivePath platform root artifact)
        r.1 r.2 m) (Does.check fun _ hm => hm) fun _ => ?_
    simp only [partialPath_eq hc, archivePath_eq hc]
    split
    · exact Does.bind
        ((careful_recoverPath hinj hdownloads (by decide)).conseq (fun _ hm => hm.1.1) fun _ _ h =>
        h) fun _ => Does.fail
    · apply Does.perform
      · rintro m ⟨⟨_, hmade⟩, _, _, habsent⟩
        exact .publish hdownloads hmade habsent
      · rintro m path bytes through _ ⟨⟩
      · rintro m t ⟨⟨hclear, _⟩, _⟩ happly
        exact hclear.after happly fun name => spares_rename (fun h => hdownloads h.1.symm) fun h =>
          hdownloads h.1.symm

theorem careful_download (hinj : Function.Injective env.suffix) (hc : Curated artifact) :
    Does platform (Careful root)
      (fun m => Clear env root m ∧ Absent (archivePath platform root artifact) m.tree)
      (download platform env lib root artifact) fun _ => Clear env root :=
  Does.download (fun _ _ _ h => h) fun response => careful_receiveArchive hinj hc response

theorem careful_obtainArchive (hinj : Function.Injective env.suffix) (hc : Curated artifact) :
    Does platform (Careful root) (Clear env root) (obtainArchive platform env lib root artifact)
      fun _ => Clear env root := by
  refine Does.bind (careful_sweepArchive hinj hc) fun _ => ?_
  refine Does.bind (Q := fun there m =>
      Clear env root m ∧ (there = false → Absent (archivePath platform root artifact) m.tree))
    (Does.gets fun m hm => ⟨hm, fun hgone => absent_of_not_stat hgone⟩) fun there => ?_
  split
  · exact Does.pure fun _ hm => hm.1
  · next hgone =>
      exact (careful_download hinj hc).conseq (fun m hm => ⟨hm.1, hm.2 (by simpa using hgone)⟩)
        fun _ _ h => h

def Calm (platform : Platform) (env : Environment) (root : List Component) (P : Machine → Prop)
    (p : Run Unit) : Prop :=
  ∀ m, P m → Triple (fun t => t = m) p
    (fun _ t => Anchors platform t → Extends (Careful root) m.journal t.journal ∧ Clear env root t)
    fun _ t => Anchors platform t → Extends (Careful root) m.journal t.journal ∧ Clear env root t

theorem careful_recoverOnError {P : Machine → Prop} {p : Run Unit}
    (hinj : Function.Injective env.suffix) (hx : x ≠ ascii "recovery")
    (hgrows : ∀ l, Preserves (fun m => l <+: m.looked) p) (hp : Calm platform env root P p) :
    Does platform (Careful root) P (recoverOnError platform env root (spot root x y) p) fun _ =>
      Clear env root := by
  have hdoes : Does platform (Careful root) P p fun _ => Clear env root :=
    ⟨hgrows,
      fun m hm =>
      Triple.conseq (hp m hm) (fun _ h => h) (fun _ _ h => h) fun _ _ h hend => (h hend).1⟩
  refine hdoes.recovering (E := Clear env root) (fun m hm => ?_) fun error => ?_
  · exact Triple.conseq (hp m hm) (fun _ h => h) (fun _ _ _ => trivial) fun _ _ h hend => (h hend).2
  · exact Does.bind (careful_recoverPath hinj hx (by decide)) fun _ => Does.throw

theorem calm_extractVerifiedArchive (hc : Curated artifact) (n : Nat) {archive : List Component} :
    Calm platform env root
      (fun m => m.tree.dirAt (stagingPath platform env root artifact n) = true ∧
      Made m.journal.ops (stagingPath platform env root artifact n) ∧ Clear env root m)
      (extractVerifiedArchive platform env lib archive (stagingPath platform env root artifact n)
      artifact) := by
  have hstagings : ascii "staging" ≠ ascii "recovery" := by decide
  rintro m ⟨hdir, hmade, hclear⟩
  have hends {t : Machine} (hsuffixes : t.suffixes = m.suffixes)
      (hunpacks : Extends
        (fun _ op => Unpacks platform (stagingPath platform env root artifact n) op)
        m.journal t.journal) :
      Extends (Careful root) m.journal t.journal ∧ Clear env root t := by
    constructor
    · refine hunpacks.mono_under
        (I := fun l => Made l.ops (stagingPath platform env root artifact n)) hmade ?_ fun l
        op hl hop => ?_
      · exact fun l op t hl _ _ => hl.imp (List.mem_append_left _) (List.mem_append_left _)
      · rw [stagingPath_eq hc] at hl hop
        cases hop with
        | mkdir => exact .mkdir
        | createNew => exact .createNew
        | append hpath =>
            obtain ⟨names, -, -, rfl⟩ := hpath
            exact .append hstagings hl (List.prefix_append _ _)
    · intro label hlabel k hk
      apply hunpacks.invariant
        (I := fun l =>
        l.tree.find (spot root (ascii "recovery") (recoveryName env label (env.suffix k))) = none)
      · exact hclear label hlabel k (hsuffixes ▸ hk)
      · intro l op t hl hop happly
        rw [stagingPath_eq hc] at hop
        rw [Journal.record_tree,
          FileOp.find_of_spares happly (hop.spares_spot fun h => hstagings h.1.symm)]
        exact hl
  intro k hk
  have hunpacks := @triple_unpacks platform env lib artifact archive _ m hdir k hk
  have hsuffixes : Triple (fun t => t.suffixes = m.suffixes)
      (extractVerifiedArchive platform env lib archive
        (stagingPath platform env root artifact n) artifact)
      (fun _ t => t.suffixes = m.suffixes) fun _ t => t.suffixes = m.suffixes :=
    triple_of_extraction (fun _ h => h) (fun _ h => h) (fun _ _ _ h _ => h) fun _ _ h => h
  have hkept := hsuffixes k (congrArg Machine.suffixes hk)
  cases hrun :
    (extractVerifiedArchive platform env lib archive (stagingPath platform env root artifact n)
    artifact).run k with
  | ok a t | error e t =>
      rw [hrun] at hunpacks hkept
      exact fun hend => hends hkept (hunpacks hend)

theorem calm_verifyStaging {path : List Component} :
    Calm platform env root (Clear env root) (verifyStaging platform env lib artifact path) := by
  intro m hm
  have hkeeps :
      Preserves (fun t : Machine => t.journal = m.journal ∧ t.suffixes = m.suffixes)
      (verifyStaging platform env lib artifact path) :=
    Preserves.bind (keeps_inspect fun _ h => h) fun _ => keeps_failOn _
  have hends {t : Machine} (h : t.journal = m.journal ∧ t.suffixes = m.suffixes) :
      Extends (Careful root) m.journal t.journal ∧ Clear env root t := by
    obtain ⟨hjournal, hsuffixes⟩ := h
    constructor
    · rw [hjournal]
      exact .refl
    · intro label hlabel k hk
      rw [Machine.tree, hjournal]
      exact hm label hlabel k (hsuffixes ▸ hk)
  refine Triple.conseq hkeeps ?_ (fun _ _ h _ => hends h) fun _ _ h _ => hends h
  rintro _ rfl
  exact ⟨rfl, rfl⟩

theorem careful_activateArtifact (hinj : Function.Injective env.suffix) (hc : Curated artifact) :
    Does platform (Careful root)
      (fun m => Clear env root m ∧ Absent (objectPath platform root artifact) m.tree)
      (activateArtifact platform env lib root artifact) fun _ => Clear env root := by
  have hstagings : ascii "staging" ≠ ascii "recovery" := by decide
  have hobjects : ascii "objects" ≠ ascii "recovery" := by decide
  refine Does.bind
    (Q := fun suffix m => (m.tree.dirAt (stagingPath platform env root artifact suffix) = true ∧
      Made m.journal.ops (stagingPath platform env root artifact suffix) ∧ Clear env root m) ∧
        Absent (objectPath platform root artifact) m.tree) ?_
    fun suffix => ?_
  · refine Does.bind
      (Q := fun _ m => Clear env root m ∧ Absent (objectPath platform root artifact) m.tree)
      (Does.draw ?_) fun suffix => ?_
    · rintro m ⟨hclear, habsent⟩
      exact ⟨fun label hlabel n hn => hclear label hlabel n (Nat.le_of_succ_le hn), habsent⟩
    refine Does.bind
      (Q := fun _ m => (m.tree.dirAt (stagingPath platform env root artifact suffix) = true ∧
        Made m.journal.ops (stagingPath platform env root artifact suffix) ∧ Clear env root m) ∧
          Absent (objectPath platform root artifact) m.tree) ?_
      fun _ => Does.pure fun _ hm => hm
    apply Does.perform
    · exact fun m _ => .mkdir
    · rintro m path bytes through _ ⟨⟩
    · rintro m t ⟨hclear, habsent⟩ happly
      have hstage :
          Prior platform env lib root artifact m.tree
          (.mkdir (stagingPath platform env root artifact suffix)) :=
        ⟨.stage, fun _ heq => by cases heq⟩
      refine ⟨⟨?_, Or.inr (List.mem_append_right _ List.mem_cons_self),
        hclear.after happly fun name => ?_⟩,
        hstage.absent hc habsent happly⟩
      · change t.dirAt _ = true
        rw [Node.dirAt, Node.find_create happly]
        rfl
      · change ¬ spot root (ascii "recovery") name <+: stagingPath platform env root artifact suffix
        rw [stagingPath_eq hc]
        exact not_prefix_spot fun h => hstagings h.1.symm
  have hkeeps {P P' : Machine → Prop} {Q : Unit → Machine → Prop} {p : Run Unit}
      (hp : Does platform (onTree (Prior platform env lib root artifact)) P p Q)
      (hcalm : Calm platform env root P' p) (hP : ∀ m, P' m → P m) :
      Does platform (Careful root)
        (fun m => (P' m ∧ Made m.journal.ops (stagingPath platform env root artifact suffix)) ∧
        Absent (objectPath platform root artifact) m.tree)
        (recoverOnError platform env root (stagingPath platform env root artifact suffix) p)
        fun _ m =>
          (Clear env root m ∧ Made m.journal.ops (stagingPath platform env root artifact suffix)) ∧
          Absent (objectPath platform root artifact) m.tree := by
    have hcare :
        Does platform (Careful root) P'
        (recoverOnError platform env root (stagingPath platform env root artifact suffix) p)
        fun _ => Clear env root := by
      rw [stagingPath_eq hc]
      exact careful_recoverOnError hinj hstagings hp.grows hcalm
    have habsent :=
      (hp.recoverOnError (.staging (n := suffix)) hc).frame
        (K := Absent (objectPath platform root artifact)) fun _ _ _ habsent hop happly =>
      hop.absent hc habsent happly
    exact (hcare.making.both habsent).conseq (fun m hm => ⟨hm.1, hP m hm.1.1, hm.2⟩) fun _ _ h =>
      ⟨h.1, h.2.2⟩
  refine Does.bind
    ((hkeeps (does_extractVerifiedArchive suffix) (calm_extractVerifiedArchive hc suffix)
    fun _ h => h.1).conseq
    (fun m hm => ⟨⟨hm.1, hm.1.2.1⟩, hm.2⟩) fun _ _ h => h) fun _ => ?_
  refine Does.bind
    (hkeeps (P := fun _ => True) does_verifyStaging calm_verifyStaging fun _ _ => trivial)
      fun _ => ?_
  rw [stagingPath_eq hc, objectPath_eq hc]
  apply Does.perform
  · rintro m ⟨⟨_, hmade⟩, habsent⟩
    exact .publish hstagings hmade habsent
  · rintro m path bytes through _ ⟨⟩
  · rintro m t ⟨⟨hclear, _⟩, _⟩ happly
    exact hclear.after happly fun name => spares_rename (fun h => hstagings h.1.symm) fun h =>
      hobjects h.1.symm

theorem careful_ensureArtifact (hinj : Function.Injective env.suffix) (hc : Curated artifact)
    (offline : Bool) :
    Does platform (Careful root) (Clear env root)
      (ensureArtifact platform env lib root artifact offline) fun _ => Clear env root := by
  refine Does.bind
    (((careful_standsVerified hinj hc).both (does_standsVerified hc)).conseq
    (fun _ h => ⟨h, trivial⟩) fun _ _ h => h)
    fun verified => ?_
  split
  · exact Does.pure fun _ hm => hm.1
  · split
    · exact Does.fail
    · refine Does.bind
        (Q := fun _ m => Clear env root m ∧ Absent (objectPath platform root artifact) m.tree) ?_
        fun _ => ?_
      · have hobtain :=
          (@does_obtainArchive platform env lib root artifact (fun _ => True) hc).frame
            (K := Absent (objectPath platform root artifact))
          fun _ _ _ habsent hop happly => hop.absent hc habsent happly
        exact ((careful_obtainArchive hinj hc).both hobtain).conseq
          (fun _ hm => ⟨hm.1, trivial, hm.2⟩) fun _ _ h => ⟨h.1, h.2.2⟩
      · exact Does.bind (careful_activateArtifact hinj hc) fun _ => Does.pure fun _ hm => hm

theorem careful_ensureArtifacts (hinj : Function.Injective env.suffix) (offline : Bool)
    (hc : ∀ artifact ∈ artifacts, Curated artifact) :
    Does platform (Careful root) (Clear env root)
      (ensureArtifacts platform env lib root offline artifacts) fun _ => Clear env root := by
  induction artifacts with
  | nil => exact Does.pure fun _ hm => hm
  | cons artifact artifacts ih =>
      refine Does.bind (careful_ensureArtifact hinj (hc artifact List.mem_cons_self) offline)
        fun state => ?_
      exact Does.bind (ih fun other ho => hc other (List.mem_cons_of_mem _ ho)) fun results =>
        Does.pure fun _ hm => hm

theorem careful_makeDirs {names : List OsString} :
    Does platform (Careful root) (Clear env root) (makeDirs env root names) fun _ =>
      Clear env root := by
  induction names with
  | nil => exact Does.pure fun _ hm => hm
  | cons name names ih => exact Does.bind careful_createDirAll fun _ => ih

theorem careful_prepareStorage :
    Does platform (Careful root) (Clear env root) (prepareStorage platform env root) fun _ =>
      Clear env root := by
  rw [prepareStorage_eq]
  refine Does.bind careful_makeDirs fun _ => ?_
  refine Does.bind (Q := fun _ => Clear env root) ?_ fun _ => Does.check fun _ hm => hm
  apply Does.perform
  · exact fun _ _ => .openCreate
  · rintro m path bytes through _ ⟨⟩
  · intro m t hclear happly
    have hlock : Prepares root (.openCreate (lockPath root)) := .lock
    exact hclear.after happly fun _ => hlock.spares

theorem careful_setup (hinj : Function.Injective env.suffix) (manifest : CuratedManifest)
    (offline : Bool) :
    Does platform (Careful root) (Clear env root) (setup platform env lib root manifest offline)
      fun _ m => Selection (selection platform manifest) ∧ Clear env root m :=
  Does.setup careful_prepareStorage fun hs => careful_ensureArtifacts hinj offline hs.curated

/-- Where the drawn names differ, also from those of the entries under `recovery`, a setup loses
no file however it ends: it creates at free names, adds to what it created, and moves nothing
onto a thing that is there. -/
theorem setup_destroys_nothing (platform : Platform) (lib : Libraries) (root : List Component)
    (manifest : CuratedManifest) (tree : Tree) (env : Environment)
    (hdistinct : Function.Injective env.suffix)
    (hfresh : ∀ label ∈ labels, ∀ n,
      tree.find (spot root (ascii "recovery") (recoveryName env label (env.suffix n))) = none)
    (offline : Bool)
    (hanchors : Anchors platform (setupFrom platform lib root manifest tree env offline)) :
    (∀ path content, tree.find path = some (.file content) →
      ∃ path',
        (setupFrom platform lib root manifest tree env offline).tree.find path' =
          some (.file content) ∧
        Kept root (setupFrom platform lib root manifest tree env offline).journal.ops path path') ∧
    ∀ before op,
      before ++ [op] <+: (setupFrom platform lib root manifest tree env offline).journal.ops →
      ∃ t t', run FileOp.apply tree before = some t ∧ op.apply t = some t' ∧
        Careful root ⟨before, t⟩ op := by
  have hall :
      Extends (Careful root) ⟨[], tree⟩
      (setupFrom platform lib root manifest tree env offline).journal :=
    (careful_setup hdistinct manifest offline).extends_of_leaves
      (fun label hlabel n _ => hfresh label hlabel n) hanchors
  refine ⟨fun path content hfile => ?_, fun before op hbefore => ?_⟩
  · have hforeign : Foreign root path content ⟨[], tree⟩ path :=
      ⟨hfile, Or.inl rfl, fun _ _ _ hmade => absurd hmade (by simp [Made])⟩
    obtain ⟨path', hforeign'⟩ := hforeign.run hall
    exact ⟨path', hforeign'.file, hforeign'.kept⟩
  · obtain ⟨l, t, hops, -, hrun, hop, happly⟩ := hall.next hbefore
    refine ⟨l.tree, t, hrun, happly, ?_⟩
    rw [List.nil_append] at hops
    rwa [← hops]

def oneDownload : Environment :=
  ⟨1, id, fun _ => .none, fun request => if request = 0 then some ⟨true, none, [some smallArchive]⟩
    else none⟩

theorem ascii_firstId : ((ascii "r").all (· < 128)) = true := by decide

def firstSpec : ArtifactSpec := smallSpec (literal "r" ascii_firstId) "runtime"

def firstArchive : List Component := archivePath .linux smallRoot firstSpec

def storeWith (archive : Tree) (others : List (String × Tree)) : Tree :=
  namedDir
    [("store",
    namedDir (("downloads", .dir [(.normal (archiveName firstSpec), archive)]) :: others))]

/-- The archive is not what it should be, and its name under `recovery` is taken. -/
def takenStore : Tree := storeWith (.file [8]) [("recovery", namedDir [("archive-1-0", .file [9])])]

theorem not_kept_elsewhere {ops : List Op} {path : List Component}
    (h : Kept root ops (spot root (ascii "recovery") name) path) :
    path = spot root (ascii "recovery") name := by
  rcases h with heq | ⟨x, y, name', rest, hx, -, ho, -⟩
  · exact heq
  · have habove : spot root x y <+: spot root (ascii "recovery") name := ho ▸ List.prefix_append _ _
    exact absurd (spot_prefix_spot_iff.mp habove).1 hx

/-- A file whose name is drawn again is lost, and so is a link that leads nowhere at the place
of an archive. -/
theorem a_taken_name_loses_its_file :
    Function.Injective oneDownload.suffix ∧
    takenStore.find (spot smallRoot (ascii "recovery") (ascii "archive-1-0")) = some (.file [9]) ∧
    (¬ ∃ path,
      (setupFrom .linux smallLibraries smallRoot smallManifest takenStore oneDownload
      false).tree.find path = some (.file [9]) ∧
      Kept smallRoot
      (setupFrom .linux smallLibraries smallRoot smallManifest takenStore oneDownload
      false).journal.ops (spot smallRoot (ascii "recovery") (ascii "archive-1-0")) path) ∧
    (storeWith (.link none) []).find firstArchive = some (.link none) ∧
    ((setupFrom .linux smallLibraries smallRoot smallManifest (storeWith (.link none) [])
      oneDownload false).tree.find firstArchive).bind Node.bytes = some smallArchive := by
  refine ⟨Function.injective_id, rfl, ?_, rfl, by decide +kernel⟩
  rintro ⟨path, hfile, hkept⟩
  rw [not_kept_elsewhere hkept] at hfile
  have hbytes :
      ((setupFrom .linux smallLibraries smallRoot smallManifest takenStore oneDownload
      false).tree.find
      (spot smallRoot (ascii "recovery") (ascii "archive-1-0"))).bind Node.bytes = some [8] := by
        decide +kernel
  rw [hfile] at hbytes
  exact absurd hbytes (by decide)

/-- Where no name is taken, the archive that is put aside is kept. -/
theorem a_spoilt_archive_is_kept :
    ∃ path,
      (setupFrom .linux smallLibraries smallRoot smallManifest (storeWith (.file [8]) [])
      oneDownload false).tree.find path = some (.file [8]) ∧
    Kept smallRoot
      (setupFrom .linux smallLibraries smallRoot smallManifest (storeWith (.file [8]) [])
      oneDownload false).journal.ops firstArchive path := by
  refine (setup_destroys_nothing .linux smallLibraries smallRoot smallManifest
    (storeWith (.file [8]) []) oneDownload Function.injective_id
    (fun label _ n => ?_) false (anchors_linux _)).1 firstArchive [8] rfl
  have hnone : (storeWith (.file [8]) []).find (smallRoot ++ [.normal (ascii "recovery")]) = none :=
    rfl
  have hbelow :=
    Node.find_append_none hnone [.normal (recoveryName oneDownload label (oneDownload.suffix n))]
  rwa [List.append_assoc] at hbelow

end ImpossibleVoice.Artifacts

import ImpossibleVoice.Artifacts.Installs

namespace ImpossibleVoice.Artifacts

open Lib

variable {platform : Platform} {env : Environment} {lib : Libraries} {root : List Component}
  {artifact : ArtifactSpec} {P : Machine → Prop}

def Prior (platform : Platform) (env : Environment) (lib : Libraries) (root : List Component)
    (artifact : ArtifactSpec) (t : Tree) (op : Op) : Prop :=
  Installs platform env lib root artifact t op ∧
    ∀ source, op ≠ .rename source (objectPath platform root artifact)

theorem Prior.absent {t t' : Tree} {op : Op} (hc : Curated artifact)
    (habsent : Absent (objectPath platform root artifact) t)
    (h : Prior platform env lib root artifact t op) (happly : op.apply t = some t') :
    Absent (objectPath platform root artifact) t' := by
  cases (h.1.publishes_object hc hc fun _ => rfl).publication happly with
  | kept hkept =>
      rw [Absent, hkept]
      exact habsent
  | removed hnone =>
      rw [Absent, hnone]
      rfl
  | published hop => exact absurd hop (h.2 _)

namespace Prior

variable {t : Tree}

theorem mkdir {target : List Component} {x : OsString} (h : target <+: root ++ [.normal x]) :
    Prior platform env lib root artifact t (.mkdir target) :=
  ⟨.prepare (.mkdir h), fun _ heq => by cases heq⟩

theorem aside (hc : Curated artifact) {source : List Component} {label : String} {n : Nat}
    (h : Owns platform env root artifact source) :
    Prior platform env lib root artifact t
      (.rename source (spot root (ascii "recovery") (recoveryName env label n))) := by
  refine ⟨.aside h, fun other heq => ?_⟩
  have htarget := (FileOp.rename.inj heq).2
  rw [objectPath_eq hc] at htarget
  exact ne_of_spots (by decide) htarget

end Prior

theorem Owns.recover {path : List Component} {label : String}
    (h : Owns platform env root artifact path) (hc : Curated artifact) (hlabel : label ∈ labels) :
    Does platform (onTree (Prior platform env lib root artifact)) P
      (recoverPath platform env path (recoveryPath platform root) label) fun _ m =>
      Absent path m.tree := by
  obtain ⟨x, y, rfl, hx⟩ := h.eq_spot hc
  apply Does.recoverPath hlabel hx
  · intro t target htarget
    rw [recoveryPath_eq] at htarget
    exact .mkdir htarget
  · exact fun t n => .aside hc h

theorem does_inspectObject {path : List Component} {Q : Except ArtifactError Unit → Machine → Prop}
    (h : ∀ m r, P m → (r = .ok () → verifyObjectAt platform lib m.tree path artifact = .ok ()) →
      Q r m.tick) :
    Does platform (onTree (Prior platform env lib root artifact)) P
      (inspectObject platform env lib artifact path) Q := by
  apply Does.inspect
  · exact fun m hm => h m _ hm fun hok => hok
  · exact fun m error hm => h m _ hm fun hok => by cases hok

theorem does_standsVerified (hc : Curated artifact) :
    Does platform (onTree (Prior platform env lib root artifact)) (fun _ => True)
      (standsVerified platform env lib root artifact) fun verified m => if verified = true then
      verifyObjectAt platform lib m.tree (objectPath platform root artifact) artifact = .ok ()
      else Absent (objectPath platform root artifact) m.tree := by
  refine Does.bind
    (Q := fun there m => there = false → Absent (objectPath platform root artifact) m.tree)
    (Does.gets fun m _ hgone => absent_of_not_stat hgone) fun there => ?_
  split
  · refine Does.bind (Q := fun r m => r = .ok () →
      verifyObjectAt platform lib m.tree (objectPath platform root artifact) artifact = .ok ())
      (does_inspectObject fun m r _ h => h) fun verified => ?_
    cases verified with
    | ok _ =>
        apply Does.pure
        intro m hm
        rw [if_pos rfl]
        exact hm rfl
    | error _ =>
        refine Does.bind (Owns.object.recover hc (by decide)) fun _ => Does.pure fun m hm => ?_
        rw [if_neg Bool.false_ne_true]
        exact hm
  · next hgone =>
      apply Does.pure
      intro m hm
      rw [if_neg Bool.false_ne_true]
      exact hm (by simpa using hgone)

theorem does_sweepArchive (hc : Curated artifact) :
    Does platform (onTree (Prior platform env lib root artifact)) P
      (sweepArchive platform env lib root artifact) fun _ _ => True := by
  refine Does.bind (Q := fun _ _ => True) (Does.gets fun _ _ => trivial) fun there => ?_
  split
  · refine Does.bind (Q := fun _ _ => True) (Does.inspect (fun _ _ => trivial) fun _ _ _ => trivial)
      fun valid => ?_
    cases valid with
    | ok _ => exact Does.pure fun _ _ => trivial
    | error _ =>
        exact (Owns.archive.recover hc (by decide)).conseq (fun _ h => h) fun _ _ _ => trivial
  · exact Does.pure fun _ _ => trivial

/-- The file holds what was received so far, and nothing is at the place it is for. -/
def Received (destination archive : List Component) (size : Nat) (hashed : Bytes) (m : Machine) :
    Prop :=
  m.tree.find destination = some (.file hashed) ∧ size = hashed.length ∧ Absent archive m.tree

theorem does_copyChunks {destination archive : List Component} {expected : Nat}
    (hnil : destination ≠ []) (hne : ¬ archive <+: destination)
    (hallowed : ∀ t bytes, Prior platform env lib root artifact t (.append destination bytes))
    (chunks : List (Option Bytes)) (size : Nat) (hashed : Bytes) :
    Does platform (onTree (Prior platform env lib root artifact))
      (Received destination archive size hashed)
      (copyChunks env destination expected chunks size hashed) fun r =>
      Received destination archive r.1 r.2 := by
  induction chunks generalizing size hashed with
  | nil => exact Does.pure fun m hm => hm
  | cons chunk chunks ih =>
      cases chunk with
      | none => exact Does.fail
      | some chunk =>
          rw [copyChunks]
          cases hadd : checkedAdd 64 size chunk.length with
          | none => exact Does.fail
          | some size' =>
              simp only
              split
              · exact Does.fail
              · refine Does.bind
                  (Q := fun _ => Received destination archive size' (hashed ++ chunk)) ?_
                    fun _ => ih _ _
                apply Does.perform
                · exact fun m _ => hallowed m.tree chunk
                · rintro m path bytes through _ ⟨⟩
                  exact hallowed m.tree _
                · rintro m t ⟨hfile, hsize, habsent⟩ happly
                  refine ⟨FileOp.find_of_append happly hfile hnil, ?_, ?_⟩
                  · rw [checkedAdd_eq_some hadd, hsize, List.length_append]
                  · exact absent_of_spares habsent happly hne

theorem does_receiveArchive (hc : Curated artifact) (response : Response) :
    Does platform (onTree (Prior platform env lib root artifact))
      (fun m => Absent (archivePath platform root artifact) m.tree)
      (receiveArchive platform env lib root artifact response) fun _ _ => True := by
  have hkeep {source : List Component} {t : Tree}
      (h : Installs platform env lib root artifact t
      (.rename source (archivePath platform root artifact))) :
      Prior platform env lib root artifact t
        (.rename source (archivePath platform root artifact)) := by
    refine ⟨h, fun other heq => ?_⟩
    have htarget := (FileOp.rename.inj heq).2
    rw [objectPath_eq hc, archivePath_eq hc] at htarget
    exact ne_of_spots (by decide) htarget
  have hbeside (n : Nat) : ¬ archivePath platform root artifact <+:
      partialPath platform env root artifact n := by
    rw [archivePath_eq hc, partialPath_eq hc]
    exact not_prefix_spot fun h => partialName_ne_archiveName hc h.2.symm
  have hnil (n : Nat) : partialPath platform env root artifact n ≠ [] := by
    rw [partialPath_eq hc, spot]
    simp
  refine Does.bind (Q := fun suffix => Received (partialPath platform env root artifact suffix)
    (archivePath platform root artifact) 0 []) ?_
    fun suffix => ?_
  · refine Does.bind (Q := fun _ m => Absent (archivePath platform root artifact) m.tree)
      (Does.draw fun _ hm => hm) fun suffix => ?_
    refine Does.bind (Q := fun _ => Received (partialPath platform env root artifact suffix)
      (archivePath platform root artifact) 0 []) ?_
      fun _ => Does.pure fun _ hm => hm
    apply Does.perform
    · exact fun m _ => ⟨.receive, fun _ heq => by cases heq⟩
    · rintro m path bytes through _ ⟨⟩
    · intro m t habsent happly
      exact ⟨Node.find_create happly, rfl, absent_of_spares habsent happly (hbeside suffix)⟩
  · refine Does.bind
      (does_copyChunks (hnil suffix) (hbeside suffix)
      (fun t bytes => ⟨.write, fun _ heq => by cases heq⟩)
      response.chunks 0 []) fun r => ?_
    refine Does.bind (Q := fun _ => Received (partialPath platform env root artifact suffix)
      (archivePath platform root artifact) r.1 r.2)
      (Does.check fun _ hm => hm) fun _ => ?_
    split
    · exact Does.bind (Owns.unfinished.recover hc (by decide)) fun _ => Does.fail
    · next hgood =>
        simp only [not_or, not_not] at hgood
        apply Does.perform
        · rintro m ⟨hfile, hsize, habsent⟩
          exact hkeep (.keep hfile ⟨r.2, rfl, hsize ▸ hgood.1, hgood.2⟩ habsent)
        · rintro m path bytes through _ ⟨⟩
        · exact fun _ _ _ _ => trivial

theorem Does.download {allowed : Journal Component UInt8 → Op → Prop} {Q : Machine → Prop}
    (hP : ∀ m clock requests, P m → P { m with clock := clock, requests := requests })
    (hreceive : ∀ response,
      Does platform allowed P (receiveArchive platform env lib root artifact response) fun _ => Q) :
    Does platform allowed P (Artifacts.download platform env lib root artifact) fun _ => Q := by
  rw [Artifacts.download]
  split
  · exact Does.fail
  · split
    · exact Does.fail
    · refine Does.bind (Q := fun _ => P) ?_ fun response => ?_
      · refine Does.bind (Q := fun _ => P) (Does.gets fun _ hm => hm) fun request => ?_
        refine Does.bind (Q := fun _ => P) ?_ fun _ => ?_
        · apply Does.quiet
          · exact fun _ => rfl
          · exact fun _ => rfl
          · exact fun m hm => hP m m.clock (m.requests + 1) hm
        refine Does.bind (Q := fun _ => P)
          (Does.check fun m hm => hP m (m.clock + 1) m.requests hm) fun _ => ?_
        split
        · exact Does.fail
        · split
          · exact Does.pure fun _ hm => hm
          · exact Does.fail
      · split
        · exact Does.fail
        · exact hreceive response

theorem does_download (hc : Curated artifact) :
    Does platform (onTree (Prior platform env lib root artifact))
      (fun m => Absent (archivePath platform root artifact) m.tree)
      (download platform env lib root artifact) fun _ _ => True :=
  Does.download (fun _ _ _ h => h) fun response => does_receiveArchive hc response

theorem does_obtainArchive (hc : Curated artifact) :
    Does platform (onTree (Prior platform env lib root artifact)) P
      (obtainArchive platform env lib root artifact) fun _ _ => True := by
  refine Does.bind (does_sweepArchive hc) fun _ => ?_
  refine Does.bind
    (Q := fun there m => there = false → Absent (archivePath platform root artifact) m.tree)
    (Does.gets fun m _ hgone => absent_of_not_stat hgone) fun there => ?_
  split
  · exact Does.pure fun _ _ => trivial
  · next hgone =>
      exact (does_download hc).conseq (fun m hm => hm (by simpa using hgone)) fun _ _ _ => trivial

theorem Does.recoverOnError {Q : Unit → Machine → Prop} {path : List Component} {p : Run Unit}
    (hp : Does platform (onTree (Prior platform env lib root artifact)) P p Q)
    (h : Owns platform env root artifact path) (hc : Curated artifact) :
    Does platform (onTree (Prior platform env lib root artifact)) P
      (Artifacts.recoverOnError platform env root path p) Q :=
  hp.recovering (E := fun _ => True)
    (fun m hm => Triple.conseq (hp.runs m hm) (fun _ h => h) (fun _ _ _ => trivial)
    fun _ _ _ _ => trivial) fun _ => Does.bind (h.recover hc (by decide)) fun _ => Does.throw

theorem looked_of_entered {archivePath staging : List Component} {l : List (OsString × Entry)} :
    Triple (fun m => l <+: m.looked)
      (extractVerifiedArchive platform env lib archivePath staging artifact)
      (fun _ m => l <+: m.looked ∧ ∀ e ∈ m.entered, (artifact.archiveRoot.bytes, e) ∈ m.looked)
      fun _ m => l <+: m.looked ∧ ∀ e ∈ m.entered, (artifact.archiveRoot.bytes, e) ∈ m.looked := by
  apply triple_of_extraction
  · exact fun m hm => ⟨hm, fun _ he => absurd he List.not_mem_nil⟩
  · exact fun _ hm => hm
  · exact fun _ _ _ hm _ => hm
  · rintro m entry ⟨hgrown, hentered⟩
    refine ⟨hgrown.trans (List.prefix_append _ _), fun e he => ?_⟩
    rcases List.mem_append.mp he with he | he
    · exact List.mem_append_left _ (hentered e he)
    · exact List.mem_append_right _ (List.mem_singleton.mp he ▸ List.mem_cons_self)

/-- An extraction that looks at no entry which opens with a drive adds to its staging directory
alone. -/
theorem triple_unpacks {archivePath staging : List Component} {m : Machine}
    (hdir : m.tree.dirAt staging = true) :
    Triple (fun t => t = m) (extractVerifiedArchive platform env lib archivePath staging artifact)
      (fun _ t => Anchors platform t →
      Extends (fun _ op => Unpacks platform staging op) m.journal t.journal) fun _ t =>
      Anchors platform t →
    Extends (fun _ op => Unpacks platform staging op) m.journal t.journal := by
  have hends {t : Machine} (h : Ended platform staging artifact m.journal t)
      (hlooked : ∀ e ∈ t.entered, (artifact.archiveRoot.bytes, e) ∈ t.looked)
        (hanchors : Anchors platform t) :
      Extends (fun _ op => Unpacks platform staging op) m.journal t.journal :=
    (h.2 fun e he => hanchors _ (hlooked e he)).1
  intro k hk
  have hended :=
    triple_extractVerifiedArchive platform env lib archivePath artifact hdir k
      (congrArg Machine.journal hk)
  have hlooked :=
    @looked_of_entered platform env lib artifact archivePath staging k.looked k (List.prefix_refl _)
  cases hrun : (extractVerifiedArchive platform env lib archivePath staging artifact).run k with
  | ok a t | error e t =>
      rw [hrun] at hended hlooked
      exact hends hended hlooked.2

theorem does_extractVerifiedArchive (n : Nat) :
    Does platform (onTree (Prior platform env lib root artifact))
      (fun m => m.tree.dirAt (stagingPath platform env root artifact n) = true)
      (extractVerifiedArchive platform env lib (archivePath platform root artifact)
      (stagingPath platform env root artifact n) artifact) fun _ _ => True := by
  refine ⟨fun l => ?_, fun m hdir => ?_⟩
  · exact Triple.conseq looked_of_entered (fun _ h => h) (fun _ _ h => h.1) fun _ _ h => h.1
  · have hprior (j : Journal Component UInt8) (op : Op)
        (hop : Unpacks platform (stagingPath platform env root artifact n) op) :
        onTree (Prior platform env lib root artifact) j op := by
      refine ⟨.unpack hop, ?_⟩
      rintro source rfl
      cases hop
    exact Triple.conseq (triple_unpacks hdir) (fun _ h => h)
      (fun _ _ h hend => ⟨(h hend).mono hprior, trivial⟩)
      fun _ _ h hend => (h hend).mono hprior

theorem does_verifyStaging {path : List Component} :
    Does platform (onTree (Prior platform env lib root artifact)) P
      (verifyStaging platform env lib artifact path) fun _ m =>
      verifyObjectAt platform lib m.tree path artifact = .ok () := by
  refine Does.bind
    (Q := fun r m => r = .ok () → verifyObjectAt platform lib m.tree path artifact = .ok ())
    (does_inspectObject fun m r _ h => h) fun verified => ?_
  exact Does.failOn.conseq (fun _ h => h) fun _ _ h => h.1 h.2

theorem verifiesAs_of_ok {t : Tree} {path : List Component}
    (h : verifyObjectAt platform lib t path artifact = .ok ()) :
    ∃ n, t.find path = some n ∧ VerifiesAs platform lib artifact n := by
  rw [verifyObjectAt] at h
  split at h
  · cases h
  · next n hn => exact ⟨n, hn, h⟩

theorem VerifiesAs.ok {t n : Tree} {path : List Component}
    (h : VerifiesAs platform lib artifact n) (hn : t.find path = some n) :
    verifyObjectAt platform lib t path artifact = .ok () := by
  rw [verifyObjectAt, hn]
  exact h

theorem does_activateArtifact (hc : Curated artifact) :
    Does platform (onTree (Installs platform env lib root artifact))
      (fun m => Absent (objectPath platform root artifact) m.tree)
      (activateArtifact platform env lib root artifact) fun _ m =>
      verifyObjectAt platform lib m.tree (objectPath platform root artifact) artifact = .ok () := by
  refine Does.bind
    (Q := fun suffix m => m.tree.dirAt (stagingPath platform env root artifact suffix) = true ∧
      Absent (objectPath platform root artifact) m.tree) ?_ fun suffix => ?_
  · refine Does.bind (Q := fun _ m => Absent (objectPath platform root artifact) m.tree)
      (Does.draw fun _ hm => hm) fun suffix => ?_
    refine Does.bind
      (Q := fun _ m => m.tree.dirAt (stagingPath platform env root artifact suffix) = true ∧
        Absent (objectPath platform root artifact) m.tree) ?_ fun _ => Does.pure fun _ hm => hm
    apply Does.perform
    · exact fun m _ => .stage
    · rintro m path bytes through _ ⟨⟩
    · intro m t habsent happly
      have hstage :
          Prior platform env lib root artifact m.tree
          (.mkdir (stagingPath platform env root artifact suffix)) :=
        ⟨.stage, fun _ heq => by cases heq⟩
      refine ⟨?_, hstage.absent hc habsent happly⟩
      change t.dirAt _ = true
      rw [Node.dirAt, Node.find_create happly]
      rfl
  have hkeeps {P : Machine → Prop} {Q : Unit → Machine → Prop} {p : Run Unit}
      (hp : Does platform (onTree (Prior platform env lib root artifact)) P p Q) :
      Does platform (onTree (Installs platform env lib root artifact))
        (fun m => P m ∧ Absent (objectPath platform root artifact) m.tree)
        (recoverOnError platform env root (stagingPath platform env root artifact suffix) p)
        fun a m => Q a m ∧ Absent (objectPath platform root artifact) m.tree :=
    ((hp.recoverOnError .staging hc).frame (K := Absent (objectPath platform root artifact))
      fun _ _ _ habsent hop happly =>
      hop.absent hc habsent happly).mono fun _ _ h => h.1
  refine Does.bind (hkeeps (does_extractVerifiedArchive suffix)) fun _ => ?_
  refine Does.bind (hkeeps does_verifyStaging) fun _ => ?_
  apply Does.perform
  · rintro m ⟨hok, habsent⟩
    obtain ⟨n, hn, hgood⟩ := verifiesAs_of_ok hok
    exact .activate hn hgood habsent
  · rintro m path bytes through _ ⟨⟩
  · rintro m t ⟨hok, habsent⟩ happly
    obtain ⟨n, hn, hgood⟩ := verifiesAs_of_ok hok
    have htarget := FileOp.find_target_of_rename happly hn []
    rw [List.append_nil] at htarget
    exact hgood.ok htarget

theorem does_ensureArtifact (hc : Curated artifact) (offline : Bool) :
    Does platform (onTree (Installs platform env lib root artifact)) (fun _ => True)
      (ensureArtifact platform env lib root artifact offline) fun _ m =>
      verifyObjectAt platform lib m.tree (objectPath platform root artifact) artifact = .ok () := by
  refine Does.bind ((does_standsVerified hc).mono fun _ _ h => h.1) fun verified => ?_
  split
  · exact Does.pure fun _ hm => hm
  · split
    · exact Does.fail
    · refine Does.bind
        (Q := fun _ m => True ∧ Absent (objectPath platform root artifact) m.tree) ?_ fun _ => ?_
      · exact (((does_obtainArchive (P := fun _ => True) hc).frame
          (K := Absent (objectPath platform root artifact)) fun _ _ _ habsent hop happly =>
          hop.absent hc habsent happly).mono fun _ _ h => h.1).conseq
            (fun _ hm => ⟨trivial, hm⟩) fun _ _ h => h
      · exact Does.bind ((does_activateArtifact hc).conseq (fun _ hm => hm.2) fun _ _ h => h)
          fun _ => Does.pure fun _ hm => hm

end ImpossibleVoice.Artifacts

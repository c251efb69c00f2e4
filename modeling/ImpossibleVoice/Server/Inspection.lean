import ImpossibleVoice.Artifacts.Readiness
import ImpossibleVoice.Server.Engines

namespace ImpossibleVoice.Server

open Lib Artifacts
open Native (SherpaLibrary SherpaRuntime)
open Stt (SttEngine SttLimits)
open Tts (TtsEngine TtsLimits)

variable {platform : Platform} {ε α β : Type} {env : Environment} {lib : Libraries}
  {host : NativeHost} {root : List Component} {manifest : CuratedManifest}
  {artifacts : List ArtifactSpec} {artifact : ArtifactSpec} {message : String} {m : Machine}

def leavesBehind (p : EStateM ε Machine α) (m : Machine) : Machine :=
  match p.run m with
  | .ok _ t | .error _ t => t

def Reads (p : EStateM ε Machine α) : Prop := ∀ m, ∃ k, leavesBehind p m = m.at k

namespace Reads

variable {p : EStateM ε Machine α}

theorem pure (a : α) : Reads (Pure.pure a : EStateM ε Machine α) := fun m => ⟨m.clock, rfl⟩

theorem throw (e : ε) : Reads (MonadExcept.throw e : EStateM ε Machine α) := fun m => ⟨m.clock, rfl⟩

theorem gets (f : Machine → α) : Reads (Lib.gets f : EStateM ε Machine α) := fun m => ⟨m.clock, rfl⟩

theorem bind {f : α → EStateM ε Machine β} (hp : Reads p) (hf : ∀ a, Reads (f a)) :
    Reads (p >>= f) := by
  intro m
  obtain ⟨k, hk⟩ := hp m
  cases hrun : p.run m with
  | ok a t =>
      rw [leavesBehind, hrun] at hk
      simp only at hk
      obtain ⟨l, hl⟩ := hf a t
      refine ⟨l, ?_⟩
      rw [leavesBehind, run_bind_of_ok hrun]
      rw [leavesBehind, hk] at hl
      rw [hk, hl, Machine.at_at]
  | error e t =>
      rw [leavesBehind, hrun] at hk
      exact ⟨k, by rw [leavesBehind, run_bind_of_error hrun]; exact hk⟩

theorem ite {c : Prop} [Decidable c] {q : EStateM ε Machine α} (hp : Reads p) (hq : Reads q) :
    Reads (if c then p else q) := by
  split
  · exact hp
  · exact hq

theorem failOn (result : Except ArtifactError α) : Reads (Artifacts.failOn result) := by
  cases result with
  | ok a => exact pure a
  | error e => exact throw _

theorem inspect (result : Tree → Except ArtifactError α) (first : String) (others : List String) :
    Reads (Artifacts.inspect env result first others) := by
  intro m
  refine ⟨m.clock + 1, ?_⟩
  rw [leavesBehind, EStateM.run, Artifacts.inspect]
  cases env.fault m.clock <;> rfl

theorem objectState : Reads (Artifacts.objectState platform env lib root artifact) := by
  refine bind (gets _) fun there => ite (bind (inspect _ _ _) fun verified => ?_) (pure _)
  cases verified with
  | ok u => exact pure _
  | error error => exact pure _

theorem objectStates (ready : Bool) :
    Reads (Artifacts.objectStates platform env lib root artifacts ready) := by
  induction artifacts generalizing ready with
  | nil => exact pure _
  | cons artifact artifacts ih => exact bind objectState fun _ => bind (ih _) fun _ => pure _

theorem selectedArtifacts : Reads (Artifacts.selectedArtifacts platform manifest) :=
  bind (failOn _) fun _ => failOn _

theorem status : Reads (Artifacts.status platform env lib root manifest) :=
  bind selectedArtifacts fun _ => bind (objectStates true) fun _ => pure _

theorem verifiedKindPath (kind : String) :
    Reads (Artifacts.verifiedKindPath platform env lib root artifacts kind) := by
  rw [Artifacts.verifiedKindPath]
  split
  · exact throw _
  · exact bind (inspect _ _ _) fun _ => bind (failOn _) fun _ => pure _

theorem verifiedProfile : Reads (Artifacts.verifiedProfile platform env lib root manifest) :=
  bind selectedArtifacts fun _ => bind (verifiedKindPath _) fun _ =>
    bind (verifiedKindPath _) fun _ =>
    bind (verifiedKindPath _) fun _ => pure _

theorem attempt {p : Run α} (hp : Reads p) : Reads (Server.attempt p) := by
  intro m
  obtain ⟨k, hk⟩ := hp m
  refine ⟨k, ?_⟩
  rw [← hk, leavesBehind, leavesBehind, EStateM.run, Server.attempt]
  cases p.run m with
  | ok a t => rfl
  | error e t => cases e <;> rfl

theorem failIf (c : Prop) [Decidable c] (e : ε) : Reads (Lib.failIf c e : EStateM ε Machine Unit) :=
  ite (throw e) (pure ())

theorem openStore : Reads (Server.openStore host) := ite (pure _) (throw _)

end Reads

theorem reads_load (maxConcurrent : Nat) :
    Reads (VoiceEngines.load platform env lib host root manifest maxConcurrent) := by
  refine Reads.bind (Reads.failIf _ _) fun _ => Reads.bind Reads.openStore fun _ =>
    Reads.bind Reads.verifiedProfile.attempt fun profile => ?_
  cases profile with
  | none => exact Reads.throw _
  | some profile =>
      refine Reads.bind (Reads.gets _) fun t => ?_
      cases VoiceEngines.start platform host t profile maxConcurrent with
      | ok engines => exact Reads.pure _
      | error error => exact Reads.throw _

theorem reads_inspectEngines : Reads (inspectEngines platform env lib host root manifest) := by
  refine Reads.bind Reads.openStore fun _ => Reads.bind Reads.status.attempt fun artifacts => ?_
  cases artifacts with
  | none => exact Reads.throw _
  | some artifacts =>
      refine Reads.ite (Reads.pure _) (Reads.bind Reads.verifiedProfile.attempt fun profile => ?_)
      cases profile with
      | none => exact Reads.pure _
      | some profile => exact Reads.bind (Reads.gets _) fun t => Reads.pure _

def Gives (p : Composition α) (m : Machine) (a : α) : Prop := ∃ k, p.run m = .ok a (m.at k)

def Refuses (p : Composition α) (m : Machine) (message : String) : Prop :=
  ∃ k, p.run m = .error (.failed ⟨message⟩) (m.at k)

variable {p : Composition α} {f : α → Composition β} {a : α} {b : β}

theorem gives_pure (a : α) (m : Machine) : Gives (pure a) m a := ⟨m.clock, rfl⟩

theorem refuses_raise (message : String) (m : Machine) :
    Refuses (raise message : Composition α) m message :=
  ⟨m.clock, rfl⟩

theorem Gives.bind (hp : Gives p m a) (hf : ∀ k, Gives (f a) (m.at k) b) : Gives (p >>= f) m b := by
  obtain ⟨k, hk⟩ := hp
  obtain ⟨l, hl⟩ := hf k
  exact ⟨l, by rw [run_bind_of_ok hk, hl, Machine.at_at]⟩

theorem Gives.refuses (hp : Gives p m a) (hf : ∀ k, Refuses (f a) (m.at k) message) :
    Refuses (p >>= f) m message := by
  obtain ⟨k, hk⟩ := hp
  obtain ⟨l, hl⟩ := hf k
  exact ⟨l, by rw [run_bind_of_ok hk, hl, Machine.at_at]⟩

theorem Refuses.bind (hp : Refuses p m message) : Refuses (p >>= f) m message := by
  obtain ⟨k, hk⟩ := hp
  exact ⟨k, run_bind_of_error hk⟩

theorem gives_gets (f : Machine → α) (m : Machine) : Gives (gets f) m (f m) := ⟨m.clock, rfl⟩

theorem gives_attempt {p : Run α} (h : Shows p m a) : Gives (attempt p) m (some a) := by
  obtain ⟨k, hk⟩ := h
  refine ⟨k, ?_⟩
  rw [EStateM.run, attempt, hk]

def Persists (p : Run α) : Prop := ∀ m t, p.run m ≠ .error .stopped t

theorem persists_pure (a : α) : Persists (pure a : Run α) := fun _ _ hrun => by cases hrun

theorem persists_failOn (result : Except ArtifactError α) : Persists (failOn result) := by
  intro m t h
  cases result <;> cases h

theorem persists_bind {p : Run α} {f : α → Run β} (hp : Persists p) (hf : ∀ a, Persists (f a)) :
    Persists (p >>= f) := by
  intro m t h
  cases hrun : p.run m with
  | ok a u =>
      rw [run_bind_of_ok hrun] at h
      exact hf a u t h
  | error e u =>
      rw [run_bind_of_error hrun] at h
      cases h
      exact hp m _ hrun

theorem persists_verifiedKindPath (h : Permitted env) (kind : String) :
    Persists (verifiedKindPath platform env lib root artifacts kind) := by
  rw [verifiedKindPath]
  split
  · intro m t h
    cases h
  · refine persists_bind (fun m t hrun => ?_) fun _ => persists_bind (persists_failOn _) fun _ =>
      persists_pure _
    rw [inspectObject, EStateM.run, inspect, h] at hrun
    cases hrun

theorem persists_verifiedProfile (h : Permitted env) :
    Persists (verifiedProfile platform env lib root manifest) :=
  persists_bind (persists_bind (persists_failOn _) fun _ => persists_failOn _) fun _ =>
    persists_bind (persists_verifiedKindPath h _) fun _ =>
      persists_bind (persists_verifiedKindPath h _) fun _ =>
      persists_bind (persists_verifiedKindPath h _) fun _ => persists_pure _

theorem verifiedProfile_shown (h : Permitted env) (haccepted : Accepted platform manifest)
    {t : Tree} (hready : Ready platform lib root manifest t) :
    ∃ profile, ∀ m : Machine, m.tree = t →
    Gives (attempt (verifiedProfile platform env lib root manifest)) m (some profile) := by
  obtain ⟨-, hs⟩ := selectedArtifacts_of_accepted haccepted (.start t)
  have hshows {kind : String} (hkind : kind ∈ kinds) : ∃ path, ∀ m : Machine, m.tree = t →
      Shows (verifiedKindPath platform env lib root (selection platform manifest) kind) m path := by
    obtain ⟨artifact, ha, hfind⟩ := hs.complete kind hkind
    refine ⟨_, fun m hm => shows_verifiedKindPath h hfind ?_⟩
    rw [hm]
    exact hready artifact ha
  obtain ⟨runtime, hruntime⟩ := hshows (show "runtime" ∈ kinds by decide)
  obtain ⟨stt, hstt⟩ := hshows (show "stt-model" ∈ kinds by decide)
  obtain ⟨tts, htts⟩ := hshows (show "tts-model" ∈ kinds by decide)
  refine ⟨⟨runtime, stt, tts⟩, fun m hm => gives_attempt ?_⟩
  exact Shows.bind (selectedArtifacts_of_accepted haccepted m).1 fun _ =>
    Shows.bind (hruntime _ hm) fun _ =>
    Shows.bind (hstt _ hm) fun _ => Shows.bind (htts _ hm) fun _ => Shows.pure _ _

theorem verifiedProfile_refused (h : Permitted env) (haccepted : Accepted platform manifest)
    (hready : ¬ Ready platform lib root manifest m.tree) :
    Gives (attempt (verifiedProfile platform env lib root manifest)) m none := by
  cases hrun : (verifiedProfile platform env lib root manifest).run m with
  | ok profile t => exact absurd ((verifiedProfile_iff h haccepted m).mp ⟨profile, t, hrun⟩) hready
  | error e t =>
      obtain ⟨k, hk⟩ := (@Reads.verifiedProfile platform env lib root manifest) m
      rw [leavesBehind, hrun] at hk
      simp only at hk
      refine ⟨k, ?_⟩
      rw [EStateM.run, attempt, hrun]
      cases e with
      | failed error => rw [hk]
      | stopped => exact absurd hrun (persists_verifiedProfile h m t)

def EngineInspection.verdict (inspection : EngineInspection) : Option String :=
  if inspection.artifacts.status ≠ "ready" then some "voice artifacts are not verified"
  else if inspection.nativeRuntime = "not-loadable" then some "native voice runtime is not loadable"
  else if inspection.speechToText = "not-loadable" then
    some "speech recognition model is not loadable"
  else if inspection.textToSpeech = "not-loadable" then
    some "speech synthesis model is not loadable"
  else none

def VoiceEngines.Bounded (engines : VoiceEngines) (maxConcurrent : Nat) : Prop :=
  engines.stt.limits = { SttLimits.default with maxConcurrent } ∧
    engines.tts.limits = { TtsLimits.default with maxConcurrent }

theorem withBackend_stt (backend : Stt.Backend) (reached : List ℚ → Bool) {maxConcurrent : Nat}
    (h : maxConcurrent ≠ 0) :
    ∃ engine,
      SttEngine.withBackend backend { SttLimits.default with maxConcurrent } (.default reached) =
      .ok engine ∧ engine.limits = { SttLimits.default with maxConcurrent } := by
  have hvad : (Audio.EnergyVad.new (.default reached) Stt.engineSampleRate).isOk = true := by
    rw [Audio.EnergyVad.new_default reached rfl]
    rfl
  have hchunk : ({ SttLimits.default with maxConcurrent } : SttLimits).maxChunkBytes ≠ 0 :=
    show SttLimits.default.maxChunkBytes ≠ 0 by decide
  refine ⟨⟨backend, { SttLimits.default with maxConcurrent }, .default reached, h, hchunk, hvad⟩,
    ?_, rfl⟩
  rw [SttEngine.withBackend, dif_neg h, dif_neg hchunk, dif_pos hvad]

theorem withBackend_tts (backend : Tts.Backend) {maxConcurrent : Nat} (h : maxConcurrent ≠ 0) :
    ∃ engine, TtsEngine.withBackend backend { TtsLimits.default with maxConcurrent } = .ok engine ∧
      engine.limits = { TtsLimits.default with maxConcurrent } := by
  have htext : ({ TtsLimits.default with maxConcurrent } : TtsLimits).maxTextBytes ≠ 0 :=
    show TtsLimits.default.maxTextBytes ≠ 0 by decide
  have houtput : ({ TtsLimits.default with maxConcurrent } : TtsLimits).maxOutputSamples ≠ 0 :=
    show TtsLimits.default.maxOutputSamples ≠ 0 by decide
  have hchunk : ({ TtsLimits.default with maxConcurrent } : TtsLimits).maxChunkSamples ≠ 0 :=
    show TtsLimits.default.maxChunkSamples ≠ 0 by decide
  refine ⟨⟨backend, { TtsLimits.default with maxConcurrent }, h, htext, houtput, hchunk⟩, ?_, rfl⟩
  rw [TtsEngine.withBackend, dif_neg h, dif_neg htext, dif_neg houtput, dif_neg hchunk]

def Foretold (platform : Platform) (host : NativeHost) (t : Tree) (profile : VerifiedProfile)
    (maxConcurrent : Nat) (inspection : EngineInspection) : Prop :=
  match inspection.verdict with
  | none =>
      inspection.isReady = true ∧
        ∃ engines, VoiceEngines.start platform host t profile maxConcurrent = .ok engines ∧
      engines.Bounded maxConcurrent
  | some message =>
      inspection.isReady = false ∧
        VoiceEngines.start platform host t profile maxConcurrent = .error ⟨message⟩

theorem foretold_error {t : Tree} {profile : VerifiedProfile} {maxConcurrent : Nat}
    {inspection : EngineInspection} (hverdict : inspection.verdict = some message)
    (hready : inspection.isReady = false)
    (hstart : VoiceEngines.start platform host t profile maxConcurrent = .error ⟨message⟩) :
    Foretold platform host t profile maxConcurrent inspection := by
  rw [Foretold, hverdict]
  exact ⟨hready, hstart⟩

theorem foretold {report : SetupReport} (hreport : report.status = "ready") (t : Tree)
    (profile : VerifiedProfile) {maxConcurrent : Nat} (hc : maxConcurrent ≠ 0) :
    Foretold platform host t profile maxConcurrent
      (inspectNative platform host report t profile) := by
  cases hload : SherpaRuntime.load platform host.sherpa t profile.runtime with
  | error e =>
      rw [show inspectNative platform host report t profile =
        notLoadable report "not-loadable" "not-checked" "not-checked" by
        simp only [inspectNative, hload]]
      have hverdict : (notLoadable report "not-loadable" "not-checked" "not-checked").verdict =
          some "native voice runtime is not loadable" := by
        simp [EngineInspection.verdict, notLoadable, hreport]
      refine foretold_error hverdict rfl ?_
      rw [VoiceEngines.start, hload]
      rfl
  | ok runtime =>
      cases hrecognizer : createRecognizer platform host t runtime profile with
      | error e =>
          rw [show inspectNative platform host report t profile =
            notLoadable report "loadable" "not-loadable" "not-checked" by
            simp only [inspectNative, hload, hrecognizer]]
          have hverdict : (notLoadable report "loadable" "not-loadable" "not-checked").verdict =
              some "speech recognition model is not loadable" := by
            simp [EngineInspection.verdict, notLoadable, hreport]
          refine foretold_error hverdict rfl ?_
          rw [VoiceEngines.start, hload]
          simp only [mapErr, Except.mapError, bind, Except.bind, hrecognizer]
      | ok recognizer =>
          cases hsynthesizer : createSynthesizer platform host t runtime profile with
          | error e =>
              rw [show inspectNative platform host report t profile =
                notLoadable report "loadable" "loadable" "not-loadable" by
                simp only [inspectNative, hload, hrecognizer, hsynthesizer]]
              have hverdict : (notLoadable report "loadable" "loadable" "not-loadable").verdict =
                  some "speech synthesis model is not loadable" := by
                simp [EngineInspection.verdict, notLoadable, hreport]
              refine foretold_error hverdict rfl ?_
              rw [VoiceEngines.start, hload]
              simp only [mapErr, Except.mapError, bind, Except.bind, hrecognizer, hsynthesizer]
          | ok synthesizer =>
              have hinspect : inspectNative platform host report t profile =
                  ⟨"ready", report, "loadable", "loadable", "loadable", false⟩ := by
                simp only [inspectNative, hload, hrecognizer, hsynthesizer]
              have hverdict : (inspectNative platform host report t profile).verdict = none := by
                simp [hinspect, EngineInspection.verdict, hreport]
              obtain ⟨stt, hstt, hsttLimits⟩ := withBackend_stt recognizer host.reached hc
              obtain ⟨tts, htts, httsLimits⟩ := withBackend_tts (Tts.nativeBackend synthesizer) hc
              rw [Foretold, hverdict]
              refine ⟨by rw [hinspect]; rfl, ⟨stt, tts⟩, ?_, hsttLimits, httsLimits⟩
              rw [VoiceEngines.start, hload]
              simp only [mapErr, Except.mapError, bind, Except.bind, pure, Except.pure, hrecognizer,
                hsynthesizer, hstt, htts]

theorem gives_openStore (hclient : host.client = true) (m : Machine) :
    Gives (openStore host) m () := by
  rw [openStore, if_pos hclient]
  exact gives_pure () m

theorem gives_failIf {c : Prop} [Decidable c] {e : LoadStop} (h : ¬ c) (m : Machine) :
    Gives (failIf c e) m () := by
  rw [failIf, if_neg h]
  exact gives_pure () m

/-- What an inspection says is what a load comes to, in the same words. -/
def Agrees (platform : Platform) (env : Environment) (lib : Libraries) (host : NativeHost)
    (root : List Component) (manifest : CuratedManifest) (maxConcurrent : Nat) (m : Machine)
    (inspection : EngineInspection) : Prop :=
  match inspection.verdict with
  | none => inspection.isReady = true ∧
      ∃ engines,
        Gives (VoiceEngines.load platform env lib host root manifest maxConcurrent) m engines ∧
        engines.Bounded maxConcurrent
  | some message =>
      inspection.isReady = false ∧
        Refuses (VoiceEngines.load platform env lib host root manifest maxConcurrent) m message

theorem agrees_of_permitted (h : Permitted env) (haccepted : Accepted platform manifest)
    (hclient : host.client = true) {maxConcurrent : Nat} (hc : maxConcurrent ≠ 0) (m : Machine) :
    ∃ inspection, Gives (inspectEngines platform env lib host root manifest) m inspection ∧
    ∀ l, Agrees platform env lib host root manifest maxConcurrent (m.at l) inspection := by
  have hstatus (k : Nat) :
      Gives (attempt (status platform env lib root manifest)) (m.at k)
      (some (reportOf platform lib root manifest m.tree)) :=
    gives_attempt (shows_status h haccepted (m.at k))
  have hopen (k : Nat) := gives_openStore hclient (m.at k)
  by_cases hready : Ready platform lib root manifest m.tree
  · have hreport := reportOf_ready.mpr hready
    obtain ⟨profile, hprofile⟩ := verifiedProfile_shown h haccepted hready
    refine ⟨inspectNative platform host (reportOf platform lib root manifest m.tree) m.tree profile,
      ?_, ?_⟩
    · refine (gives_openStore hclient m).bind fun k => (hstatus k).bind fun l => ?_
      simp only
      rw [if_neg (not_not.mpr hreport)]
      exact (hprofile ((m.at k).at l) rfl).bind fun _ => (gives_gets _ _).bind fun _ =>
        gives_pure _ _
    · have hforetold := @foretold platform host _ hreport m.tree profile maxConcurrent hc
      rw [Foretold] at hforetold
      intro n
      rw [Agrees]
      cases hverdict :
        (inspectNative platform host (reportOf platform lib root manifest m.tree) m.tree
        profile).verdict with
      | none =>
          rw [hverdict] at hforetold
          obtain ⟨hisReady, engines, hstart, hbounded⟩ := hforetold
          refine ⟨hisReady, engines, ?_, hbounded⟩
          refine (gives_failIf hc _).bind fun k => (hopen _).bind fun l =>
            (hprofile ((m.at k).at l) rfl).bind fun _ =>
            (gives_gets _ _).bind fun _ => ?_
          simp only [Machine.at_tree, hstart]
          exact gives_pure _ _
      | some message =>
          rw [hverdict] at hforetold
          obtain ⟨hnotReady, hstart⟩ := hforetold
          refine ⟨hnotReady, ?_⟩
          refine (gives_failIf hc _).refuses fun k => (hopen _).refuses fun l =>
            (hprofile ((m.at k).at l) rfl).refuses fun _ =>
            (gives_gets _ _).refuses fun _ => ?_
          simp only [Machine.at_tree, hstart]
          exact refuses_raise _ _
  · have hreport : (reportOf platform lib root manifest m.tree).status ≠ "ready" :=
      fun h => hready (reportOf_ready.mp h)
    refine ⟨⟨"not-ready", reportOf platform lib root manifest m.tree, "not-checked", "not-checked",
      "not-checked", false⟩, ?_, ?_⟩
    · refine (gives_openStore hclient m).bind fun k => (hstatus k).bind fun l => ?_
      simp only
      rw [if_pos hreport]
      exact gives_pure _ _
    · intro n
      rw [Agrees, EngineInspection.verdict, if_pos hreport]
      refine ⟨rfl, (gives_failIf hc _).refuses fun k => (hopen _).refuses fun l => ?_⟩
      have hrefused :=
        @verifiedProfile_refused platform env lib root manifest ((m.at k).at l) h haccepted hready
      exact hrefused.refuses fun _ => refuses_raise _ _

/-- Neither an inspection nor a load ever changes the store or asks the network,
whatever fails; and while requests get through, for every content of the store and
every native library, the inspection foretells the load. -/
theorem inspection_foretells_loading (platform : Platform) (env : Environment) (lib : Libraries)
    (host : NativeHost) (root : List Component) (manifest : CuratedManifest) (maxConcurrent : Nat) :
    Reads (inspectEngines platform env lib host root manifest) ∧
    Reads (VoiceEngines.load platform env lib host root manifest maxConcurrent) ∧
    (Permitted env → Accepted platform manifest → host.client = true → maxConcurrent ≠ 0 →
      ∀ m, ∃ inspection, Gives (inspectEngines platform env lib host root manifest) m inspection ∧
      ∀ l, Agrees platform env lib host root manifest maxConcurrent (m.at l) inspection) :=
  ⟨reads_inspectEngines, reads_load maxConcurrent,
    fun h haccepted hclient hc m => agrees_of_permitted h haccepted hclient hc m⟩

def willingHost : NativeHost :=
  { client := true
    sherpa := ⟨fun _ _ => true, fun _ _ => Native.symbols, fun _ _ => some Native.expectedVersion,
      fun _ _ _ _ => some fun _ _ => .ok "word",
        fun _ _ _ _ _ => some fun _ _ => .error ⟨"speech synthesis failed"⟩⟩
    reached := fun _ => true }

/-- The small store verifies, and has no native library. -/
theorem a_store_without_libraries_is_foretold :
    ∃ inspection,
      Gives
      (inspectEngines .linux (Artifacts.undisturbed none) smallLibraries willingHost smallRoot
      smallManifest) (.start blockedStore) inspection ∧
    ∀ l,
      Agrees .linux (Artifacts.undisturbed none) smallLibraries willingHost smallRoot smallManifest
      4 ((Machine.start blockedStore).at l) inspection :=
  (inspection_foretells_loading .linux (Artifacts.undisturbed none) smallLibraries willingHost
    smallRoot smallManifest 4).2.2
    (permitted_undisturbed none) accepted_smallManifest rfl (by decide) (.start blockedStore)

end ImpossibleVoice.Server

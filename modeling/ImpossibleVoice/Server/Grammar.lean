import ImpossibleVoice.Lib.Words
import ImpossibleVoice.Server.WebSocket

namespace ImpossibleVoice.Server

open Lib
open Stt (Transcript TranscriptKind)
open Tts (Synthesis)

/-- A data event: a JSON event by its kind, or a binary chunk. -/
inductive Datum
  | event (kind : EventKind)
  | chunk
deriving DecidableEq

def Frame.datum : Frame → Option Datum
  | text event => some (.event event.kind)
  | binary _ => some .chunk
  | pong _ => none

def dataEvents (frames : List Frame) : List Datum := frames.filterMap Frame.datum

@[simp] theorem dataEvents_append (front back : List Frame) :
    dataEvents (front ++ back) = dataEvents front ++ dataEvents back := List.filterMap_append

@[simp] theorem dataEvents_text (event : ServerEvent) :
    dataEvents [.text event] = [.event event.kind] :=
  rfl

@[simp] theorem dataEvents_pong (payload : List UInt8) : dataEvents [.pong payload] = [] := rfl

theorem dataEvents_binary (pieces : List (List UInt8)) :
    dataEvents (pieces.map .binary) = List.replicate pieces.length .chunk := by
  induction pieces with
  | nil => rfl
  | cons piece pieces ih =>
      rw [List.map_cons, List.length_cons, List.replicate_succ, ← ih]
      rfl

namespace Grammar

def Pong (d : Datum) : Prop := d = .event .pong

def Mixed (d : Datum) : Prop :=
  d = .event .pong ∨ d = .event .transcriptInterim ∨ d = .event .transcriptFinal

def Chunk (d : Datum) : Prop := d = .chunk

def pongs : Language Datum := madeOf Pong

variable (finals : TranscriptKind → Prop)

def completion : Language Datum :=
  {w | ∃ kind, finals kind ∧ w = [.event (transcriptKind kind), .event .sessionCompleted]}

def sttEvents : Language Datum := madeOf Mixed * (1 + completion finals * pongs)

def openSpeech : Language Datum := word [.event .speechMetadata] * madeOf Chunk

def completedSpeech : Language Datum :=
  word [.event .speechMetadata] * (word [.chunk] * madeOf Chunk) * word [.event .speechCompleted] *
    pongs

def ttsEvents : Language Datum := pongs * (1 + completedSpeech)

def running : Language Datum :=
  pongs * (1 + word [.event .sessionReady] * (sttEvents finals + ttsEvents))

def last : Language Datum := word [.event .error] + word [.event .cancelled]

def sessions : Language Datum := running finals * (1 + last)

/-- A session that was cut off while it waited to send: also within its speech. -/
def cut : Language Datum :=
  sessions finals + pongs * word [.event .sessionReady] * pongs * openSpeech

def stage : Option SessionMode → Bool → Language Datum
  | none, _ => pongs
  | some .stt, false => pongs * word [.event .sessionReady] * madeOf Mixed
  | some .stt, true =>
      pongs * word [.event .sessionReady] * madeOf Mixed * (completion finals * pongs)
  | some .tts, false => pongs * word [.event .sessionReady] * pongs
  | some .tts, true => pongs * word [.event .sessionReady] * pongs * completedSpeech

variable {finals : TranscriptKind → Prop}

theorem started_le_running {l : Language Datum} (h : l ≤ sttEvents finals + ttsEvents) :
    pongs * word [.event .sessionReady] * l ≤ running finals := by
  rw [mul_assoc]
  exact (mul_le_mul_right (mul_le_mul_right h _) _).trans (mul_le_mul_one_add _ _)

theorem stage_le_running (mode : Option SessionMode) (completed : Bool) :
    stage finals mode completed ≤ running finals := by
  have hstt {l : Language Datum} (h : l ≤ sttEvents finals) :
      pongs * word [.event .sessionReady] * l ≤ running finals :=
    started_le_running (h.trans fun _ hw => Or.inl hw)
  have htts {l : Language Datum} (h : l ≤ ttsEvents) :
      pongs * word [.event .sessionReady] * l ≤ running finals :=
    started_le_running (h.trans fun _ hw => Or.inr hw)
  match mode, completed with
  | none, _ => exact le_mul_one_add _ _
  | some .stt, false => exact hstt (le_mul_one_add _ _)
  | some .stt, true =>
      rw [stage, mul_assoc (pongs * _)]
      exact hstt (mul_le_mul_one_add _ _)
  | some .tts, false => exact htts (le_mul_one_add _ _)
  | some .tts, true =>
      rw [stage, mul_assoc (pongs * _)]
      exact htts (mul_le_mul_one_add _ _)

theorem running_le_sessions : running finals ≤ sessions finals := le_mul_one_add _ _

theorem sessions_le_cut : sessions finals ≤ cut finals := fun _ h => Or.inl h

theorem stage_le_cut (mode : Option SessionMode) (completed : Bool) :
    stage finals mode completed ≤ cut finals :=
  (stage_le_running mode completed).trans (running_le_sessions.trans sessions_le_cut)

theorem snoc_last_mem_sessions {w : List Datum} (h : w ∈ running finals) {d : Datum}
    (hd : d = .event .error ∨ d = .event .cancelled) : w ++ [d] ∈ sessions finals := by
  refine mul_le_mul_one_add _ _ (Language.append_mem_mul h ?_)
  rcases hd with rfl | rfl
  · exact Or.inl rfl
  · exact Or.inr rfl

theorem completion_le_madeOf {p : Datum → Prop} (hkind : ∀ kind, p (.event (transcriptKind kind)))
    (hcompleted : p (.event .sessionCompleted)) : completion finals ≤ madeOf p := by
  rintro _ ⟨kind, _, rfl⟩ d hd
  rcases List.mem_cons.mp hd with rfl | hd
  · exact hkind kind
  · rw [List.mem_singleton.mp hd]
    exact hcompleted

theorem running_le_madeOf :
    running finals ≤ madeOf fun d => d ≠ .event .error ∧ d ≠ .event .cancelled := by
  have hpongs : pongs ≤ madeOf fun d => d ≠ .event .error ∧ d ≠ .event .cancelled :=
    madeOf_mono (by rintro _ rfl; simp)
  have hmixed : madeOf Mixed ≤ madeOf fun d => d ≠ .event .error ∧ d ≠ .event .cancelled :=
    madeOf_mono (by rintro _ (rfl | rfl | rfl) <;> simp)
  have hchunks : madeOf Chunk ≤ madeOf fun d => d ≠ .event .error ∧ d ≠ .event .cancelled :=
    madeOf_mono (by rintro _ rfl; simp)
  have hone := one_le_madeOf fun d : Datum => d ≠ .event .error ∧ d ≠ .event .cancelled
  refine mul_le_madeOf hpongs
    (sup_le hone (mul_le_madeOf (word_le_madeOf (by simp)) (sup_le ?_ ?_)))
  · refine mul_le_madeOf hmixed
      (sup_le hone (mul_le_madeOf (completion_le_madeOf ?_ (by simp)) hpongs))
    intro kind
    cases kind <;> simp [transcriptKind]
  · refine mul_le_madeOf hpongs
      (sup_le hone (mul_le_madeOf (mul_le_madeOf ?_ (word_le_madeOf (by simp))) hpongs))
    exact mul_le_madeOf (word_le_madeOf (by simp))
      (mul_le_madeOf (word_le_madeOf (by simp)) hchunks)

/-- A session that was completed has sent a transcript that `finish` may return. -/
theorem sessions_le_needing :
    sessions finals ≤ needing (.event .sessionCompleted) fun d => ∃ kind, finals kind ∧
    d = .event (transcriptKind kind) := by
  have hover {l : Language Datum} (h : l ≤ madeOf fun d => d ≠ .event .sessionCompleted) :
      l ≤ needing (.event .sessionCompleted) fun d => ∃ kind, finals kind ∧
        d = .event (transcriptKind kind) :=
    h.trans (madeOf_le_needing (by simp) _)
  have hone := one_le_madeOf fun d : Datum => d ≠ .event .sessionCompleted
  have hpongs : pongs ≤ madeOf fun d => d ≠ .event .sessionCompleted :=
    madeOf_mono (by rintro _ rfl; simp)
  have hmixed : madeOf Mixed ≤ madeOf fun d => d ≠ .event .sessionCompleted :=
    madeOf_mono (by rintro _ (rfl | rfl | rfl) <;> simp)
  have hchunks : madeOf Chunk ≤ madeOf fun d => d ≠ .event .sessionCompleted :=
    madeOf_mono (by rintro _ rfl; simp)
  have hlast : last ≤ madeOf fun d => d ≠ .event .sessionCompleted :=
    sup_le (word_le_madeOf (by simp)) (word_le_madeOf (by simp))
  have htts : ttsEvents ≤ madeOf fun d => d ≠ .event .sessionCompleted := by
    refine mul_le_madeOf hpongs
      (sup_le hone (mul_le_madeOf (mul_le_madeOf ?_ (word_le_madeOf (by simp))) hpongs))
    exact mul_le_madeOf (word_le_madeOf (by simp))
      (mul_le_madeOf (word_le_madeOf (by simp)) hchunks)
  refine mul_le_needing (mul_le_needing (hover hpongs) (sup_le (hover hone) ?_))
    (hover (sup_le hone hlast))
  refine mul_le_needing (hover (word_le_madeOf (by simp))) (sup_le ?_ (hover htts))
  refine mul_le_needing (hover hmixed) (sup_le (hover hone) (mul_le_needing ?_ (hover hpongs)))
  rintro _ ⟨kind, hkind, rfl⟩ _
  exact ⟨_, List.mem_cons_self, kind, hkind, rfl⟩

theorem stage_pong {mode : Option SessionMode} {completed : Bool} {w : List Datum}
    (h : w ∈ stage finals mode completed) : w ++ [.event .pong] ∈ stage finals mode completed := by
  match mode, completed with
  | none, _ => exact snoc_mem_madeOf h rfl
  | some .stt, false => exact snoc_mem_mul_madeOf h (Or.inl rfl)
  | some .tts, false => exact snoc_mem_mul_madeOf h rfl
  | some .stt, true =>
      rw [stage, ← mul_assoc] at h ⊢
      exact snoc_mem_mul_madeOf h rfl
  | some .tts, true =>
      rw [stage, completedSpeech, ← mul_assoc] at h ⊢
      exact snoc_mem_mul_madeOf h rfl

theorem stage_ready {completed : Bool} {w : List Datum} (h : w ∈ stage finals none completed)
    (mode : SessionMode) : w ++ [.event .sessionReady] ∈ stage finals (some mode) false := by
  have hready := append_mem_mul_word h [Datum.event .sessionReady]
  cases mode with
  | stt => exact mem_mul_madeOf Mixed hready
  | tts => exact mem_mul_madeOf Pong hready

theorem stage_transcripts {w v : List Datum} (h : w ∈ stage finals (some .stt) false)
    (hv : ∀ d ∈ v, Mixed d) : w ++ v ∈ stage finals (some .stt) false :=
  append_mem_mul_madeOf h hv

theorem stage_completed {w : List Datum} (h : w ∈ stage finals (some .stt) false)
    {kind : TranscriptKind} (hkind : finals kind) :
    w ++ [.event (transcriptKind kind)] ++ [.event .sessionCompleted] ∈
      stage finals (some .stt) true := by
  rw [List.append_assoc]
  exact Language.append_mem_mul h (mem_mul_madeOf Pong ⟨kind, hkind, rfl⟩)

theorem stage_metadata {w : List Datum} (h : w ∈ stage finals (some .tts) false) (n : Nat) :
    w ++ [.event .speechMetadata] ++ List.replicate n .chunk ∈ cut finals := by
  rw [List.append_assoc]
  refine Or.inr (Language.append_mem_mul h (Language.append_mem_mul rfl ?_))
  exact fun d hd => List.eq_of_mem_replicate hd

theorem stage_spoken {w : List Datum} (h : w ∈ stage finals (some .tts) false) (n : Nat) :
    w ++ [.event .speechMetadata] ++ List.replicate (n + 1) .chunk ++ [.event .speechCompleted] ∈
      stage finals (some .tts) true := by
  have hmetadata : [Datum.event .speechMetadata] ∈ word [Datum.event .speechMetadata] := rfl
  have hfirst : [Datum.chunk] ∈ word [Datum.chunk] := rfl
  have hrest : List.replicate n Datum.chunk ∈ madeOf Chunk :=
    fun d hd => List.eq_of_mem_replicate hd
  have hblock := Language.append_mem_mul hmetadata (Language.append_mem_mul hfirst hrest)
  rw [List.append_assoc, List.append_assoc, ← List.append_assoc [_]]
  exact Language.append_mem_mul h (mem_mul_madeOf Pong (append_mem_mul_word hblock _))

end Grammar

end ImpossibleVoice.Server

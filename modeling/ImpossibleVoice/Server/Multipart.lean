import ImpossibleVoice.Audio.Wav
import ImpossibleVoice.Lib.Chars
import ImpossibleVoice.Server.WebSocket
import Mathlib.Data.List.Perm.Basic

namespace ImpossibleVoice.Server

open Lib Audio

structure Field where
  name : String
  contentType : Option String
  bytes : List UInt8
deriving DecidableEq

/-- `str::parse::<u32>`. -/
def parseU32 (text : List Char) : Option Nat :=
  let digits := if text.head? = some '+' then text.tail else text
  if digits = [] ∨ ¬ digits.all Char.isDigit then none
  else tryNarrow 32 (digits.foldl (fun n c => 10 * n + (c.toNat - 48)) 0)

def fromUtf8 (bytes : List UInt8) : Option (List Char) :=
  (String.fromUTF8? ⟨bytes.toArray⟩).map String.toList

/-- `split_once`. -/
def splitOnce (separator : Char) (text : List Char) : Option (List Char × List Char) :=
  if separator ∈ text then
    some (text.takeWhile (fun c => c ≠ separator), (text.dropWhile fun c => c ≠ separator).tail)
  else none

def asciiLower (text : List Char) : List Char := text.map Char.toLower

def mediaType (contentType : String) : List Char :=
  asciiLower (trim ((contentType.toList.splitOn ';').headD []))

/-- The `rate` parameter of a content type. -/
def rateParameter (parameter : List Char) : Option Nat :=
  match splitOnce '=' (trim parameter) with
  | some (key, value) => if asciiLower key = "rate".toList then parseU32 (trim value) else none
  | none => none

def parameterRate (contentType : String) : Option Nat :=
  (contentType.toList.splitOn ';').tail.findSome? rateParameter

def IsWav (contentType : String) : Prop :=
  mediaType contentType = "audio/wav".toList ∨ mediaType contentType = "audio/x-wav".toList

def IsRawPcm (contentType : String) : Prop :=
  mediaType contentType = "audio/pcm".toList ∨ mediaType contentType = "audio/l16".toList

instance (contentType : String) : Decidable (IsWav contentType) :=
  inferInstanceAs (Decidable (_ ∨ _))

instance (contentType : String) : Decidable (IsRawPcm contentType) :=
  inferInstanceAs (Decidable (_ ∨ _))

def invalidAudio (message : String) (result : Except AudioError MonoPcm) :
    Except ApiError MonoPcm :=
  result.mapError fun _ => .invalid message

def decodeAudio (contentType : String) (explicitRate : Option Nat) (bytes : List UInt8) :
    Except ApiError MonoPcm :=
  if IsWav contentType then
    if explicitRate ≠ none then .error (.invalid "WAV sample rate is embedded in the file")
    else invalidAudio "WAV audio is invalid" (MonoPcm.fromWav bytes .default)
  else if IsRawPcm contentType then
    match explicitRate.or (parameterRate contentType) with
    | none => .error (.invalid "raw PCM sample rate is required")
    | some rate =>
        invalidAudio "raw PCM16 audio is invalid" (MonoPcm.fromPcm16Le bytes rate .default)
  else .error (.invalid "audio content type is unsupported")

def maxMultipartFieldBytes : Nat := 64 * 1024

structure Parts where
  audio : Option (Option String × List UInt8)
  sampleRate : Option Nat
deriving DecidableEq

def parseRate (bytes : List UInt8) : Option Nat := (fromUtf8 bytes).bind parseU32

def takeField (parts : Parts) (field : Field) : Except ApiError Parts :=
  if field.name = "file" ∧ parts.audio = none then
    .ok { parts with audio := some (field.contentType, field.bytes) }
  else if field.name = "sample_rate" ∧ field.bytes.length ≤ 16 then
    match parseRate field.bytes with
    | some rate => .ok { parts with sampleRate := some rate }
    | none => .error (.invalid "sample_rate is malformed")
  else if field.name = "model" ∧ field.bytes.length ≤ maxMultipartFieldBytes then .ok parts
  else .error (.invalid "multipart field is unsupported or duplicated")

def takeFields : Parts → List Field → Except ApiError Parts
  | parts, [] => .ok parts
  | parts, field :: fields => (takeField parts field).bind fun parts => takeFields parts fields

/-- The decoding part of `openai_transcription`. -/
def decodeFields (fields : List Field) : Except ApiError MonoPcm :=
  (takeFields ⟨none, none⟩ fields).bind fun parts =>
    match parts.audio with
    | none => .error (.invalid "file is required")
    | some (contentType, bytes) =>
      decodeAudio (contentType.getD "application/octet-stream") parts.sampleRate bytes

/-- A field that the loop takes, if it is the first of its kind. -/
def Acceptable (field : Field) : Prop :=
  field.name = "file" ∨
    (field.name = "sample_rate" ∧ field.bytes.length ≤ 16 ∧ parseRate field.bytes ≠ none) ∨
    (field.name = "model" ∧ field.bytes.length ≤ maxMultipartFieldBytes)

def file (field : Field) : Option (Option String × List UInt8) :=
  if field.name = "file" then some (field.contentType, field.bytes) else none

def rate (field : Field) : Option Nat :=
  if field.name = "sample_rate" then parseRate field.bytes else none

theorem toList_inj {α : Type} {a b : Option α} : a.toList = b.toList ↔ a = b := by
  cases a <;> cases b <;> simp

theorem takeField_file {parts next : Parts} {field : Field} (hname : field.name = "file") :
    takeField parts field = .ok next ↔
      parts.audio.toList ++ [(field.contentType, field.bytes)] = next.audio.toList ∧
        next.sampleRate = parts.sampleRate := by
  obtain ⟨audio, sampleRate⟩ := parts
  obtain ⟨audio', sampleRate'⟩ := next
  cases audio with
  | none =>
      rw [takeField, if_pos ⟨hname, rfl⟩]
      cases audio' with
      | none => simp
      | some taken => simp [eq_comm]
  | some taken =>
      rw [takeField, if_neg (by simp), if_neg (by rw [hname]; simp), if_neg (by rw [hname]; simp)]
      cases audio' <;> simp

theorem takeField_rate {parts next : Parts} {field : Field} (hname : field.name = "sample_rate") :
    takeField parts field = .ok next ↔ field.bytes.length ≤ 16 ∧ parseRate field.bytes ≠ none ∧
      parts.audio = next.audio ∧ next.sampleRate = (parseRate field.bytes).or parts.sampleRate := by
  rw [takeField, if_neg (by rw [hname]; simp)]
  by_cases hlength : field.bytes.length ≤ 16
  · rw [if_pos ⟨hname, hlength⟩]
    cases parseRate field.bytes with
    | none => simp
    | some rate =>
        obtain ⟨audio', sampleRate'⟩ := next
        simp [hlength, eq_comm]
  · rw [if_neg (fun h => hlength h.2), if_neg (by rw [hname]; simp)]
    simp [hlength]

theorem takeField_eq_ok {parts next : Parts} {field : Field} : takeField parts field = .ok next ↔
    Acceptable field ∧ parts.audio.toList ++ (file field).toList = next.audio.toList ∧
      next.sampleRate = (rate field).or parts.sampleRate := by
  by_cases hfile : field.name = "file"
  · rw [takeField_file hfile, file, if_pos hfile, rate, if_neg (by rw [hfile]; decide)]
    exact ⟨fun h => ⟨.inl hfile, h⟩, fun h => h.2⟩
  by_cases hrate : field.name = "sample_rate"
  · rw [takeField_rate hrate, file, if_neg hfile, rate, if_pos hrate, Option.toList_none,
      List.append_nil, toList_inj]
    constructor
    · rintro ⟨hlength, hparse, hrest⟩
      exact ⟨.inr (.inl ⟨hrate, hlength, hparse⟩), hrest⟩
    · rintro ⟨hname | ⟨-, hlength, hparse⟩ | ⟨hname, -⟩, hrest⟩
      · exact absurd hname hfile
      · exact ⟨hlength, hparse, hrest⟩
      · rw [hrate] at hname
        exact absurd hname (by decide)
  · have hmodel : Acceptable field ↔
        field.name = "model" ∧ field.bytes.length ≤ maxMultipartFieldBytes :=
      ⟨fun h => (h.resolve_left hfile).resolve_left fun h => hrate h.1, fun h => .inr (.inr h)⟩
    rw [takeField, if_neg (fun h => hfile h.1), if_neg (fun h => hrate h.1), hmodel, file,
      if_neg hfile, rate, if_neg hrate, Option.toList_none, List.append_nil, toList_inj]
    split
    case isTrue h =>
      obtain ⟨audio, sampleRate⟩ := parts
      obtain ⟨audio', sampleRate'⟩ := next
      simp [h, eq_comm]
    case isFalse h => simp [h]

def files (fields : List Field) : List (Option String × List UInt8) := fields.filterMap file

def rates (fields : List Field) : List Nat := fields.filterMap rate

/-- The loop as a whole: the last rate wins. -/
theorem takeFields_eq_ok {parts next : Parts} {fields : List Field} :
    takeFields parts fields = .ok next ↔
      (∀ field ∈ fields, Acceptable field) ∧
    parts.audio.toList ++ files fields = next.audio.toList ∧
    next.sampleRate = (rates fields).getLast?.or parts.sampleRate := by
  induction fields generalizing parts with
  | nil =>
      obtain ⟨audio, sampleRate⟩ := parts
      obtain ⟨audio', sampleRate'⟩ := next
      simp [takeFields, files, rates, toList_inj, eq_comm]
  | cons field fields ih =>
      have hfiles : files (field :: fields) = (file field).toList ++ files fields := by
        rw [files, List.filterMap_cons]
        cases file field <;> rfl
      have hrates (last : Option Nat) : (rates (field :: fields)).getLast?.or last =
          (rates fields).getLast?.or ((rate field).or last) := by
        rw [rates, List.filterMap_cons]
        cases rate field with
        | none => rfl
        | some value =>
            rw [List.getLast?_cons]
            cases h : (List.filterMap rate fields).getLast? <;> simp [rates, h]
      rw [takeFields, hfiles, hrates, List.forall_mem_cons]
      constructor
      · intro h
        cases htake : takeField parts field with
        | error e => rw [htake] at h; cases h
        | ok mid =>
            rw [htake] at h
            obtain ⟨hall, haudio, hrate⟩ := ih.mp h
            obtain ⟨hok, haudio', hrate'⟩ := takeField_eq_ok.mp htake
            exact ⟨⟨hok, hall⟩, by rw [← List.append_assoc, haudio', haudio], by rw [hrate, hrate']⟩
      · rintro ⟨⟨hok, hall⟩, haudio, hrate⟩
        rw [← List.append_assoc] at haudio
        obtain ⟨mid, hmid⟩ : ∃ mid : Option (Option String × List UInt8),
            parts.audio.toList ++ (file field).toList = mid.toList := by
          cases haudio' : parts.audio.toList ++ (file field).toList with
          | nil => exact ⟨none, rfl⟩
          | cons first rest =>
              cases rest with
              | nil => exact ⟨some first, rfl⟩
              | cons second rest =>
                  rw [haudio'] at haudio
                  cases hnext : next.audio <;> rw [hnext] at haudio <;> simp at haudio
        have htake : takeField parts field = .ok ⟨mid, (rate field).or parts.sampleRate⟩ :=
          takeField_eq_ok.mpr ⟨hok, hmid, rfl⟩
        rw [htake]
        exact ih.mpr ⟨hall, by rw [← hmid, haudio], hrate⟩

theorem decodeFields_eq_ok {fields : List Field} {m : MonoPcm} :
    decodeFields fields = .ok m ↔
      (∀ field ∈ fields, Acceptable field) ∧
    ∃ contentType bytes, files fields = [(contentType, bytes)] ∧
    decodeAudio (contentType.getD "application/octet-stream") (rates fields).getLast? bytes =
      .ok m := by
  rw [decodeFields]
  constructor
  · intro h
    cases htake : takeFields ⟨none, none⟩ fields with
    | error e => rw [htake] at h; cases h
    | ok parts =>
        obtain ⟨hall, haudio, hrate⟩ := takeFields_eq_ok.mp htake
        rw [htake] at h
        obtain ⟨audio, sampleRate⟩ := parts
        cases audio with
        | none => cases h
        | some audio =>
            rw [Option.or_none] at hrate
            exact ⟨hall, audio.1, audio.2, haudio, by rw [← hrate]; exact h⟩
  · rintro ⟨hall, contentType, bytes, hfiles, hdecode⟩
    have htake : takeFields ⟨none, none⟩ fields =
        .ok ⟨some (contentType, bytes), (rates fields).getLast?⟩ :=
      takeFields_eq_ok.mpr ⟨hall, hfiles, Option.or_none.symm⟩
    rw [htake]
    exact hdecode

theorem decodeAudio_explicit {contentType : String} {rate : Nat} {bytes : List UInt8}
    {m : MonoPcm} :
    decodeAudio contentType (some rate) bytes = .ok m ↔
      IsRawPcm contentType ∧ MonoPcm.fromPcm16Le bytes rate .default = .ok m := by
  have hdistinct : IsRawPcm contentType → ¬ IsWav contentType := by
    rintro (h | h) (h' | h') <;> exact absurd (h.symm.trans h') (by decide)
  rw [decodeAudio]
  by_cases hwav : IsWav contentType
  · rw [if_pos hwav, if_pos (by simp)]
    exact ⟨fun h => (by cases h), fun h => absurd hwav (hdistinct h.1)⟩
  · rw [if_neg hwav]
    by_cases hraw : IsRawPcm contentType
    · rw [if_pos hraw]
      change invalidAudio _ (MonoPcm.fromPcm16Le bytes rate .default) = .ok m ↔ _
      cases MonoPcm.fromPcm16Le bytes rate .default with
      | ok pcm => simp [invalidAudio, Except.mapError, hraw]
      | error e => simp [invalidAudio, Except.mapError]
    · rw [if_neg hraw]
      exact ⟨fun h => (by cases h), fun h => absurd h.1 hraw⟩

def Named (name : String) (field : Field) : Bool := field.name = name

theorem files_length (fields : List Field) :
    (files fields).length = (fields.filter (Named "file")).length := by
  induction fields with
  | nil => rfl
  | cons field fields ih =>
      rw [files, List.filterMap_cons, file]
      by_cases h : field.name = "file"
      · rw [if_pos h, List.filter_cons_of_pos (p := Named "file") (decide_eq_true h)]
        exact congrArg (· + 1) ih
      · rw [if_neg h, List.filter_cons_of_neg (by simpa [Named] using h)]
        exact ih

theorem rates_length {fields : List Field} (hall : ∀ field ∈ fields, Acceptable field) :
    (rates fields).length = (fields.filter (Named "sample_rate")).length := by
  induction fields with
  | nil => rfl
  | cons field fields ih =>
      have ih := ih fun other hmem => hall other (List.mem_cons_of_mem _ hmem)
      rw [rates, List.filterMap_cons, rate]
      by_cases h : field.name = "sample_rate"
      · have hparse : parseRate field.bytes ≠ none := by
          obtain hname | ⟨-, -, hparse⟩ | ⟨hname, -⟩ := hall field List.mem_cons_self
          · rw [h] at hname
            exact absurd hname (by decide)
          · exact hparse
          · rw [h] at hname
            exact absurd hname (by decide)
        obtain ⟨value, hvalue⟩ := Option.ne_none_iff_exists'.mp hparse
        rw [if_pos h, hvalue, List.filter_cons_of_pos (p := Named "sample_rate") (decide_eq_true h)]
        exact congrArg (· + 1) ih
      · rw [if_neg h, List.filter_cons_of_neg (by simpa [Named] using h)]
        exact ih

def OrderFree (fields : List Field) : Prop :=
  ∀ other, fields.Perm other → ∀ m, decodeFields fields = .ok m ↔ decodeFields other = .ok m

def Unrepeated (fields : List Field) : Prop :=
  2 ≤ (fields.filter (Named "file")).length ∨ 2 ≤ (fields.filter (Named "sample_rate")).length →
    ∀ m, decodeFields fields ≠ .ok m

/-- All fields would be taken, one of them is a raw recording, several are rates,
and with one of these the recording can be decoded. -/
def Overwritten (fields : List Field) : Prop :=
  (∀ field ∈ fields, Acceptable field) ∧ 2 ≤ (fields.filter (Named "sample_rate")).length ∧
    ∃ contentType bytes, files fields = [(contentType, bytes)] ∧
      IsRawPcm (contentType.getD "application/octet-stream") ∧
      ∃ rate ∈ rates fields, (MonoPcm.fromPcm16Le bytes rate .default).isOk = true

theorem Overwritten.perm {fields other : List Field} (hperm : fields.Perm other)
    (h : Overwritten fields) : Overwritten other := by
  obtain ⟨hall, htwo, contentType, bytes, hfiles, hraw, rate, hmem, hok⟩ := h
  have hfiles' : files other = [(contentType, bytes)] :=
    List.perm_singleton.mp
      ((hfiles ▸ (hperm.filterMap file).symm : (files other).Perm [(contentType, bytes)]))
  exact ⟨fun field hfield =>
    hall field (hperm.mem_iff.mpr hfield), by rw [← (hperm.filter _).length_eq]; exact htwo,
    contentType, bytes, hfiles', hraw, rate, (hperm.filterMap _).mem_iff.mp hmem, hok⟩

theorem Overwritten.accepts {fields : List Field} (h : Overwritten fields) :
    ∃ other m, fields.Perm other ∧ decodeFields other = .ok m := by
  obtain ⟨hall, htwo, contentType, bytes, hfiles, hraw, value, hmem, hok⟩ := h
  obtain ⟨field, hfield, hrate⟩ := List.mem_filterMap.mp hmem
  obtain ⟨front, back, rfl⟩ := List.append_of_mem hfield
  have hperm : (front ++ field :: back).Perm (front ++ back ++ [field]) := by
    rw [List.append_assoc]
    exact List.Perm.append_left front (List.perm_append_singleton field back).symm
  have hlast : (rates (front ++ back ++ [field])).getLast? = some value := by
    rw [rates, List.filterMap_append, List.filterMap_cons, hrate]
    exact List.getLast?_concat
  have hfiles' : files (front ++ back ++ [field]) = [(contentType, bytes)] :=
    List.perm_singleton.mp ((hfiles ▸ (hperm.filterMap file).symm :
      (files (front ++ back ++ [field])).Perm [(contentType, bytes)]))
  cases hdecode : MonoPcm.fromPcm16Le bytes value .default with
  | error e => rw [hdecode] at hok; cases hok
  | ok m =>
      exact ⟨_, m, hperm,
        decodeFields_eq_ok.mpr
        ⟨fun f hf => hall f (hperm.mem_iff.mpr hf), contentType, bytes, hfiles', by
        rw [hlast]
        exact decodeAudio_explicit.mpr ⟨hraw, hdecode⟩⟩⟩

/-- An accepted list with several rates is one whose rate was overwritten. -/
theorem overwritten_of_ok {fields : List Field} {m : MonoPcm} (h : decodeFields fields = .ok m)
    (htwo : 2 ≤ (fields.filter (Named "sample_rate")).length) : Overwritten fields := by
  obtain ⟨hall, contentType, bytes, hfiles, hdecode⟩ := decodeFields_eq_ok.mp h
  have hne : rates fields ≠ [] := by
    intro hnil
    have hlength := rates_length hall
    rw [hnil, List.length_nil] at hlength
    omega
  rw [List.getLast?_eq_some_getLast hne] at hdecode
  obtain ⟨hraw, hpcm⟩ := decodeAudio_explicit.mp hdecode
  exact ⟨hall, htwo, contentType, bytes, hfiles, hraw, (rates fields).getLast hne,
    List.getLast_mem hne, by rw [hpcm]; rfl⟩

theorem decodeFields_perm {fields other : List Field} (hfree : ¬ Overwritten fields)
    (hperm : fields.Perm other) {m : MonoPcm} (h : decodeFields fields = .ok m) :
    decodeFields other = .ok m := by
  have hone : (fields.filter (Named "sample_rate")).length ≤ 1 := by
    by_contra hmany
    exact hfree (overwritten_of_ok h (by omega))
  obtain ⟨hall, contentType, bytes, hfiles, hdecode⟩ := decodeFields_eq_ok.mp h
  have hfiles' : files other = [(contentType, bytes)] :=
    List.perm_singleton.mp
      ((hfiles ▸ (hperm.filterMap file).symm : (files other).Perm [(contentType, bytes)]))
  have hrates : rates other = rates fields := by
    have hrates : (rates other).Perm (rates fields) := (hperm.filterMap rate).symm
    rw [← rates_length hall] at hone
    cases hlist : rates fields with
    | nil => rw [hlist] at hrates; exact hrates.eq_nil
    | cons first rest =>
        cases rest with
        | nil => rw [hlist] at hrates; exact List.perm_singleton.mp hrates
        | cons second rest => rw [hlist] at hone; simp at hone
  exact decodeFields_eq_ok.mpr
    ⟨fun f hf => hall f (hperm.mem_iff.mpr hf), contentType, bytes, hfiles', by
    rw [hrates]
    exact hdecode⟩

/-- Decoding is independent of the order of the fields, and takes none twice,
exactly where no usable rate can be overwritten. -/
theorem fields_are_unordered_and_single_iff (fields : List Field) :
    (OrderFree fields ∧ Unrepeated fields) ↔ ¬ Overwritten fields := by
  constructor
  · rintro ⟨horder, hsingle⟩ h
    obtain ⟨other, m, hperm, hother⟩ := h.accepts
    exact hsingle (.inr h.2.1) m ((horder other hperm m).mpr hother)
  · intro hfree
    refine ⟨fun other hperm m => ⟨decodeFields_perm hfree hperm, ?_⟩, fun hrepeated m h => ?_⟩
    · exact decodeFields_perm (fun h => hfree (h.perm hperm.symm)) hperm.symm
    · obtain hfiles | hrates := hrepeated
      · obtain ⟨-, contentType, bytes, hone, -⟩ := decodeFields_eq_ok.mp h
        rw [← files_length, hone] at hfiles
        simp at hfiles
      · exact hfree (overwritten_of_ok h hrates)

def rateField (first : UInt8) : Field := ⟨"sample_rate", none, [first, 48, 48, 48]⟩

/-- Of two rates the last one counts: one order is accepted, the other refused. -/
theorem the_last_rate_wins :
    let fields := [⟨"file", some "audio/pcm", [0, 0]⟩, rateField 57, rateField 56]
    (decodeFields fields).isOk = true ∧
      (decodeFields [⟨"file", some "audio/pcm", [0, 0]⟩, rateField 56, rateField 57]).isOk = false ∧
      ¬ (OrderFree fields ∧ Unrepeated fields) := by
  intro fields
  have hok : (decodeFields fields).isOk = true := by decide +kernel
  refine ⟨hok, ?_, fun h => ?_⟩
  · decide +kernel
  · cases hdecode : decodeFields fields with
    | error e => rw [hdecode] at hok; cases hok
    | ok m => exact h.2 (.inr (by decide)) m hdecode

end ImpossibleVoice.Server

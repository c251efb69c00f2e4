import ImpossibleVoice.Audio.Pcm
import ImpossibleVoice.Lib.Effect
import ImpossibleVoice.Lib.Riff

namespace ImpossibleVoice.Audio

open Lib

def riffTag : List UInt8 := [82, 73, 70, 70]

def waveTag : List UInt8 := [87, 65, 86, 69]

def fmtTag : List UInt8 := [102, 109, 116, 32]

def dataTag : List UInt8 := [100, 97, 116, 97]

/-- The locals of the container scan, with the chunk headers counted and the
byte ranges read recorded. -/
structure WavScan where
  offset : Nat
  format : Option Nat
  data : Option (List UInt8)
  headers : Nat
  reads : List (Nat × Nat)

def WavScan.start : WavScan := ⟨12, none, none, 0, []⟩

abbrev ScanM := EStateM AudioError WavScan

/-- `&bytes[start..stop]`, recorded. -/
def slice (bytes : List UInt8) (start stop : Nat) : ScanM (List UInt8) := do
  modify fun scan => { scan with reads := scan.reads ++ [(start, stop)] }
  pure ((bytes.drop start).take (stop - start))

def readU32 (bytes : List UInt8) (offset : Nat) : ScanM Nat := do
  failIf (bytes.length < offset + 4) ⟨"WAV container is malformed"⟩
  let value ← slice bytes offset (offset + 4)
  pure (fromLe value)

def parseWaveFormat (bytes : List UInt8) : Except AudioError Nat :=
  if bytes.length < 16 then .error ⟨"WAV format chunk is malformed"⟩
  else do
    let format := leField bytes 0 2
    let channels := leField bytes 2 2
    let sampleRate := leField bytes 4 4
    let byteRate := leField bytes 8 4
    let blockAlign := leField bytes 12 2
    let bits := leField bytes 14 2
    validateRate sampleRate
    if format ≠ 1 ∨ channels ≠ 1 ∨ bits ≠ 16 ∨ blockAlign ≠ 2 ∨
      byteRate ≠ saturatingMul 32 sampleRate 2 then
      .error ⟨"WAV encoding must be mono PCM16"⟩
    else .ok sampleRate

/-- The first `fmt ` chunk and the first `data` chunk are kept, all else is
passed over. -/
def keepChunk (bytes id : List UInt8) (start stop : Nat) : ScanM Unit := do
  let scan ← get
  if id = fmtTag ∧ scan.format = none then do
    let payload ← slice bytes start stop
    let sampleRate ← fromExcept (parseWaveFormat payload)
    modify fun scan => { scan with format := some sampleRate }
  else if id = dataTag ∧ scan.data = none then do
    let payload ← slice bytes start stop
    modify fun scan => { scan with data := some payload }
  else pure ()

def scanChunk (bytes : List UInt8) : ScanM Unit := do
  let scan ← get
  let headerEnd ← fromExcept (okOr (checkedAdd 64 scan.offset 8) "WAV chunk is malformed")
  failIf (bytes.length < headerEnd) ⟨"WAV chunk is malformed"⟩
  modify fun scan => { scan with headers := scan.headers + 1 }
  let size ← readU32 bytes (scan.offset + 4)
  let stop ← fromExcept (okOr (checkedAdd 64 headerEnd size) "WAV chunk is malformed")
  failIf (bytes.length < stop) ⟨"WAV chunk is malformed"⟩
  let id ← slice bytes scan.offset (scan.offset + 4)
  keepChunk bytes id headerEnd stop
  let next ← fromExcept (okOr (checkedAdd 64 stop (size % 2)) "WAV chunk is malformed")
  modify fun scan => { scan with offset := next }

theorem run_checkedAdd_ok {σ : Type} {w a b n : Nat} {message : String} {s t : σ}
    (h : (fromExcept (okOr (checkedAdd w a b) message)).run s = .ok n t) : n = a + b ∧ s = t := by
  unfold checkedAdd at h
  split at h
  · cases h; exact ⟨rfl, rfl⟩
  · exact absurd h (by simp)

def absorb (kept : Option Nat × Option (List UInt8)) (id payload : List UInt8) :
    Except AudioError (Option Nat × Option (List UInt8)) :=
  if id = fmtTag ∧ kept.1 = none then
    (parseWaveFormat payload).map (fun rate => (some rate, kept.2))
  else if id = dataTag ∧ kept.2 = none then .ok (kept.1, some payload)
  else .ok kept

theorem run_keepChunk (bytes id : List UInt8) (start stop : Nat) (scan : WavScan) :
    ∃ reads, match absorb (scan.format, scan.data) id ((bytes.drop start).take (stop - start)) with
      | .ok kept => (keepChunk bytes id start stop).run scan =
          .ok () { scan with format := kept.1, data := kept.2, reads := reads }
      | .error e =>
          (keepChunk bytes id start stop).run scan = .error e { scan with reads := reads } := by
  by_cases hf : id = fmtTag ∧ scan.format = none
  · refine ⟨scan.reads ++ [(start, stop)], ?_⟩
    simp only [absorb, if_pos hf, keepChunk, EStateM.run_bind, EStateM.run_get, slice,
      EStateM.run_modify, EStateM.run_pure]
    cases parseWaveFormat ((bytes.drop start).take (stop - start)) <;> rfl
  · by_cases hd : id = dataTag ∧ scan.data = none
    · refine ⟨scan.reads ++ [(start, stop)], ?_⟩
      simp only [absorb, if_neg hf, if_pos hd, keepChunk, EStateM.run_bind, EStateM.run_get, slice,
        EStateM.run_modify, EStateM.run_pure]
    · refine ⟨scan.reads, ?_⟩
      simp only [absorb, if_neg hf, if_neg hd, keepChunk, EStateM.run_bind, EStateM.run_get,
        EStateM.run_pure]

def WavScan.reading (scan : WavScan) (start stop : Nat) : WavScan :=
  { scan with reads := scan.reads ++ [(start, stop)] }

theorem run_slice (bytes : List UInt8) (start stop : Nat) (scan : WavScan) :
    (slice bytes start stop).run scan =
      .ok ((bytes.drop start).take (stop - start)) (scan.reading start stop) :=
  rfl

theorem run_readU32 {bytes : List UInt8} {offset : Nat} (h : offset + 4 ≤ bytes.length)
    (scan : WavScan) :
    (readU32 bytes offset).run scan =
      .ok (leField bytes offset 4) (scan.reading offset (offset + 4)) := by
  simp only [readU32, EStateM.run_bind, run_failIf_neg (Nat.not_lt.mpr h), run_slice,
    EStateM.run_pure, Nat.add_sub_cancel_left, leField]

theorem run_scanChunk {bytes : List UInt8} (hlen : bytes.length < 2 ^ 63) (scan : WavScan)
    (hsize : scan.offset + 8 + leField bytes (scan.offset + 4) 4 ≤ bytes.length)
    {kept : Option Nat × Option (List UInt8)}
    (hkept : absorb (scan.format, scan.data) ((bytes.drop scan.offset).take 4)
      ((bytes.drop (scan.offset + 8)).take (leField bytes (scan.offset + 4) 4)) = .ok kept) :
    ∃ next, (scanChunk bytes).run scan = .ok () next ∧ (next.format, next.data) = kept ∧
      next.offset =
        scan.offset +
        (8 + leField bytes (scan.offset + 4) 4 + leField bytes (scan.offset + 4) 4 % 2) := by
  obtain ⟨reads, hkeep⟩ := run_keepChunk bytes ((bytes.drop scan.offset).take 4) (scan.offset + 8)
    (scan.offset + 8 + leField bytes (scan.offset + 4) 4)
    ((({ scan with headers := scan.headers + 1 } : WavScan).reading (scan.offset + 4)
      (scan.offset + 4 + 4)).reading
      scan.offset (scan.offset + 4))
  simp only [WavScan.reading, Nat.add_sub_cancel_left, hkept] at hkeep
  have hmod := Nat.mod_lt (leField bytes (scan.offset + 4) 4) (show 0 < 2 by omega)
  refine ⟨{ scan with
    format := kept.1
    data := kept.2
    headers := scan.headers + 1
    reads := reads
    offset :=
      scan.offset + 8 + leField bytes (scan.offset + 4) 4 + leField bytes (scan.offset + 4) 4 % 2 },
    ?_, rfl, by simp only [Nat.add_assoc]⟩
  simp only [scanChunk, EStateM.run_bind, EStateM.run_get, EStateM.run_modify, okOr_some,
    run_fromExcept_ok,
    checkedAdd_of_lt (show scan.offset + 8 < 2 ^ 64 by omega),
    run_failIf_neg (show ¬ bytes.length < scan.offset + 8 by omega),
    run_readU32 (show scan.offset + 4 + 4 ≤ bytes.length by omega),
    checkedAdd_of_lt (show scan.offset + 8 + leField bytes (scan.offset + 4) 4 < 2 ^ 64 by omega),
    run_failIf_neg (Nat.not_lt.mpr hsize), run_slice, WavScan.reading, Nat.add_sub_cancel_left,
      hkeep,
    checkedAdd_of_lt (show scan.offset + 8 + leField bytes (scan.offset + 4) 4 +
      leField bytes (scan.offset + 4) 4 % 2 < 2 ^ 64 by omega)]

/-- A round that succeeds has found a whole chunk at the offset. -/
theorem run_scanChunk_ok {bytes : List UInt8} {scan next : WavScan} {u : Unit}
    (h : (scanChunk bytes).run scan = .ok u next) :
    scan.offset + 8 + leField bytes (scan.offset + 4) 4 ≤ bytes.length ∧
    absorb (scan.format, scan.data) ((bytes.drop scan.offset).take 4)
      ((bytes.drop (scan.offset + 8)).take (leField bytes (scan.offset + 4) 4)) =
      .ok (next.format, next.data) ∧
    next.offset =
      scan.offset +
      (8 + leField bytes (scan.offset + 4) 4 + leField bytes (scan.offset + 4) 4 % 2) := by
  rw [scanChunk, run_bind_of_ok (EStateM.run_get scan)] at h
  obtain ⟨_, _, hadd, hrest⟩ := run_bind_ok h
  obtain ⟨rfl, rfl⟩ := run_checkedAdd_ok hadd
  obtain ⟨_, _, hif, hrest⟩ := run_bind_ok hrest
  obtain ⟨hheader, rfl⟩ := run_failIf_eq_ok hif
  rw [run_bind_of_ok (EStateM.run_modify _ _),
    run_bind_of_ok (run_readU32 (show scan.offset + 4 + 4 ≤ bytes.length by omega) _)] at hrest
  obtain ⟨_, _, hadd, hrest⟩ := run_bind_ok hrest
  obtain ⟨rfl, rfl⟩ := run_checkedAdd_ok hadd
  obtain ⟨_, _, hif, hrest⟩ := run_bind_ok hrest
  obtain ⟨hstop, rfl⟩ := run_failIf_eq_ok hif
  rw [run_bind_of_ok (run_slice _ _ _ _)] at hrest
  obtain ⟨_, _, hk, hrest⟩ := run_bind_ok hrest
  obtain ⟨reads, hkeep⟩ := run_keepChunk bytes ((bytes.drop scan.offset).take 4) (scan.offset + 8)
    (scan.offset + 8 + leField bytes (scan.offset + 4) 4)
    ((({ scan with headers := scan.headers + 1 } : WavScan).reading (scan.offset + 4)
      (scan.offset + 4 + 4)).reading
      scan.offset (scan.offset + 4))
  rw [Nat.add_sub_cancel_left] at hk hkeep
  simp only [WavScan.reading] at hk hkeep
  cases hkept : absorb (scan.format, scan.data) ((bytes.drop scan.offset).take 4)
      ((bytes.drop (scan.offset + 8)).take (leField bytes (scan.offset + 4) 4)) with
  | error e => rw [hkept] at hkeep; rw [hkeep] at hk; exact absurd hk (by simp)
  | ok kept =>
      rw [hkept] at hkeep
      rw [hkeep] at hk
      cases hk
      obtain ⟨_, _, hadd, hrest⟩ := run_bind_ok hrest
      obtain ⟨rfl, rfl⟩ := run_checkedAdd_ok hadd
      cases hrest
      exact ⟨Nat.not_lt.mp hstop, rfl, by simp only [Nat.add_assoc]⟩

def scanChunks (bytes : List UInt8) (scan : WavScan) : EStateM.Result AudioError WavScan Unit :=
  if scan.offset < bytes.length then
    match _h : (scanChunk bytes).run scan with
    | .ok _ next => scanChunks bytes next
    | .error e next => .error e next
  else .ok () scan
termination_by bytes.length - scan.offset
decreasing_by have := (run_scanChunk_ok _h).2.2; omega

def scanLoop (bytes : List UInt8) : ScanM Unit := fun scan => scanChunks bytes scan

theorem run_scanLoop (bytes : List UInt8) (scan : WavScan) :
    (scanLoop bytes).run scan = scanChunks bytes scan := rfl

def scanContainer (bytes : List UInt8) (limits : AudioLimits) : ScanM Unit := do
  failIf (bytes.length < 12) ⟨"WAV container is malformed"⟩
  let riff ← slice bytes 0 4
  failIf (riff ≠ riffTag) ⟨"WAV container is malformed"⟩
  let wave ← slice bytes 8 12
  failIf (wave ≠ waveTag) ⟨"WAV container is malformed"⟩
  fromExcept (limits.admitAudio bytes.length 48000 0)
  let size ← readU32 bytes 4
  let declared ← fromExcept (okOr (checkedAdd 64 size 8) "WAV container is malformed")
  failIf (declared ≠ bytes.length) ⟨"WAV container length is invalid"⟩

def scanWav (bytes : List UInt8) (limits : AudioLimits) : ScanM MonoPcm := do
  scanContainer bytes limits
  scanLoop bytes
  let scan ← get
  let sampleRate ← fromExcept (okOr scan.format "WAV format chunk is missing")
  let pcm ← fromExcept (okOr scan.data "WAV data chunk is missing")
  fromExcept (MonoPcm.fromPcm16Le pcm sampleRate limits)

def MonoPcm.fromWav (bytes : List UInt8) (limits : AudioLimits) : Except AudioError MonoPcm :=
  match (scanWav bytes limits).run WavScan.start with
  | .ok m _ => .ok m
  | .error e _ => .error e

def absorbAll (kept : Option Nat × Option (List UInt8)) (cs : List Chunk) :
    Except AudioError (Option Nat × Option (List UInt8)) :=
  cs.foldlM (fun kept c => absorb kept c.id c.payload) kept

theorem absorbAll_cons (kept : Option Nat × Option (List UInt8)) (c : Chunk) (cs : List Chunk) :
    absorbAll kept (c :: cs) = (absorb kept c.id c.payload).bind (fun kept => absorbAll kept cs) :=
  rfl

theorem fmtTag_ne_dataTag : fmtTag ≠ dataTag := by decide

theorem absorb_fmt (data : Option (List UInt8)) (payload : List UInt8) :
    absorb (none, data) fmtTag payload =
      (parseWaveFormat payload).map (fun rate => (some rate, data)) := by
  rw [absorb, if_pos ⟨rfl, rfl⟩]

theorem absorb_later_fmt (rate : Nat) (data : Option (List UInt8)) (payload : List UInt8) :
    absorb (some rate, data) fmtTag payload = .ok (some rate, data) := by
  rw [absorb, if_neg (by simp), if_neg (fun h => fmtTag_ne_dataTag h.1)]

theorem absorb_data (format : Option Nat) (payload : List UInt8) :
    absorb (format, none) dataTag payload = .ok (format, some payload) := by
  rw [absorb, if_neg (fun h => fmtTag_ne_dataTag h.1.symm), if_pos ⟨rfl, rfl⟩]

theorem absorb_later_data (format : Option Nat) (pcm payload : List UInt8) :
    absorb (format, some pcm) dataTag payload = .ok (format, some pcm) := by
  rw [absorb, if_neg (fun h => fmtTag_ne_dataTag h.1.symm), if_neg (by simp)]

theorem absorb_other (kept : Option Nat × Option (List UInt8)) {id : List UInt8} (hf : id ≠ fmtTag)
    (hd : id ≠ dataTag) (payload : List UInt8) : absorb kept id payload = .ok kept := by
  rw [absorb, if_neg (fun h => hf h.1), if_neg (fun h => hd h.1)]

theorem absorbAll_eq_ok (format : Option Nat) (data : Option (List UInt8)) (cs : List Chunk)
    (rate : Nat) (pcm : List UInt8) :
    absorbAll (format, data) cs = .ok (some rate, some pcm) ↔
      (format = some rate ∨
      format = none ∧ ∃ fmt, firstPayload fmtTag cs = some fmt ∧ parseWaveFormat fmt = .ok rate) ∧
    (data = some pcm ∨ data = none ∧ firstPayload dataTag cs = some pcm) := by
  induction cs generalizing format data with
  | nil => simp [absorbAll, firstPayload, pure, Except.pure]
  | cons c cs ih =>
      rw [absorbAll_cons, firstPayload_cons, firstPayload_cons]
      by_cases hf : c.id = fmtTag
      · rw [if_pos hf, if_neg (fun hd => fmtTag_ne_dataTag (hf.symm.trans hd)), hf]
        cases format with
        | some rate' => rw [absorb_later_fmt, Except.bind, ih]; simp
        | none =>
            rw [absorb_fmt]
            cases hp : parseWaveFormat c.payload with
            | error e => simp [Except.map, Except.bind, hp]
            | ok rate' => rw [Except.map, Except.bind, ih]; simp [hp]
      · rw [if_neg hf]
        by_cases hd : c.id = dataTag
        · rw [if_pos hd, hd]
          cases data with
          | some pcm' => rw [absorb_later_data, Except.bind, ih]; simp
          | none => rw [absorb_data, Except.bind, ih]; simp
        · rw [if_neg hd, absorb_other _ hf hd, Except.bind, ih]

section

variable {bytes : List UInt8} {scan next final : WavScan} {u : Unit}

theorem scanChunks_of_ok (hlt : scan.offset < bytes.length)
    (hrun : (scanChunk bytes).run scan = .ok u next) :
    scanChunks bytes scan = scanChunks bytes next := by
  rw [scanChunks, if_pos hlt]
  split
  · rename_i h; rw [hrun] at h; cases h; rfl
  · rename_i h; rw [hrun] at h; cases h

theorem scanChunks_of_error {e : AudioError} (hlt : scan.offset < bytes.length)
    (hrun : (scanChunk bytes).run scan = .error e next) :
    scanChunks bytes scan = .error e next := by
  rw [scanChunks, if_pos hlt]
  split
  · rename_i h; rw [hrun] at h; cases h
  · rename_i h; rw [hrun] at h; cases h; rfl

theorem scanChunks_of_end (hge : bytes.length ≤ scan.offset) :
    scanChunks bytes scan = .ok () scan := by
  rw [scanChunks, if_neg (Nat.not_lt.mpr hge)]

theorem leField_drop (bytes : List UInt8) (offset start len : Nat) :
    leField (bytes.drop offset) start len = leField bytes (offset + start) len := by
  rw [leField, leField, List.drop_drop]

/-- A scan that runs to the end has cut the rest of the file into chunks. -/
theorem scanChunks_sound (h : scanChunks bytes scan = .ok u final) :
    ∃ cs, Chunks (bytes.drop scan.offset) cs ∧
      absorbAll (scan.format, scan.data) cs = .ok (final.format, final.data) := by
  induction scan using scanChunks.induct bytes with
  | case1 scan hlt u' next hrun ih =>
      rw [scanChunks_of_ok hlt hrun] at h
      obtain ⟨hsize, hkept, hoffset⟩ := run_scanChunk_ok hrun
      obtain ⟨cs, hcs, habsorb⟩ := ih h
      have hwhole : 8 + leField (bytes.drop scan.offset) 4 4 ≤ (bytes.drop scan.offset).length := by
        rw [leField_drop, List.length_drop]; omega
      obtain ⟨c, hid, hpayload, hlen, hsplit⟩ := exists_chunk hwhole
      rw [leField_drop] at hpayload hlen hsplit
      rw [List.drop_drop] at hpayload hsplit
      rw [← hid, ← hpayload] at hkept
      have hall : absorbAll (scan.format, scan.data) (c :: cs) =
          .ok (final.format, final.data) := by
        rw [absorbAll_cons, hkept]; exact habsorb
      rw [hsplit]
      by_cases hend : bytes.length < next.offset
      · -- the loop has stopped one past the end: the pad byte is missing
        have hodd : leField bytes (scan.offset + 4) 4 % 2 = 1 := by omega
        have htail : bytes.drop (scan.offset + (8 + leField bytes (scan.offset + 4) 4)) = [] :=
          List.drop_of_length_le (by omega)
        have hcs' : cs = [] := hcs.of_nil (List.drop_of_length_le hend.le)
        rw [htail, List.append_nil]
        exact ⟨[c], Chunks.unpadded c (by rw [hlen, hodd]), hcs' ▸ hall⟩
      · have hpad : ((bytes.drop (scan.offset + (8 + leField bytes (scan.offset + 4) 4))).take
            (leField bytes (scan.offset + 4) 4 % 2)).length = c.payload.length % 2 := by
          rw [List.length_take, List.length_drop, hlen]; omega
        rw [hoffset, ← Nat.add_assoc, ← List.drop_drop] at hcs
        rw [← List.take_append_drop (leField bytes (scan.offset + 4) 4 % 2)
          (bytes.drop (scan.offset + (8 + leField bytes (scan.offset + 4) 4)))]
        exact ⟨c :: cs, Chunks.next c _ hpad hcs, hall⟩
  | case2 scan hlt e next hrun => rw [scanChunks_of_error hlt hrun] at h; cases h
  | case3 scan hge =>
      rw [scanChunks_of_end (Nat.not_lt.mp hge)] at h
      cases h
      exact ⟨[], by rw [List.drop_of_length_le (Nat.not_lt.mp hge)]; exact Chunks.done, rfl⟩

theorem run_scanChunk_encode (hlen : bytes.length < 2 ^ 63) {c : Chunk} {rest : List UInt8}
    (hrest : bytes.drop scan.offset = c.encode ++ rest) {kept : Option Nat × Option (List UInt8)}
    (hkept : absorb (scan.format, scan.data) c.id c.payload = .ok kept) :
    scan.offset < bytes.length ∧ ∃ next, (scanChunk bytes).run scan = .ok () next ∧
    (next.format, next.data) = kept ∧
    next.offset = scan.offset + (c.encode.length + c.payload.length % 2) := by
  have hl : bytes.length - scan.offset = c.encode.length + rest.length := by
    rw [← List.length_drop, hrest, List.length_append]
  have hfield : leField bytes (scan.offset + 4) 4 = c.payload.length := by
    rw [← leField_drop, hrest, c.leField_size]
  rw [c.encode_length] at hl ⊢
  have hgot : absorb (scan.format, scan.data) ((bytes.drop scan.offset).take 4)
      ((bytes.drop (scan.offset + 8)).take (leField bytes (scan.offset + 4) 4)) = .ok kept := by
    rw [hfield, hrest, c.take_id, ← List.drop_drop, hrest, c.take_payload]
    exact hkept
  have hrun := run_scanChunk hlen scan (by rw [hfield]; omega) hgot
  rw [hfield] at hrun
  exact ⟨by omega, hrun⟩

/-- Every complete cutting into chunks is what the scan finds. -/
theorem scanChunks_complete (hlen : bytes.length < 2 ^ 63) {rest : List UInt8} {cs : List Chunk}
    (hcs : Chunks rest cs) (hrest : bytes.drop scan.offset = rest)
    {kept : Option Nat × Option (List UInt8)}
    (hkept : absorbAll (scan.format, scan.data) cs = .ok kept) :
    ∃ final, scanChunks bytes scan = .ok () final ∧ (final.format, final.data) = kept := by
  induction hcs generalizing scan with
  | done =>
      cases hkept
      exact ⟨scan, scanChunks_of_end (List.drop_eq_nil_iff.mp hrest), rfl⟩
  | unpadded c hodd =>
      rw [absorbAll_cons] at hkept
      cases habsorb : absorb (scan.format, scan.data) c.id c.payload with
      | error e => rw [habsorb] at hkept; cases hkept
      | ok kept' =>
          rw [habsorb] at hkept
          cases hkept
          rw [← List.append_nil c.encode] at hrest
          obtain ⟨hlt, next, hrun, hnext, hoffset⟩ := run_scanChunk_encode hlen hrest habsorb
          have hl : bytes.length - scan.offset = c.encode.length := by
            rw [← List.length_drop, hrest, List.append_nil]
          exact ⟨next, by rw [scanChunks_of_ok hlt hrun, scanChunks_of_end (by omega)], hnext⟩
  | next c pad hpad hrest' ih =>
      rw [absorbAll_cons] at hkept
      cases habsorb : absorb (scan.format, scan.data) c.id c.payload with
      | error e => rw [habsorb] at hkept; cases hkept
      | ok kept' =>
          rw [habsorb] at hkept
          obtain ⟨hlt, next, hrun, hnext, hoffset⟩ := run_scanChunk_encode hlen hrest habsorb
          rw [scanChunks_of_ok hlt hrun]
          apply ih
          · rw [hoffset, ← List.drop_drop, hrest, ← hpad, ← List.drop_drop, List.drop_left,
              List.drop_left]
          · rw [hnext]; exact hkept

end

structure Container (bytes : List UInt8) (limits : AudioLimits) : Prop where
  long : 12 ≤ bytes.length
  riff : bytes.take 4 = riffTag
  wave : (bytes.drop 8).take 4 = waveTag
  admitted : limits.admitAudio bytes.length 48000 0 = .ok ()
  declared : leField bytes 4 4 = bytes.length - 8

def DescribesPcm16 (fmt : List UInt8) (rate : Nat) : Prop :=
  16 ≤ fmt.length ∧ leField fmt 0 2 = 1 ∧ leField fmt 2 2 = 1 ∧ leField fmt 4 4 = rate ∧
    leField fmt 8 4 = 2 * rate ∧ leField fmt 12 2 = 2 ∧ leField fmt 14 2 = 16 ∧
      rate ∈ supportedSampleRates

theorem parseWaveFormat_eq_ok {fmt : List UInt8} {rate : Nat} :
    parseWaveFormat fmt = .ok rate ↔ DescribesPcm16 fmt rate := by
  unfold parseWaveFormat DescribesPcm16
  by_cases hlen : fmt.length < 16
  · rw [if_pos hlen]
    simp [Nat.not_le.mpr hlen]
  · rw [if_neg hlen]
    by_cases hr : leField fmt 4 4 ∈ supportedSampleRates
    · have hb := supported_bounds hr
      have hsat : saturatingMul 32 (leField fmt 4 4) 2 = leField fmt 4 4 * 2 :=
        saturatingMul_of_lt (by omega)
      simp only [validateRate_ok hr, bind, Except.bind, hsat]
      split
      · rename_i hbad
        simp only [reduceCtorEq, false_iff]
        rintro ⟨_, h1, h2, rfl, h3, h4, h5, _⟩
        omega
      · rename_i hgood
        simp only [not_or, not_not] at hgood
        obtain ⟨h1, h2, h3, h4, h5⟩ := hgood
        constructor
        · intro h
          cases h
          exact ⟨Nat.not_lt.mp hlen, h1, h2, rfl, by omega, h4, h3, hr⟩
        · rintro ⟨_, _, _, rfl, _⟩
          rfl
    · simp only [validateRate, if_neg hr, bind, Except.bind, reduceCtorEq, false_iff]
      rintro ⟨_, _, _, rfl, _, _, _, h⟩
      exact hr h

section

variable {bytes : List UInt8} {limits : AudioLimits}

theorem run_scanContainer (h : Container bytes limits) :
    ∃ scan, (scanContainer bytes limits).run WavScan.start = .ok () scan ∧
      scan.offset = 12 ∧ scan.format = none ∧ scan.data = none := by
  have hlong := h.long
  have hsize := leField_lt bytes 4 4
  have hdecl := h.declared
  refine ⟨((WavScan.start.reading 0 4).reading 8 12).reading 4 8, ?_, rfl, rfl, rfl⟩
  rw [scanContainer, run_bind_of_ok (run_failIf_neg (Nat.not_lt.mpr hlong) _ _),
    run_bind_of_ok (run_slice _ _ _ _),
    run_bind_of_ok (run_failIf_neg (by simpa using h.riff) _ _),
    run_bind_of_ok (run_slice _ _ _ _),
    run_bind_of_ok (run_failIf_neg (by simpa using h.wave) _ _), h.admitted,
    run_bind_of_ok (run_fromExcept_ok _ _), run_bind_of_ok (run_readU32 (by omega) _),
    checkedAdd_of_lt (show leField bytes 4 4 + 8 < 2 ^ 64 by omega), okOr_some,
    run_bind_of_ok (run_fromExcept_ok _ _), run_failIf_neg (by omega)]

theorem run_scanContainer_ok {scan : WavScan} {u : Unit}
    (h : (scanContainer bytes limits).run WavScan.start = .ok u scan) :
    Container bytes limits ∧ scan.offset = 12 ∧ scan.format = none ∧ scan.data = none := by
  rw [scanContainer] at h
  obtain ⟨_, _, hif, h⟩ := run_bind_ok h
  obtain ⟨hlong, rfl⟩ := run_failIf_eq_ok hif
  rw [run_bind_of_ok (run_slice _ _ _ _)] at h
  obtain ⟨_, _, hif, h⟩ := run_bind_ok h
  obtain ⟨hriff, rfl⟩ := run_failIf_eq_ok hif
  rw [run_bind_of_ok (run_slice _ _ _ _)] at h
  obtain ⟨_, _, hif, h⟩ := run_bind_ok h
  obtain ⟨hwave, rfl⟩ := run_failIf_eq_ok hif
  obtain ⟨_, _, hfrom, h⟩ := run_bind_ok h
  obtain ⟨hadmits, rfl⟩ := run_fromExcept_eq_ok hfrom
  rw [run_bind_of_ok (run_readU32 (by omega) _)] at h
  obtain ⟨_, _, hadd, h⟩ := run_bind_ok h
  obtain ⟨rfl, rfl⟩ := run_checkedAdd_ok hadd
  obtain ⟨hdecl, rfl⟩ := run_failIf_eq_ok h
  exact ⟨⟨by omega, by simpa using hriff, by simpa using hwave, hadmits, by omega⟩, rfl, rfl, rfl⟩

/-- A file cut into chunks whose first format and data payloads are as
described decodes to whatever its data does, errors included. -/
theorem fromWav_of_chunks (h : Container bytes limits) {cs : List Chunk} {fmt pcm : List UInt8}
    {rate : Nat} (hcs : Chunks (bytes.drop 12) cs) (hfmt : firstPayload fmtTag cs = some fmt)
    (hdesc : DescribesPcm16 fmt rate) (hpcm : firstPayload dataTag cs = some pcm) :
    MonoPcm.fromWav bytes limits = MonoPcm.fromPcm16Le pcm rate limits := by
  have hlen : bytes.length < 2 ^ 63 := by
    have := leField_lt bytes 4 4
    have := h.declared
    omega
  obtain ⟨scan, hrun, hoffset, hformat, hdata⟩ := run_scanContainer h
  have habsorb : absorbAll (scan.format, scan.data) cs = .ok (some rate, some pcm) := by
    rw [hformat, hdata]
    exact (absorbAll_eq_ok none none cs rate pcm).mpr
      ⟨.inr ⟨rfl, fmt, hfmt, parseWaveFormat_eq_ok.mpr hdesc⟩, .inr ⟨rfl, hpcm⟩⟩
  obtain ⟨final, hscan, hfinal⟩ := scanChunks_complete hlen hcs (by rw [hoffset]) habsorb
  rw [← run_scanLoop] at hscan
  rw [Prod.mk.injEq] at hfinal
  rw [MonoPcm.fromWav, scanWav, run_bind_of_ok hrun, run_bind_of_ok hscan,
    run_bind_of_ok (EStateM.run_get final), hfinal.1, hfinal.2, okOr_some,
      run_bind_of_ok (run_fromExcept_ok _ _),
    okOr_some, run_bind_of_ok (run_fromExcept_ok _ _)]
  cases MonoPcm.fromPcm16Le pcm rate limits <;> rfl

theorem fromWav_ok {m : MonoPcm} (h : MonoPcm.fromWav bytes limits = .ok m) :
    Container bytes limits ∧ ∃ cs fmt pcm rate, Chunks (bytes.drop 12) cs ∧
    firstPayload fmtTag cs = some fmt ∧ DescribesPcm16 fmt rate ∧
    firstPayload dataTag cs = some pcm ∧ MonoPcm.fromPcm16Le pcm rate limits = .ok m := by
  rw [MonoPcm.fromWav] at h
  cases hrun : (scanWav bytes limits).run WavScan.start with
  | error e t => rw [hrun] at h; cases h
  | ok m' t =>
      rw [hrun] at h
      cases h
      rw [scanWav] at hrun
      obtain ⟨_, scan, hcontainer, hrun⟩ := run_bind_ok hrun
      obtain ⟨hc, hoffset, hformat, hdata⟩ := run_scanContainer_ok hcontainer
      obtain ⟨_, final, hscan, hrun⟩ := run_bind_ok hrun
      rw [run_bind_of_ok (EStateM.run_get final)] at hrun
      obtain ⟨cs, hcs, habsorb⟩ := scanChunks_sound hscan
      rw [hoffset] at hcs
      cases hf : final.format with
      | none => rw [hf, okOr_none, run_bind_of_error (run_fromExcept_error _ _)] at hrun; cases hrun
      | some rate =>
          rw [hf, okOr_some, run_bind_of_ok (run_fromExcept_ok _ _)] at hrun
          cases hd : final.data with
          | none =>
              rw [hd, okOr_none, run_bind_of_error (run_fromExcept_error _ _)] at hrun; cases hrun
          | some pcm =>
              rw [hd, okOr_some, run_bind_of_ok (run_fromExcept_ok _ _)] at hrun
              obtain ⟨hpcm, _⟩ := run_fromExcept_eq_ok hrun
              rw [hformat, hdata, hf, hd] at habsorb
              obtain ⟨hfmt, hdat⟩ := (absorbAll_eq_ok none none cs rate pcm).mp habsorb
              obtain ⟨_, fmt, hfirst, hparse⟩ := hfmt.resolve_left (by simp)
              exact ⟨hc, cs, fmt, pcm, rate, hcs, hfirst, parseWaveFormat_eq_ok.mp hparse,
                (hdat.resolve_left (by simp)).2, hpcm⟩

/-- All reads lie inside a file of `size` bytes, and no more headers were read
than fit behind the container header. -/
def WavScan.InBounds (size : Nat) (scan : WavScan) : Prop :=
  scan.headers ≤ (size - 12) / 8 ∧ ∀ r ∈ scan.reads, r.1 ≤ r.2 ∧ r.2 ≤ size

def WavScan.Before (size offset : Nat) (scan : WavScan) : Prop :=
  scan.InBounds size ∧ 12 + 8 * scan.headers ≤ offset

theorem WavScan.InBounds.reading {size start stop : Nat} {scan : WavScan} (h : scan.InBounds size)
    (hle : start ≤ stop) (hstop : stop ≤ size) : (scan.reading start stop).InBounds size := by
  refine ⟨h.1, ?_⟩
  intro r hr
  rcases List.mem_append.mp hr with hr | hr
  · exact h.2 r hr
  · rw [List.mem_singleton.mp hr]; exact ⟨hle, hstop⟩

theorem slice_before {start stop offset : Nat} (hle : start ≤ stop) (hstop : stop ≤ bytes.length) :
    Triple (WavScan.Before bytes.length offset) (slice bytes start stop)
      (fun _ => WavScan.Before bytes.length offset) (fun _ => WavScan.InBounds bytes.length) := by
  intro scan hscan
  rw [run_slice]
  exact ⟨hscan.1.reading hle hstop, hscan.2⟩

theorem readU32_before {start offset : Nat} :
    Triple (WavScan.Before bytes.length offset) (readU32 bytes start)
      (fun _ => WavScan.Before bytes.length offset) (fun _ => WavScan.InBounds bytes.length) := by
  refine Triple.bind (Triple.failIf fun _ h _ => h.1) fun _ => ?_
  intro scan hscan
  obtain ⟨hbefore, hroom⟩ := hscan
  exact (slice_before (by omega) (by omega)).bind (fun _ => Triple.pure fun _ h => h) scan hbefore

theorem keepChunk_before {id : List UInt8} {start stop offset : Nat} (hle : start ≤ stop)
    (hstop : stop ≤ bytes.length) :
    Triple (WavScan.Before bytes.length offset) (keepChunk bytes id start stop)
      (fun _ => WavScan.Before bytes.length offset) (fun _ => WavScan.InBounds bytes.length) := by
  refine Triple.bind
    (Triple.get (Q := fun _ => WavScan.Before bytes.length offset) fun _ h => h) fun scan => ?_
  split
  · exact (slice_before hle hstop).bind fun _ =>
      (Triple.fromExcept fun _ _ h => h.1).bind fun _ => Triple.modify fun _ h => h.1
  · split
    · exact (slice_before hle hstop).bind fun _ => Triple.modify fun _ h => h
    · exact Triple.pure fun _ h => h

theorem okOr_checkedAdd_eq_ok {w a b n : Nat} {message : String}
    (h : okOr (checkedAdd w a b) message = .ok n) : n = a + b := by
  unfold checkedAdd at h
  split at h
  · cases h; rfl
  · exact absurd h (by simp)

theorem scanChunk_before {scan : WavScan} (h : scan.Before bytes.length scan.offset) :
    Triple (fun s => s = scan) (scanChunk bytes)
      (fun _ next => next.Before bytes.length next.offset)
      (fun _ => WavScan.InBounds bytes.length) := by
  intro s hs
  rw [hs, scanChunk, run_bind_of_ok (EStateM.run_get scan)]
  cases hend : okOr (checkedAdd 64 scan.offset 8) "WAV chunk is malformed" with
  | error e => rw [run_bind_of_error (run_fromExcept_error _ _)]; exact h.1
  | ok headerEnd =>
      have hheaderEnd := okOr_checkedAdd_eq_ok hend
      rw [run_bind_of_ok (run_fromExcept_ok _ _)]
      by_cases hheader : bytes.length < headerEnd
      · rw [run_bind_of_error (run_failIf_pos hheader _ _)]; exact h.1
      · rw [run_bind_of_ok (run_failIf_neg hheader _ _), run_bind_of_ok (EStateM.run_modify _ _)]
        obtain ⟨⟨hheaders, hreads⟩, hoffset⟩ := h
        have hcounted :
            WavScan.Before bytes.length headerEnd { scan with headers := scan.headers + 1 } :=
          ⟨⟨by simp only; omega, hreads⟩, by simp only; omega⟩
        refine Triple.bind readU32_before (fun size => ?_) _ hcounted
        refine Triple.bind (Triple.fromExcept fun _ _ h => h.1) fun stop =>
          Triple.of_fact fun hadd => ?_
        have hstop := okOr_checkedAdd_eq_ok hadd
        refine Triple.bind (Triple.failIf fun _ h _ => h.1) fun _ => Triple.of_fact fun hle => ?_
        refine Triple.bind (slice_before (by omega) (by omega)) fun id => ?_
        refine Triple.bind (keepChunk_before (by omega) (by omega)) fun _ => ?_
        refine Triple.bind (Triple.fromExcept fun _ _ h => h.1) fun next =>
          Triple.of_fact fun hadd => ?_
        have hnext := okOr_checkedAdd_eq_ok hadd
        exact Triple.modify fun s hs => ⟨hs.1, by have := hs.2; simp only; omega⟩

theorem scanLoop_inBounds :
    Triple (fun scan => scan.Before bytes.length scan.offset) (scanLoop bytes)
      (fun _ => WavScan.InBounds bytes.length) (fun _ => WavScan.InBounds bytes.length) := by
  intro scan h
  rw [run_scanLoop]
  induction scan using scanChunks.induct bytes with
  | case1 scan hlt _ next hrun ih =>
      rw [scanChunks_of_ok hlt hrun]
      exact ih ((scanChunk_before h).ok rfl hrun)
  | case2 scan hlt e next hrun =>
      rw [scanChunks_of_error hlt hrun]
      exact (scanChunk_before h).error rfl hrun
  | case3 scan hge =>
      rw [scanChunks_of_end (Nat.not_lt.mp hge)]
      exact h.1

theorem scanContainer_before : Triple (WavScan.Before bytes.length 12) (scanContainer bytes limits)
    (fun _ => WavScan.Before bytes.length 12) (fun _ => WavScan.InBounds bytes.length) := by
  refine Triple.bind (Triple.failIf fun _ h _ => h.1) fun _ => Triple.of_fact fun hlong => ?_
  refine Triple.bind (slice_before (by omega) (by omega)) fun _ => ?_
  refine Triple.bind (Triple.failIf fun _ h _ => h.1) fun _ => Triple.of_fact fun _ => ?_
  refine Triple.bind (slice_before (by omega) (by omega)) fun _ => ?_
  refine Triple.bind (Triple.failIf fun _ h _ => h.1) fun _ => Triple.of_fact fun _ => ?_
  refine Triple.bind (Triple.fromExcept fun _ _ h => h.1) fun _ => Triple.of_fact fun _ => ?_
  refine Triple.bind readU32_before fun _ => ?_
  refine Triple.bind (Triple.fromExcept fun _ _ h => h.1) fun _ => Triple.of_fact fun _ => ?_
  exact (Triple.failIf fun _ h _ => h.1).conseq (fun _ h => h) (fun _ _ h => h.1) (fun _ _ h => h)

theorem start_before (size : Nat) : WavScan.start.Before size 12 :=
  ⟨⟨Nat.zero_le _, fun _ hr => absurd hr List.not_mem_nil⟩, le_rfl⟩

def wavScan (bytes : List UInt8) (limits : AudioLimits) : WavScan :=
  match (scanWav bytes limits).run WavScan.start with
  | .ok _ scan => scan
  | .error _ scan => scan

theorem wavScan_inBounds (bytes : List UInt8) (limits : AudioLimits) :
    (wavScan bytes limits).InBounds bytes.length := by
  have hscan : Triple (fun scan => scan = WavScan.start) (scanWav bytes limits)
      (fun _ => WavScan.InBounds bytes.length) (fun _ => WavScan.InBounds bytes.length) := by
    refine Triple.bind (Q := fun _ scan => scan.Before bytes.length scan.offset) ?_ fun _ => ?_
    · intro s hs
      rw [hs]
      cases hrun : (scanContainer bytes limits).run WavScan.start with
      | error e scan => exact scanContainer_before.error (start_before _) hrun
      | ok _ scan =>
          have hoffset := (run_scanContainer_ok hrun).2.1
          change scan.Before bytes.length scan.offset
          rw [hoffset]
          exact scanContainer_before.ok (start_before _) hrun
    · refine Triple.bind scanLoop_inBounds fun _ => ?_
      refine Triple.bind
        (Triple.get (Q := fun _ => WavScan.InBounds bytes.length) fun _ h => h) fun scan => ?_
      refine Triple.bind (Triple.fromExcept fun _ _ h => h) fun _ => Triple.of_fact fun _ => ?_
      refine Triple.bind (Triple.fromExcept fun _ _ h => h) fun _ => Triple.of_fact fun _ => ?_
      exact (Triple.fromExcept fun _ _ h => h).conseq (fun _ h => h) (fun _ _ h => h.1)
        (fun _ _ h => h)
  rw [wavScan]
  cases hrun : (scanWav bytes limits).run WavScan.start with
  | ok m scan => exact hscan.ok rfl hrun
  | error e scan => exact hscan.error rfl hrun

/-- `from_wav` accepts exactly its grammar, and only the first `fmt ` and the
first `data` payload matter. -/
theorem fromWav_accepts_exactly_its_grammar (bytes : List UInt8) (limits : AudioLimits) :
    (∀ m, MonoPcm.fromWav bytes limits = .ok m ↔
      Container bytes limits ∧ ∃ cs fmt pcm rate, Chunks (bytes.drop 12) cs ∧
      firstPayload fmtTag cs = some fmt ∧ DescribesPcm16 fmt rate ∧
      firstPayload dataTag cs = some pcm ∧ MonoPcm.fromPcm16Le pcm rate limits = .ok m) ∧
    (∀ other cs cs', Container bytes limits → Container other limits → Chunks (bytes.drop 12) cs →
      Chunks (other.drop 12) cs' → firstPayload fmtTag cs = firstPayload fmtTag cs' →
      firstPayload dataTag cs = firstPayload dataTag cs' →
      ∀ m, MonoPcm.fromWav bytes limits = .ok m → MonoPcm.fromWav other limits = .ok m) ∧
    (wavScan bytes limits).headers ≤ (bytes.length - 12) / 8 ∧
    ∀ r ∈ (wavScan bytes limits).reads, r.1 ≤ r.2 ∧ r.2 ≤ bytes.length := by
  refine ⟨fun m => ⟨fromWav_ok, ?_⟩, ?_, wavScan_inBounds bytes limits⟩
  · rintro ⟨hc, cs, fmt, pcm, rate, hcs, hfmt, hdesc, hpcm, hm⟩
    rw [fromWav_of_chunks hc hcs hfmt hdesc hpcm, hm]
  · intro other cs cs' hc hc' hcs hcs' hfmt hdata m hm
    obtain ⟨_, ds, fmt, pcm, rate, hds, hfirst, hdesc, hpcm, hdecode⟩ := fromWav_ok hm
    obtain rfl := hds.unique hcs
    rw [fromWav_of_chunks hc' hcs' (hfmt ▸ hfirst) hdesc (hdata ▸ hpcm), hdecode]

end

end ImpossibleVoice.Audio

import ImpossibleVoice.Lib.MachineInt

namespace ImpossibleVoice.Lib

@[ext] structure Chunk where
  id : List UInt8
  payload : List UInt8
  id_length : id.length = 4
  size_lt : payload.length < 2 ^ 32

def Chunk.encode (c : Chunk) : List UInt8 := c.id ++ (toLe 4 c.payload.length ++ c.payload)

/-- A byte string cut completely into chunks, each odd payload followed by a
pad byte of any value that only the last chunk may lack. -/
inductive Chunks : List UInt8 → List Chunk → Prop
  | done : Chunks [] []
  | unpadded (c : Chunk) (hodd : c.payload.length % 2 = 1) : Chunks c.encode [c]
  | next (c : Chunk) (pad : List UInt8) (hpad : pad.length = c.payload.length % 2)
      {rest : List UInt8} {cs : List Chunk} (hrest : Chunks rest cs) :
      Chunks (c.encode ++ (pad ++ rest)) (c :: cs)

def firstPayload (id : List UInt8) (cs : List Chunk) : Option (List UInt8) :=
  (cs.find? (fun c => c.id == id)).map Chunk.payload

theorem firstPayload_cons (id : List UInt8) (c : Chunk) (cs : List Chunk) :
    firstPayload id (c :: cs) = if c.id = id then some c.payload else firstPayload id cs := by
  unfold firstPayload
  by_cases h : c.id = id <;> simp [h]

theorem Chunk.encode_length (c : Chunk) : c.encode.length = 8 + c.payload.length := by
  simp only [encode, List.length_append, c.id_length, toLe_length]
  omega

theorem Chunks.of_nil {bytes : List UInt8} {cs : List Chunk} (h : Chunks bytes cs)
    (hb : bytes = []) : cs = [] := by
  cases h with
  | done => rfl
  | unpadded c =>
      have := c.encode_length
      rw [hb, List.length_nil] at this
      omega
  | next c =>
      have := c.encode_length
      rw [(List.append_eq_nil_iff.mp hb).1, List.length_nil] at this
      omega

def leField (bytes : List UInt8) (start len : Nat) : Nat := fromLe ((bytes.drop start).take len)

theorem leField_lt (bytes : List UInt8) (start len : Nat) : leField bytes start len < 256 ^ len :=
  Nat.lt_of_lt_of_le (fromLe_lt _)
    (Nat.pow_le_pow_right (by omega) (by rw [List.length_take]; omega))

theorem Chunk.take_id (c : Chunk) (rest : List UInt8) : (c.encode ++ rest).take 4 = c.id := by
  rw [encode, List.append_assoc, ← c.id_length, List.take_left]

theorem Chunk.leField_size (c : Chunk) (rest : List UInt8) :
    leField (c.encode ++ rest) 4 4 = c.payload.length := by
  have hdrop : (c.encode ++ rest).drop 4 = toLe 4 c.payload.length ++ (c.payload ++ rest) := by
    rw [encode, List.append_assoc, List.append_assoc, ← c.id_length, List.drop_left, c.id_length]
  have htake : (toLe 4 c.payload.length ++ (c.payload ++ rest)).take 4 = toLe 4 c.payload.length :=
    List.take_left' (toLe_length 4 c.payload.length)
  rw [leField, hdrop, htake, fromLe_toLe (by have := c.size_lt; omega)]

theorem Chunk.take_payload (c : Chunk) (rest : List UInt8) :
    ((c.encode ++ rest).drop 8).take c.payload.length = c.payload := by
  have hdrop : (c.encode ++ rest).drop 8 = c.payload ++ rest := by
    rw [encode, ← List.append_assoc c.id, List.append_assoc,
      List.drop_left' (by simp [c.id_length])]
  rw [hdrop, List.take_left]

theorem Chunk.encode_append_inj {c d : Chunk} {rest rest' : List UInt8}
    (h : c.encode ++ rest = d.encode ++ rest') : c = d ∧ rest = rest' := by
  have hsize : c.payload.length = d.payload.length := by
    rw [← c.leField_size rest, h, d.leField_size]
  have hcd : c = d := by
    refine Chunk.ext ?_ ?_
    · rw [← c.take_id rest, h, d.take_id]
    · rw [← c.take_payload rest, h, hsize, d.take_payload]
  refine ⟨hcd, ?_⟩
  rw [hcd] at h
  exact List.append_cancel_left h

/-- A byte string is cut into chunks in one way at most. -/
theorem Chunks.unique {bytes : List UInt8} {cs ds : List Chunk} (hcs : Chunks bytes cs)
    (hds : Chunks bytes ds) : cs = ds := by
  induction hcs generalizing ds with
  | done => exact (hds.of_nil rfl).symm
  | unpadded c hodd =>
      generalize hb : c.encode = bytes at hds
      rw [← List.append_nil c.encode] at hb
      cases hds with
      | done => exact absurd (congrArg List.length hb) (by simp [c.encode_length])
      | unpadded d =>
          rw [← List.append_nil d.encode] at hb
          rw [(Chunk.encode_append_inj hb).1]
      | next d pad hpad =>
          obtain ⟨rfl, hnil⟩ := Chunk.encode_append_inj hb
          rw [(List.append_eq_nil_iff.mp hnil.symm).1, hodd] at hpad
          cases hpad
  | next c pad hpad hrest ih =>
      generalize hb : c.encode ++ (pad ++ _) = bytes at hds
      cases hds with
      | done => exact absurd (congrArg List.length hb) (by simp [c.encode_length])
      | unpadded d hodd =>
          rw [← List.append_nil d.encode] at hb
          obtain ⟨rfl, hnil⟩ := Chunk.encode_append_inj hb
          rw [(List.append_eq_nil_iff.mp hnil).1, hodd] at hpad
          cases hpad
      | next d pad' hpad' hrest' =>
          obtain ⟨rfl, htail⟩ := Chunk.encode_append_inj hb
          obtain ⟨_, rfl⟩ := List.append_inj htail (hpad.trans hpad'.symm)
          rw [ih hrest']

theorem exists_chunk {bytes : List UInt8} (h : 8 + leField bytes 4 4 ≤ bytes.length) :
    ∃ c : Chunk, c.id = bytes.take 4 ∧ c.payload = (bytes.drop 8).take (leField bytes 4 4) ∧
    c.payload.length = leField bytes 4 4 ∧
    bytes = c.encode ++ bytes.drop (8 + leField bytes 4 4) := by
  have hsize : leField bytes 4 4 < 2 ^ 32 := leField_lt bytes 4 4
  have hlen : ((bytes.drop 8).take (leField bytes 4 4)).length = leField bytes 4 4 := by
    rw [List.length_take, List.length_drop]; omega
  refine ⟨⟨bytes.take 4, (bytes.drop 8).take (leField bytes 4 4), by rw [List.length_take]; omega,
    by omega⟩, rfl, rfl, hlen, ?_⟩
  have hfield : toLe 4 (leField bytes 4 4) = (bytes.drop 4).take 4 := by
    have h4 : ((bytes.drop 4).take 4).length = 4 := by
      rw [List.length_take, List.length_drop]; omega
    have h := toLe_fromLe ((bytes.drop 4).take 4)
    rwa [h4] at h
  calc bytes = bytes.take 4 ++ bytes.drop 4 := (List.take_append_drop 4 bytes).symm
    _ = bytes.take 4 ++ ((bytes.drop 4).take 4 ++ bytes.drop 8) := by
        rw [show bytes.drop 8 =
          (bytes.drop 4).drop 4 by rw [List.drop_drop], List.take_append_drop 4 (bytes.drop 4)]
    _ = bytes.take 4 ++ ((bytes.drop 4).take 4 ++
          ((bytes.drop 8).take (leField bytes 4 4) ++ bytes.drop (8 + leField bytes 4 4))) := by
        rw [← List.drop_drop, List.take_append_drop _ (bytes.drop 8)]
    _ = _ := by
        simp only [Chunk.encode, hlen, hfield, List.append_assoc]

end ImpossibleVoice.Lib

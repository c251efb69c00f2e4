import Mathlib.Data.List.Basic
import Mathlib.Data.Option.Basic
import Mathlib.Data.String.Basic

namespace ImpossibleVoice.Lib.Base64

def alphabet : List Char :=
  "ABCDEFGHIJKLMNOPQRSTUVWXYZabcdefghijklmnopqrstuvwxyz0123456789+/".toList

def pad : Char := '='

def digit (n : Nat) : Char := alphabet.getD n pad

def value (c : Char) : Option Nat := if alphabet.idxOf c < 64 then some (alphabet.idxOf c) else none

def encode : List UInt8 → List Char
  | [] => []
  | [a] => [digit (a.toNat / 4), digit (a.toNat % 4 * 16), pad, pad]
  | [a, b] =>
      [digit (a.toNat / 4), digit (a.toNat % 4 * 16 + b.toNat / 16), digit (b.toNat % 16 * 4), pad]
  | a :: b :: c :: rest =>
    digit (a.toNat / 4) :: digit (a.toNat % 4 * 16 + b.toNat / 16) ::
      digit (b.toNat % 16 * 4 + c.toNat / 64) :: digit (c.toNat % 64) :: encode rest

def whole (w x y z : Char) : Option (List UInt8) := do
  let a ← value w
  let b ← value x
  let c ← value y
  let d ← value z
  some [.ofNat (a * 4 + b / 16), .ofNat (b % 16 * 16 + c / 4), .ofNat (c % 4 * 64 + d)]

def twoBytes (w x y : Char) : Option (List UInt8) := do
  let a ← value w
  let b ← value x
  let c ← value y
  if c % 4 = 0 then some [.ofNat (a * 4 + b / 16), .ofNat (b % 16 * 16 + c / 4)] else none

def oneByte (w x : Char) : Option (List UInt8) := do
  let a ← value w
  let b ← value x
  if b % 16 = 0 then some [.ofNat (a * 4 + b / 16)] else none

def final (w x y z : Char) : Option (List UInt8) :=
  if z = pad then if y = pad then oneByte w x else twoBytes w x y else whole w x y z

def decode : List Char → Option (List UInt8)
  | [] => some []
  | w :: x :: y :: z :: rest =>
    if rest = [] then final w x y z
    else (whole w x y z).bind fun front => (decode rest).map fun back => front ++ back
  | _ => none

theorem length_alphabet : alphabet.length = 64 := by decide +kernel

theorem value_digit {n : Nat} (h : n < 64) : value (digit n) = some n := by
  have hall : ∀ n < 64, value (digit n) = some n := by decide +kernel
  exact hall n h

theorem value_pad : value pad = none := by decide +kernel

theorem digit_ne_pad {n : Nat} (h : n < 64) : digit n ≠ pad := by
  intro hpad
  have hvalue := value_digit h
  rw [hpad, value_pad] at hvalue
  cases hvalue

theorem of_value {c : Char} {n : Nat} (h : value c = some n) : n < 64 ∧ digit n = c := by
  unfold value at h
  split at h
  · next hlt =>
      cases h
      refine ⟨hlt, ?_⟩
      have hlength : alphabet.idxOf c < alphabet.length := by rw [length_alphabet]; exact hlt
      rw [digit, List.getD_eq_getElem?_getD, List.getElem?_eq_getElem hlength,
        List.getElem_idxOf hlength]
      rfl
  · cases h

theorem ofNat_eq {a : UInt8} {n : Nat} (h : n = a.toNat) : UInt8.ofNat n = a := by
  rw [h, UInt8.ofNat_toNat]

theorem whole_encoded (a b c : UInt8) :
    whole (digit (a.toNat / 4)) (digit (a.toNat % 4 * 16 + b.toNat / 16))
      (digit (b.toNat % 16 * 4 + c.toNat / 64)) (digit (c.toNat % 64)) = some [a, b, c] := by
  have ha := a.toNat_lt
  have hb := b.toNat_lt
  have hc := c.toNat_lt
  rw [whole, value_digit (by omega), value_digit (by omega), value_digit (by omega),
    value_digit (by omega)]
  simp only [Option.bind_eq_bind, Option.bind_some]
  rw [ofNat_eq (show _ = a.toNat by omega), ofNat_eq (show _ = b.toNat by omega),
    ofNat_eq (show _ = c.toNat by omega)]

theorem twoBytes_encoded (a b : UInt8) :
    twoBytes (digit (a.toNat / 4)) (digit (a.toNat % 4 * 16 + b.toNat / 16))
      (digit (b.toNat % 16 * 4)) = some [a, b] := by
  have ha := a.toNat_lt
  have hb := b.toNat_lt
  rw [twoBytes, value_digit (by omega), value_digit (by omega), value_digit (by omega)]
  simp only [Option.bind_eq_bind, Option.bind_some]
  rw [if_pos (by omega), ofNat_eq (show _ = a.toNat by omega), ofNat_eq (show _ = b.toNat by omega)]

theorem oneByte_encoded (a : UInt8) :
    oneByte (digit (a.toNat / 4)) (digit (a.toNat % 4 * 16)) = some [a] := by
  have ha := a.toNat_lt
  rw [oneByte, value_digit (by omega), value_digit (by omega)]
  simp only [Option.bind_eq_bind, Option.bind_some]
  rw [if_pos (by omega), ofNat_eq (show _ = a.toNat by omega)]

theorem encode_ne_nil {bytes : List UInt8} (h : bytes ≠ []) : encode bytes ≠ [] := by
  match bytes with
  | [] => exact absurd rfl h
  | [_] | [_, _] | _ :: _ :: _ :: _ => simp [encode]

theorem decode_encode (bytes : List UInt8) : decode (encode bytes) = some bytes := by
  induction bytes using encode.induct with
  | case1 => rfl
  | case2 a =>
      rw [encode, decode, if_pos rfl, final, if_pos rfl, if_pos rfl]
      exact oneByte_encoded a
  | case3 a b =>
      have hb := b.toNat_lt
      rw [encode, decode, if_pos rfl, final, if_pos rfl, if_neg (digit_ne_pad (by omega))]
      exact twoBytes_encoded a b
  | case4 a b c rest ih =>
      have hwhole := whole_encoded a b c
      rw [encode, decode]
      by_cases hrest : rest = []
      · subst hrest
        have hc := c.toNat_lt
        rw [if_pos (show encode [] = [] from rfl), final, if_neg (digit_ne_pad (by omega))]
        exact hwhole
      · rw [if_neg (encode_ne_nil hrest), hwhole, ih]
        rfl

theorem length_encode (bytes : List UInt8) :
    (encode bytes).length = 4 * ((bytes.length + 2) / 3) := by
  induction bytes using encode.induct with
  | case1 => rfl
  | case2 => simp [encode]
  | case3 => simp [encode]
  | case4 a b c rest ih =>
      simp only [encode, List.length_cons, ih]
      omega

theorem encode_whole {w x y z : Char} {front : List UInt8} (h : whole w x y z = some front)
    (rest : List UInt8) : encode (front ++ rest) = w :: x :: y :: z :: encode rest := by
  simp only [whole, Option.bind_eq_bind, Option.bind_eq_some_iff] at h
  obtain ⟨a, ha, b, hb, c, hc, d, hd, hfront⟩ := h
  cases hfront
  obtain ⟨hla, rfl⟩ := of_value ha
  obtain ⟨hlb, rfl⟩ := of_value hb
  obtain ⟨hlc, rfl⟩ := of_value hc
  obtain ⟨hld, rfl⟩ := of_value hd
  simp only [List.cons_append, List.nil_append, encode, UInt8.toNat_ofNat']
  rw [show (a * 4 + b / 16) % 2 ^ 8 / 4 = a by omega,
    show (a * 4 + b / 16) % 2 ^ 8 % 4 * 16 + (b % 16 * 16 + c / 4) % 2 ^ 8 / 16 = b by omega,
    show (b % 16 * 16 + c / 4) % 2 ^ 8 % 16 * 4 + (c % 4 * 64 + d) % 2 ^ 8 / 64 = c by omega,
    show (c % 4 * 64 + d) % 2 ^ 8 % 64 = d by omega]

theorem encode_twoBytes {w x y : Char} {bytes : List UInt8} (h : twoBytes w x y = some bytes) :
    encode bytes = [w, x, y, pad] := by
  simp only [twoBytes, Option.bind_eq_bind, Option.bind_eq_some_iff] at h
  obtain ⟨a, ha, b, hb, c, hc, hbytes⟩ := h
  split at hbytes
  · next hzero =>
      cases hbytes
      obtain ⟨hla, rfl⟩ := of_value ha
      obtain ⟨hlb, rfl⟩ := of_value hb
      obtain ⟨hlc, rfl⟩ := of_value hc
      simp only [encode, UInt8.toNat_ofNat']
      rw [show (a * 4 + b / 16) % 2 ^ 8 / 4 = a by omega,
        show (a * 4 + b / 16) % 2 ^ 8 % 4 * 16 + (b % 16 * 16 + c / 4) % 2 ^ 8 / 16 = b by omega,
        show (b % 16 * 16 + c / 4) % 2 ^ 8 % 16 * 4 = c by omega]
  · cases hbytes

theorem encode_oneByte {w x : Char} {bytes : List UInt8} (h : oneByte w x = some bytes) :
    encode bytes = [w, x, pad, pad] := by
  simp only [oneByte, Option.bind_eq_bind, Option.bind_eq_some_iff] at h
  obtain ⟨a, ha, b, hb, hbytes⟩ := h
  split at hbytes
  · next hzero =>
      cases hbytes
      obtain ⟨hla, rfl⟩ := of_value ha
      obtain ⟨hlb, rfl⟩ := of_value hb
      simp only [encode, UInt8.toNat_ofNat']
      rw [show (a * 4 + b / 16) % 2 ^ 8 / 4 =
        a by omega, show (a * 4 + b / 16) % 2 ^ 8 % 4 * 16 = b by omega]
  · cases hbytes

theorem encode_final {w x y z : Char} {bytes : List UInt8} (h : final w x y z = some bytes) :
    encode bytes = [w, x, y, z] := by
  unfold final at h
  split at h
  · next hz =>
      subst hz
      split at h
      · next hy =>
          subst hy
          exact encode_oneByte h
      · exact encode_twoBytes h
  · have hwhole := encode_whole h []
    rwa [List.append_nil] at hwhole

theorem encode_decode {text : List Char} {bytes : List UInt8} (h : decode text = some bytes) :
    encode bytes = text := by
  induction text using decode.induct generalizing bytes with
  | case1 =>
      cases h
      rfl
  | case2 w x y z =>
      rw [decode, if_pos rfl] at h
      exact encode_final h
  | case3 w x y z rest hrest ih =>
      rw [decode, if_neg hrest, Option.bind_eq_some_iff] at h
      obtain ⟨front, hfront, hback⟩ := h
      obtain ⟨back, hdecode, rfl⟩ := Option.map_eq_some_iff.mp hback
      rw [encode_whole hfront, ih hdecode]
  | case4 => simp [decode] at h

theorem decode_eq_some_iff {text : List Char} {bytes : List UInt8} :
    decode text = some bytes ↔ text = encode bytes :=
  ⟨fun h => (encode_decode h).symm, fun h => by rw [h, decode_encode]⟩

theorem utf8Size_digit (n : Nat) : (digit n).utf8Size = 1 := by
  by_cases h : n < 64
  · have hall : ∀ n < 64, (digit n).utf8Size = 1 := by decide +kernel
    exact hall n h
  · have hpad : digit n = pad := by
      rw [digit, List.getD_eq_getElem?_getD, List.getElem?_eq_none (by rw [length_alphabet]; omega)]
      rfl
    rw [hpad]
    rfl

theorem utf8Len_encode (bytes : List UInt8) :
    String.utf8Len (encode bytes) = (encode bytes).length := by
  have hpad : pad.utf8Size = 1 := rfl
  induction bytes using encode.induct with
  | case1 => rfl
  | case2 => simp [encode, utf8Size_digit, hpad]
  | case3 => simp [encode, utf8Size_digit, hpad]
  | case4 a b c rest ih => simp [encode, utf8Size_digit, ih]

theorem utf8ByteSize_encode (bytes : List UInt8) :
    (String.ofList (encode bytes)).utf8ByteSize = 4 * ((bytes.length + 2) / 3) := by
  rw [String.utf8ByteSize_ofList, utf8Len_encode, length_encode]

/-- An engine whose texts are just the encodings, with four ASCII characters for
every three bytes begun. -/
structure Engine where
  encode : List UInt8 → String
  decode : String → Option (List UInt8)
  decode_eq_some_iff : ∀ text bytes, decode text = some bytes ↔ text = encode bytes
  utf8ByteSize_encode : ∀ bytes, (encode bytes).utf8ByteSize = 4 * ((bytes.length + 2) / 3)

theorem Engine.decode_encode (engine : Engine) (bytes : List UInt8) :
    engine.decode (engine.encode bytes) = some bytes :=
  (engine.decode_eq_some_iff _ _).mpr rfl

/-- The alphabet of RFC 4648 with padding, and nothing else. -/
def standard : Engine where
  encode bytes := String.ofList (encode bytes)
  decode text := decode text.toList
  decode_eq_some_iff text bytes := by
    rw [decode_eq_some_iff]
    constructor
    · intro h
      rw [← h, String.ofList_toList]
    · rintro rfl
      exact String.toList_ofList
  utf8ByteSize_encode := utf8ByteSize_encode

end ImpossibleVoice.Lib.Base64

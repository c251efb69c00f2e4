import Mathlib.Data.Nat.ModEq
import Mathlib.Tactic.Ring

namespace ImpossibleVoice.Lib

/-- Unsigned multiplication at width `w`: nothing when the product does not fit. -/
def checkedMul (w a b : Nat) : Option Nat := if a * b < 2 ^ w then some (a * b) else none

def checkedAdd (w a b : Nat) : Option Nat := if a + b < 2 ^ w then some (a + b) else none

def saturatingMul (w a b : Nat) : Nat := min (a * b) (2 ^ w - 1)

def saturatingAdd (w a b : Nat) : Nat := min (a + b) (2 ^ w - 1)

def tryNarrow (w n : Nat) : Option Nat := if n < 2 ^ w then some n else none

theorem checkedMul_of_lt {w a b : Nat} (h : a * b < 2 ^ w) : checkedMul w a b = some (a * b) :=
  if_pos h

theorem checkedMul_of_ge {w a b : Nat} (h : 2 ^ w ≤ a * b) : checkedMul w a b = none :=
  if_neg (Nat.not_lt.mpr h)

theorem checkedAdd_of_lt {w a b : Nat} (h : a + b < 2 ^ w) : checkedAdd w a b = some (a + b) :=
  if_pos h

theorem checkedAdd_of_ge {w a b : Nat} (h : 2 ^ w ≤ a + b) : checkedAdd w a b = none :=
  if_neg (Nat.not_lt.mpr h)

theorem checkedAdd_eq_some {w a b n : Nat} (h : checkedAdd w a b = some n) : n = a + b := by
  rw [checkedAdd] at h
  split at h
  · exact (Option.some.inj h).symm
  · cases h

theorem tryNarrow_of_lt {w n : Nat} (h : n < 2 ^ w) : tryNarrow w n = some n := if_pos h

theorem saturatingMul_of_lt {w a b : Nat} (h : a * b < 2 ^ w) : saturatingMul w a b = a * b :=
  Nat.min_eq_left (by omega)

def fromLe : List UInt8 → Nat
  | [] => 0
  | b :: bs => b.toNat + 256 * fromLe bs

def toLe : Nat → Nat → List UInt8
  | 0, _ => []
  | len + 1, n => UInt8.ofNat (n % 256) :: toLe len (n / 256)

@[simp] theorem toLe_length (len n : Nat) : (toLe len n).length = len := by
  induction len generalizing n with
  | zero => rfl
  | succ len ih => simp [toLe, ih]

theorem fromLe_lt (bs : List UInt8) : fromLe bs < 256 ^ bs.length := by
  induction bs with
  | nil => simp [fromLe]
  | cons b bs ih =>
      have hb : b.toNat < 256 := b.toNat_lt
      simp only [fromLe, List.length_cons, Nat.pow_succ]
      omega

theorem fromLe_toLe {len n : Nat} (h : n < 256 ^ len) : fromLe (toLe len n) = n := by
  induction len generalizing n with
  | zero => simp only [Nat.pow_zero] at h; simp only [toLe, fromLe]; omega
  | succ len ih =>
      have hd : n / 256 < 256 ^ len := by
        rw [Nat.pow_succ] at h
        exact Nat.div_lt_of_lt_mul (by omega)
      have hm : n % 256 % 256 = n % 256 := Nat.mod_mod n 256
      simp only [toLe, fromLe, ih hd, UInt8.toNat_ofNat', Nat.reducePow, hm]
      omega

theorem toLe_fromLe (bs : List UInt8) : toLe bs.length (fromLe bs) = bs := by
  induction bs with
  | nil => rfl
  | cons b bs ih =>
      have hb : b.toNat < 256 := b.toNat_lt
      have hm : (b.toNat + 256 * fromLe bs) % 256 = b.toNat := by omega
      have hd : (b.toNat + 256 * fromLe bs) / 256 = fromLe bs := by omega
      simp only [List.length_cons, toLe, fromLe, hm, hd, ih, UInt8.ofNat_toNat]

def toI16 (n : Nat) : Int := if n < 2 ^ 15 then n else (n : Int) - 2 ^ 16

def fromI16 (k : Int) : Nat := (k % 2 ^ 16).toNat

theorem toI16_bounds {n : Nat} (h : n < 2 ^ 16) : -2 ^ 15 ≤ toI16 n ∧ toI16 n < 2 ^ 15 := by
  unfold toI16
  split <;> omega

theorem fromI16_toI16 {n : Nat} (h : n < 2 ^ 16) : fromI16 (toI16 n) = n := by
  unfold fromI16 toI16
  split <;> omega

theorem fromI16_lt (k : Int) : fromI16 k < 2 ^ 16 := by
  rw [fromI16]
  omega

theorem toI16_fromI16 {k : Int} (hl : -2 ^ 15 ≤ k) (hu : k < 2 ^ 15) : toI16 (fromI16 k) = k := by
  rw [fromI16, toI16]
  split <;> omega

end ImpossibleVoice.Lib

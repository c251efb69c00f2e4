import Mathlib.Data.List.Basic
import Mathlib.Data.UInt

namespace ImpossibleVoice.Lib

def isContinuation (b : UInt8) : Bool := 128 ≤ b && b ≤ 191

def isPair (a b : UInt8) : Bool := (194 ≤ a && a ≤ 223) && isContinuation b

def isTriple (a b c : UInt8) : Bool :=
  ((a == 224 && (160 ≤ b && b ≤ 191)) || (a == 237 && (128 ≤ b && b ≤ 159)) ||
    (((225 ≤ a && a ≤ 236) || (238 ≤ a && a ≤ 239)) && isContinuation b)) && isContinuation c

def isQuadruple (a b c d : UInt8) : Bool :=
  ((a == 240 && (144 ≤ b && b ≤ 191)) || (a == 244 && (128 ≤ b && b ≤ 143)) ||
    ((241 ≤ a && a ≤ 243) && isContinuation b)) && isContinuation c && isContinuation d

def isUtf8 : List UInt8 → Bool
  | [] => true
  | a :: rest =>
      if a < 128 then isUtf8 rest
      else match rest with
        | b :: rest =>
            if isPair a b = true then isUtf8 rest
            else match rest with
              | c :: rest =>
                  if isTriple a b c = true then isUtf8 rest
                  else match rest with
                    | d :: rest => isQuadruple a b c d && isUtf8 rest
                    | [] => false
              | [] => false
        | [] => false

@[ext] structure Text where
  bytes : List UInt8
  utf8 : isUtf8 bytes = true
deriving DecidableEq

/-- `OsStr::to_str`. -/
def toStr (bytes : List UInt8) : Option Text :=
  if h : isUtf8 bytes = true then some ⟨bytes, h⟩ else none

theorem toStr_eq_some {bytes : List UInt8} {text : Text} :
    toStr bytes = some text ↔ text.bytes = bytes := by
  unfold toStr
  constructor
  · intro h
    split at h
    · cases h
      rfl
    · cases h
  · rintro rfl
    rw [dif_pos text.utf8]

structure OnAscii (f : UInt8 → UInt8) : Prop where
  ascii : ∀ b, b < 128 → f b < 128
  rest : ∀ b, ¬ b < 128 → f b = b

theorem not_lt_of_isPair {a b : UInt8} (h : isPair a b = true) : ¬ a < 128 ∧ ¬ b < 128 := by
  simp only [isPair, isContinuation, Bool.and_eq_true, decide_eq_true_eq] at h
  grind

theorem not_lt_of_isTriple {a b c : UInt8} (h : isTriple a b c = true) :
    ¬ a < 128 ∧ ¬ b < 128 ∧ ¬ c < 128 := by
  simp only [isTriple, isContinuation, Bool.and_eq_true, Bool.or_eq_true, decide_eq_true_eq,
    beq_iff_eq] at h
  grind

theorem not_lt_of_isQuadruple {a b c d : UInt8} (h : isQuadruple a b c d = true) :
    ¬ a < 128 ∧ ¬ b < 128 ∧ ¬ c < 128 ∧ ¬ d < 128 := by
  simp only [isQuadruple, isContinuation, Bool.and_eq_true, Bool.or_eq_true, decide_eq_true_eq,
    beq_iff_eq] at h
  grind

theorem isUtf8_ascii {a : UInt8} (ha : a < 128) (rest : List UInt8) :
    isUtf8 (a :: rest) = isUtf8 rest := by
  rw [isUtf8.eq_def]
  simp only [ha, if_true]

theorem isUtf8_of_ascii {bytes : List UInt8} (h : bytes.all (· < 128) = true) :
    isUtf8 bytes = true := by
  induction bytes with
  | nil => rfl
  | cons b bytes ih =>
      rw [List.all_cons, Bool.and_eq_true] at h
      rw [isUtf8_ascii (of_decide_eq_true h.1)]
      exact ih h.2

theorem isUtf8_pair {a b : UInt8} (h : isPair a b = true) (rest : List UInt8) :
    isUtf8 (a :: b :: rest) = isUtf8 rest := by
  rw [isUtf8.eq_def]
  simp only [(not_lt_of_isPair h).1, if_false, h, if_true]

theorem isUtf8_triple {a b c : UInt8} (hpair : ¬ isPair a b = true) (h : isTriple a b c = true)
    (rest : List UInt8) : isUtf8 (a :: b :: c :: rest) = isUtf8 rest := by
  rw [isUtf8.eq_def]
  simp only [(not_lt_of_isTriple h).1, if_false, if_neg hpair, h, if_true]

theorem isUtf8_quadruple {a b c d : UInt8} (ha : ¬ a < 128) (hpair : ¬ isPair a b = true)
    (htriple : ¬ isTriple a b c = true) (rest : List UInt8) :
    isUtf8 (a :: b :: c :: d :: rest) = (isQuadruple a b c d && isUtf8 rest) := by
  rw [isUtf8.eq_def]
  simp only [ha, if_neg hpair, if_neg htriple, if_false]

theorem OnAscii.isUtf8_map {f : UInt8 → UInt8} (hf : OnAscii f) {bytes : List UInt8}
    (h : isUtf8 bytes = true) : isUtf8 (bytes.map f) = true := by
  induction bytes using isUtf8.induct with
  | case1 => rfl
  | case2 a rest ha ih =>
      rw [isUtf8_ascii ha] at h
      rw [List.map_cons, isUtf8_ascii (hf.ascii a ha)]
      exact ih h
  | case3 a ha b rest hpair ih =>
      rw [isUtf8_pair hpair] at h
      obtain ⟨_, hb⟩ := not_lt_of_isPair hpair
      rw [List.map_cons, List.map_cons, hf.rest a ha, hf.rest b hb, isUtf8_pair hpair]
      exact ih h
  | case4 a ha b hpair c rest htriple ih =>
      rw [isUtf8_triple hpair htriple] at h
      obtain ⟨_, hb, hc⟩ := not_lt_of_isTriple htriple
      rw [List.map_cons, List.map_cons, List.map_cons, hf.rest a ha, hf.rest b hb, hf.rest c hc,
        isUtf8_triple hpair htriple]
      exact ih h
  | case5 a ha b hpair c htriple d rest ih =>
      rw [isUtf8_quadruple ha hpair htriple, Bool.and_eq_true] at h
      obtain ⟨_, hb, hc, hd⟩ := not_lt_of_isQuadruple h.1
      rw [List.map_cons, List.map_cons, List.map_cons, List.map_cons, hf.rest a ha, hf.rest b hb,
        hf.rest c hc, hf.rest d hd, isUtf8_quadruple ha hpair htriple, h.1]
      exact ih h.2
  | case6 a ha b hpair c htriple =>
      rw [isUtf8.eq_def] at h
      simp only [ha, if_neg hpair, if_neg htriple, if_false, Bool.false_eq_true] at h
  | case7 a ha b hpair =>
      rw [isUtf8.eq_def] at h
      simp only [ha, if_neg hpair, if_false, Bool.false_eq_true] at h
  | case8 a ha =>
      rw [isUtf8.eq_def] at h
      simp only [ha, if_false, Bool.false_eq_true] at h

end ImpossibleVoice.Lib

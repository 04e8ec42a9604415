import Mathlib.Algebra.Order.Field.Basic
import Mathlib.Algebra.Order.Ring.Rat
import Mathlib.Data.List.TakeWhile
import Mathlib.Tactic.FieldSimp
import Mathlib.Tactic.Linarith
import Mathlib.Tactic.NormNum
import Mathlib.Tactic.Positivity
import Mathlib.Tactic.Ring

/-!
# Decimal numbers in C strings

A C string is the list of its bytes, without the NUL. The conversions of the C library
read the longest prefix that is a number and ignore what follows it: `atof` for decimals
with an exponent and for hexadecimals, `%d` for integers. Their values are exact; the
infinities and the NaNs that `atof` also reads are no rationals and are left out.

What a conversion makes of a number depends on the bytes behind it. `Literal.Harmless` says
which bytes leave the value of a decimal literal alone.

## Main definitions

* `isSpace`, `isDigit`, `isHexDigit`: the byte classes of the C locale.
* `atof`, `scanInt`: the conversions.
* `Literal`: a decimal literal, with its bytes and its value.
* `Literal.atof_append_iff`: when `atof` reads a literal off its front.
* `fixedDigits`: a number in a fixed number of digits.
-/

namespace Lib

/-- `isspace`: blank, tab, newline, vertical tab, form feed, carriage return. -/
def isSpace (b : UInt8) : Bool := b = 32 || (9 ≤ b && b ≤ 13)

/-- `isdigit`. -/
def isDigit (b : UInt8) : Bool := 48 ≤ b && b ≤ 57

/-- `isxdigit`. -/
def isHexDigit (b : UInt8) : Bool := isDigit b || (65 ≤ b && b ≤ 70) || (97 ≤ b && b ≤ 102)

def minus : UInt8 := 45
def plus : UInt8 := 43
def point : UInt8 := 46
def zero : UInt8 := 48

/-- The letter `e` of a decimal exponent, `p` of a binary one and `x` of a hexadecimal. -/
def letterE : UInt8 := 101
def letterP : UInt8 := 112
def letterHex : UInt8 := 120

/-- A lower case letter, or its upper case letter. -/
def isLetter (lower b : UInt8) : Bool := b = lower || b = lower - 32

/-- The value of a digit. -/
def digitOf (b : UInt8) : ℕ := b.toNat - 48

/-- The value of a hexadecimal digit. -/
def hexDigitOf (b : UInt8) : ℕ :=
  if isDigit b then b.toNat - 48 else if b ≤ 70 then b.toNat - 55 else b.toNat - 87

/-- The value of a string of digits in a base. -/
def numeral (base : ℕ) (digit : UInt8 → ℕ) (ds : List UInt8) : ℕ :=
  ds.foldl (fun n d => base * n + digit d) 0

def natOf (ds : List UInt8) : ℕ := numeral 10 digitOf ds

def hexOf (ds : List UInt8) : ℕ := numeral 16 hexDigitOf ds

/-- The value of a string of digits behind the point. -/
def fractionOf (ds : List UInt8) : ℚ := natOf ds / 10 ^ ds.length

/-- An optional sign, and what follows it. -/
def signOf : List UInt8 → ℤ × List UInt8
  | [] => (1, [])
  | b :: s => if b = minus then (-1, s) else if b = plus then (1, s) else (1, b :: s)

/-- The digits behind a point at the start of the string. -/
def fractionDigits (digit : UInt8 → Bool) : List UInt8 → List UInt8
  | [] => []
  | b :: s => if b = point then s.takeWhile digit else []

/-- What is behind a point and its digits, or the string if there is no point. -/
def afterFraction (digit : UInt8 → Bool) : List UInt8 → List UInt8
  | [] => []
  | b :: s => if b = point then s.dropWhile digit else b :: s

/-- The exponent at the start of the string, zero if there is none. -/
def exponentOf (letter : UInt8) : List UInt8 → ℤ
  | [] => 0
  | b :: s =>
    if isLetter letter b then
      let (sign, s) := signOf s
      sign * natOf (s.takeWhile isDigit)
    else 0

/-- The decimal at the start of the string. -/
def decimalOf (s : List UInt8) : ℚ :=
  let behind := s.dropWhile isDigit
  (natOf (s.takeWhile isDigit) + fractionOf (fractionDigits isDigit behind)) *
    10 ^ exponentOf letterE (afterFraction isDigit behind)

/-- The hexadecimal at the start of the string, behind its `0x`. -/
def hexadecimalOf (s : List UInt8) : ℚ :=
  let behind := s.dropWhile isHexDigit
  let ds := fractionDigits isHexDigit behind
  (hexOf (s.takeWhile isHexDigit) + hexOf ds / 16 ^ ds.length) *
    2 ^ exponentOf letterP (afterFraction isHexDigit behind)

/-- A number without its sign. Where there are no digits behind `0x`, the number is the zero
in front of it. -/
def unsignedOf : List UInt8 → ℚ
  | b :: x :: s =>
    if b = zero ∧ isLetter letterHex x then hexadecimalOf s else decimalOf (b :: x :: s)
  | s => decimalOf s

/-- `atof`: the value of the longest prefix that is a number, behind white space; zero if
there is none. -/
def atof (s : List UInt8) : ℚ :=
  let (sign, s) := signOf (s.dropWhile isSpace)
  sign * unsignedOf s

/-- The conversion `%d` of `sscanf`: the longest integer prefix, behind white space; `none`
if there is none. -/
def scanInt (s : List UInt8) : Option ℤ :=
  let (sign, s) := signOf (s.dropWhile isSpace)
  let ds := s.takeWhile isDigit
  if ds = [] then none else some (sign * natOf ds)

/-! ## Digits -/

theorem isDigit_iff {b : UInt8} : isDigit b = true ↔ 48 ≤ b.toNat ∧ b.toNat ≤ 57 := by
  simp only [isDigit, Bool.and_eq_true, decide_eq_true_eq, UInt8.le_iff_toNat_le]
  rfl

theorem isSpace_iff {b : UInt8} :
    isSpace b = true ↔ b.toNat = 32 ∨ (9 ≤ b.toNat ∧ b.toNat ≤ 13) := by
  simp only [isSpace, Bool.or_eq_true, Bool.and_eq_true, decide_eq_true_eq, UInt8.le_iff_toNat_le,
    ← UInt8.toNat_inj]
  rfl

theorem eq_zero_iff {d : UInt8} : d = zero ↔ d.toNat = 48 := by
  rw [← UInt8.toNat_inj]
  rfl

theorem isLetter_hex_iff {b : UInt8} :
    isLetter letterHex b = true ↔ b.toNat = 120 ∨ b.toNat = 88 := by
  simp only [isLetter, Bool.or_eq_true, decide_eq_true_eq, ← UInt8.toNat_inj]
  rfl

theorem digitOf_eq_zero_iff {d : UInt8} (h : isDigit d = true) : digitOf d = 0 ↔ d = zero := by
  rw [isDigit_iff] at h
  rw [eq_zero_iff, digitOf]
  omega

theorem hexDigitOf_eq_zero_iff {d : UInt8} (h : isHexDigit d = true) :
    hexDigitOf d = 0 ↔ d = zero := by
  simp only [isHexDigit, Bool.or_eq_true, Bool.and_eq_true, decide_eq_true_eq, isDigit_iff,
    UInt8.le_iff_toNat_le] at h
  change ((48 ≤ d.toNat ∧ d.toNat ≤ 57) ∨ (65 ≤ d.toNat ∧ d.toNat ≤ 70)) ∨
    (97 ≤ d.toNat ∧ d.toNat ≤ 102) at h
  have hle : d ≤ 70 ↔ d.toNat ≤ 70 := UInt8.le_iff_toNat_le
  simp only [hexDigitOf, isDigit_iff, hle, eq_zero_iff]
  split_ifs <;> omega

theorem numeral_append (base : ℕ) (digit : UInt8 → ℕ) (ds es : List UInt8) :
    numeral base digit (ds ++ es) = numeral base digit ds * base ^ es.length +
      numeral base digit es := by
  induction es using List.reverseRecOn with
  | nil => simp [numeral]
  | append_singleton es e ih =>
      have hstep : ∀ fs : List UInt8, numeral base digit (fs ++ [e]) =
          base * numeral base digit fs + digit e := fun fs => by simp [numeral]
      rw [← List.append_assoc, hstep, hstep, ih, List.length_append, List.length_singleton]
      ring

theorem numeral_eq_zero_iff {base : ℕ} (hbase : base ≠ 0) {digit : UInt8 → ℕ} {ds : List UInt8} :
    numeral base digit ds = 0 ↔ ∀ d ∈ ds, digit d = 0 := by
  induction ds using List.reverseRecOn with
  | nil => simp [numeral]
  | append_singleton ds d ih =>
      rw [numeral_append, Nat.add_eq_zero_iff, Nat.mul_eq_zero, ih]
      simp [numeral, hbase, or_imp, forall_and]

theorem natOf_append_singleton (ds : List UInt8) (d : UInt8) :
    natOf (ds ++ [d]) = 10 * natOf ds + (d.toNat - 48) := by
  simp [natOf, numeral, digitOf]

theorem natOf_append (ds es : List UInt8) :
    natOf (ds ++ es) = natOf ds * 10 ^ es.length + natOf es := numeral_append 10 digitOf ds es

/-- A digit string is worth nothing if and only if it is all zeros. -/
theorem natOf_eq_zero_iff {ds : List UInt8} (h : ∀ d ∈ ds, isDigit d) :
    natOf ds = 0 ↔ ∀ d ∈ ds, d = zero := by
  rw [natOf, numeral_eq_zero_iff (by decide)]
  exact forall₂_congr fun d hd => digitOf_eq_zero_iff (h d hd)

theorem hexOf_eq_zero_iff {ds : List UInt8} (h : ∀ d ∈ ds, isHexDigit d) :
    hexOf ds = 0 ↔ ∀ d ∈ ds, d = zero := by
  rw [hexOf, numeral_eq_zero_iff (by decide)]
  exact forall₂_congr fun d hd => hexDigitOf_eq_zero_iff (h d hd)

theorem natOf_lt {ds : List UInt8} (h : ∀ d ∈ ds, isDigit d) : natOf ds < 10 ^ ds.length := by
  induction ds using List.reverseRecOn with
  | nil => simp [natOf, numeral]
  | append_singleton ds d ih =>
      have hd := isDigit_iff.mp (h d (by simp))
      have hds := ih fun d' hd' => h d' (by simp [hd'])
      rw [natOf_append_singleton, List.length_append, List.length_singleton, pow_succ]
      omega

theorem fractionOf_nonneg (ds : List UInt8) : 0 ≤ fractionOf ds := by
  rw [fractionOf]
  positivity

theorem fractionOf_lt_one {ds : List UInt8} (h : ∀ d ∈ ds, isDigit d) : fractionOf ds < 1 := by
  have hlt : (natOf ds : ℚ) < 10 ^ ds.length := by exact_mod_cast natOf_lt h
  rw [fractionOf, div_lt_one (by positivity)]
  exact hlt

theorem fractionOf_eq_zero_iff {ds : List UInt8} (h : ∀ d ∈ ds, isDigit d) :
    fractionOf ds = 0 ↔ ∀ d ∈ ds, d = zero := by
  rw [← natOf_eq_zero_iff h, fractionOf, div_eq_zero_iff, or_iff_left (by positivity),
    Nat.cast_eq_zero]

theorem isDigit_of_mem_takeWhile {s : List UInt8} {d : UInt8} (h : d ∈ s.takeWhile isDigit) :
    isDigit d = true := List.mem_takeWhile_imp h

theorem mem_fractionDigits {digit : UInt8 → Bool} {s : List UInt8} {d : UInt8}
    (h : d ∈ fractionDigits digit s) : digit d = true := by
  cases s with
  | nil => cases h
  | cons b s =>
      rw [fractionDigits] at h
      split_ifs at h
      · exact List.mem_takeWhile_imp h
      · cases h

theorem not_isSpace_of_isDigit {b : UInt8} (h : isDigit b = true) : isSpace b = false := by
  rw [isDigit_iff] at h
  rw [Bool.eq_false_iff, Ne, isSpace_iff]
  omega

/-- Read as a decimal, a hexadecimal is the zero at its start. -/
theorem decimalOf_hex {x : UInt8} (hx : isLetter letterHex x = true) (s : List UInt8) :
    decimalOf (zero :: x :: s) = 0 := by
  rw [isLetter_hex_iff] at hx
  have hdigit : isDigit x = false := by
    rw [Bool.eq_false_iff, Ne, isDigit_iff]
    omega
  have hpoint : x ≠ point := by
    rintro rfl
    exact absurd hx (by decide)
  have hzero : isDigit zero = true := by decide
  have hnone : fractionDigits isDigit (x :: s) = [] := by rw [fractionDigits, if_neg hpoint]
  have hvalue : natOf [zero] = 0 := by decide
  have hfraction : fractionOf [] = 0 := by decide +kernel
  simp [decimalOf, hdigit, hzero, hnone, hvalue, hfraction]

/-- A hexadecimal is worth nothing if and only if its digits are all zeros. -/
theorem hexadecimalOf_eq_zero_iff (s : List UInt8) : hexadecimalOf s = 0 ↔
    ∀ d ∈ s.takeWhile isHexDigit ++ fractionDigits isHexDigit (s.dropWhile isHexDigit),
      d = zero := by
  have hwhole : ∀ d ∈ s.takeWhile isHexDigit, isHexDigit d = true := fun d hd =>
    List.mem_takeWhile_imp hd
  have hfraction : ∀ d ∈ fractionDigits isHexDigit (s.dropWhile isHexDigit), isHexDigit d = true :=
    fun d hd => mem_fractionDigits hd
  rw [hexadecimalOf, mul_eq_zero, or_iff_left (zpow_ne_zero _ two_ne_zero),
    add_eq_zero_iff_of_nonneg (by positivity) (by positivity), div_eq_zero_iff,
    or_iff_left (by positivity), Nat.cast_eq_zero, Nat.cast_eq_zero, hexOf_eq_zero_iff hwhole,
    hexOf_eq_zero_iff hfraction, List.forall_mem_append]

/-! ## Decimal literals -/

/-- A plain decimal literal: an optional minus sign, digits, an optional fraction. -/
structure Literal where
  neg : Bool
  whole : List UInt8
  fraction : Option (List UInt8)
  whole_ne_nil : whole ≠ []
  whole_digits : ∀ d ∈ whole, isDigit d
  fraction_digits : ∀ ds ∈ fraction, ∀ d ∈ ds, isDigit d

namespace Literal

/-- The literal without its sign. -/
def unsigned (l : Literal) : List UInt8 :=
  l.whole ++ match l.fraction with
    | some ds => point :: ds
    | none => []

def chars (l : Literal) : List UInt8 := if l.neg then minus :: l.unsigned else l.unsigned

def sign (l : Literal) : ℤ := if l.neg then -1 else 1

def value (l : Literal) : ℚ := l.sign * (natOf l.whole + fractionOf (l.fraction.getD []))

/-- Behind the literal the bytes add no digits but zeros, in front of the point or behind it;
and unless the literal is zero, they add an exponent only to make good for the digits that they
add in front of the point. -/
def DecimalHarmless (l : Literal) (t : List UInt8) : Prop :=
  let ds := t.takeWhile isDigit
  let behind := t.dropWhile isDigit
  (∀ d ∈ ds, d = zero) ∧
    match l.fraction with
    | some _ => l.value = 0 ∨ exponentOf letterE behind = 0
    | none => (∀ d ∈ fractionDigits isDigit behind, d = zero) ∧
        (l.value = 0 ∨ exponentOf letterE (afterFraction isDigit behind) = -ds.length)

/-- The bytes behind the literal do not change its value. A single zero must not become a
hexadecimal either, but for one that is zero. -/
def Harmless (l : Literal) (t : List UInt8) : Prop :=
  l.DecimalHarmless t ∧ (l.unsigned = [zero] →
    ∀ x s, t = x :: s → isLetter letterHex x →
      ∀ d ∈ s.takeWhile isHexDigit ++ fractionDigits isHexDigit (s.dropWhile isHexDigit), d = zero)

variable (l : Literal)

theorem sign_ne_zero : (l.sign : ℚ) ≠ 0 := by
  rw [sign]
  split_ifs <;> norm_num

/-- The literal begins with a digit or with its sign. -/
theorem unsigned_eq : ∃ d s, l.unsigned = d :: s ∧ isDigit d = true := by
  obtain ⟨d, ds, hwhole⟩ := List.exists_cons_of_ne_nil l.whole_ne_nil
  refine ⟨d, _, by rw [unsigned, hwhole, List.cons_append], l.whole_digits d ?_⟩
  rw [hwhole]
  exact List.mem_cons_self

theorem signOf_chars (t : List UInt8) :
    signOf ((l.chars ++ t).dropWhile isSpace) = (l.sign, l.unsigned ++ t) := by
  obtain ⟨d, s, hs, hd⟩ := l.unsigned_eq
  cases hneg : l.neg with
  | true =>
      rw [chars, sign, hneg, if_pos rfl, if_pos rfl, List.cons_append,
        List.dropWhile_cons_of_neg (by decide)]
      rfl
  | false =>
      have hminus : d ≠ minus := by
        rintro rfl
        exact absurd hd (by decide)
      have hplus : d ≠ plus := by
        rintro rfl
        exact absurd hd (by decide)
      rw [chars, sign, hneg, if_neg Bool.false_ne_true, if_neg Bool.false_ne_true, hs,
        List.cons_append, List.dropWhile_cons_of_neg (by simp [not_isSpace_of_isDigit hd]), signOf,
        if_neg hminus, if_neg hplus]

/-- What the decimal at the start of the string is, for a literal with more bytes behind it. -/
theorem decimalOf_append (t : List UInt8) : decimalOf (l.unsigned ++ t) =
    match l.fraction with
    | some ds => (natOf l.whole + fractionOf (ds ++ t.takeWhile isDigit)) *
        10 ^ exponentOf letterE (t.dropWhile isDigit)
    | none => (natOf (l.whole ++ t.takeWhile isDigit) +
          fractionOf (fractionDigits isDigit (t.dropWhile isDigit))) *
        10 ^ exponentOf letterE (afterFraction isDigit (t.dropWhile isDigit)) := by
  rw [decimalOf, unsigned]
  have hwhole : ∀ d ∈ l.whole, isDigit d = true := l.whole_digits
  cases hfrac : l.fraction with
  | some ds =>
      have hds : ∀ d ∈ ds, isDigit d = true := l.fraction_digits ds hfrac
      have hpoint : ¬ isDigit point = true := by decide
      simp only [List.append_assoc, List.cons_append, List.takeWhile_append_of_pos hwhole,
        List.dropWhile_append_of_pos hwhole, List.takeWhile_cons_of_neg hpoint,
        List.dropWhile_cons_of_neg hpoint, fractionDigits, afterFraction, if_true,
        List.takeWhile_append_of_pos hds, List.dropWhile_append_of_pos hds, List.append_nil]
  | none =>
      simp only [List.append_nil, List.takeWhile_append_of_pos hwhole,
        List.dropWhile_append_of_pos hwhole]

/-- A whole number with `n` more digits and a fraction behind it, together `δ`, and scaled by a
power of ten: it is what it was if and only if `δ` is nothing and the power takes the digits
back. -/
theorem scaled_eq_iff {m n : ℕ} {δ : ℚ} (hnonneg : 0 ≤ δ) (hlt : δ < 10 ^ n) (k : ℤ) :
    ((m : ℚ) * 10 ^ n + δ) * 10 ^ k = m ↔ δ = 0 ∧ ((m : ℚ) = 0 ∨ k = -n) := by
  have hten : (10 : ℚ) ≠ 0 := by norm_num
  have hpow : (0 : ℚ) < 10 ^ n := by positivity
  have hm : (0 : ℚ) ≤ m * 10 ^ n := by positivity
  have hle : ∀ (i : ℕ) {q : ℚ}, 0 ≤ q → q * 10 ≤ q * 10 ^ (i + 1) := by
    intro i q hq
    apply mul_le_mul_of_nonneg_left _ hq
    exact le_self_pow₀ (by norm_num) (Nat.succ_ne_zero i)
  obtain ⟨j, rfl⟩ : ∃ j : ℤ, k = j - n := ⟨k + n, by ring⟩
  have hj : j - n = -(n : ℤ) ↔ j = 0 := by omega
  rw [hj, zpow_sub₀ hten, zpow_natCast, ← mul_div_assoc, div_eq_iff hpow.ne']
  rcases j with (_ | i) | i
  · simp
  · -- a larger power: only zero stays what it is
    have hne : ¬ Int.ofNat (i + 1) = 0 := Int.natCast_ne_zero.mpr (Nat.succ_ne_zero i)
    rw [or_iff_left hne, Int.ofNat_eq_natCast, zpow_natCast]
    constructor
    · intro h
      have hgrow := hle i (add_nonneg hm hnonneg)
      have hzero : (m : ℚ) * 10 ^ n = 0 := by linarith
      exact ⟨by linarith, (mul_eq_zero.mp hzero).resolve_right hpow.ne'⟩
    · rintro ⟨rfl, hm0⟩
      rw [hm0, zero_mul, add_zero, zero_mul]
  · -- a smaller power: what was added is less than one unit of the whole number
    have hne : ¬ Int.negSucc i = 0 := by simp
    rw [or_iff_left hne, zpow_negSucc, mul_inv_eq_iff_eq_mul₀ (by positivity)]
    constructor
    · intro h
      have hgrow := hle i hm
      have hm0 : m = 0 := by
        by_contra hpos
        have hunit : (1 : ℚ) * 10 ^ n ≤ m * 10 ^ n := by
          apply mul_le_mul_of_nonneg_right _ hpow.le
          exact_mod_cast Nat.one_le_iff_ne_zero.mpr hpos
        linarith
      subst hm0
      exact ⟨by simpa using h, Nat.cast_zero⟩
    · rintro ⟨rfl, hm0⟩
      rw [hm0, zero_mul, add_zero, zero_mul]

theorem value_eq_zero_iff :
    l.value = 0 ↔ (natOf l.whole : ℚ) + fractionOf (l.fraction.getD []) = 0 := by
  rw [value, mul_eq_zero, or_iff_right l.sign_ne_zero]

/-- The digits on both sides of the point, as one number. -/
theorem add_fractionOf (ws ds : List UInt8) :
    (natOf ws : ℚ) + fractionOf ds = natOf (ws ++ ds) / 10 ^ ds.length := by
  rw [fractionOf, natOf_append]
  push_cast
  field_simp

/-- Reading the decimal at the start of the string. -/
theorem decimalOf_append_iff (t : List UInt8) :
    decimalOf (l.unsigned ++ t) = natOf l.whole + fractionOf (l.fraction.getD []) ↔
      l.DecimalHarmless t := by
  have ht : ∀ d ∈ t.takeWhile isDigit, isDigit d = true := fun d => isDigit_of_mem_takeWhile
  have hlt : (natOf (t.takeWhile isDigit) : ℚ) + 1 ≤ 10 ^ (t.takeWhile isDigit).length := by
    exact_mod_cast natOf_lt ht
  rw [decimalOf_append, DecimalHarmless, value_eq_zero_iff]
  cases hfrac : l.fraction with
  | some ds =>
      have hshift : ∀ (k : ℤ) (m w e : ℕ) (δ : ℚ),
          (m * 10 ^ e + δ) / 10 ^ (w + e) * 10 ^ k = (m : ℚ) / 10 ^ w ↔
            ((m : ℚ) * 10 ^ e + δ) * 10 ^ (k - e) = m := by
        intro k m w e δ
        rw [eq_div_iff (by positivity), zpow_sub₀ (by norm_num), zpow_natCast, pow_add]
        field_simp
      have hk : ∀ k n : ℤ, k - n = -n ↔ k = 0 := by omega
      have hpow : ¬ (10 : ℚ) ^ ds.length = 0 := by positivity
      simp only [Option.getD_some]
      rw [add_fractionOf, add_fractionOf, ← List.append_assoc, natOf_append, Nat.cast_add,
        Nat.cast_mul, Nat.cast_pow, Nat.cast_ofNat, List.length_append, hshift,
        scaled_eq_iff (by positivity) (by linarith), hk, Nat.cast_eq_zero, natOf_eq_zero_iff ht,
        div_eq_zero_iff, or_iff_left hpow]
  | none =>
      have hf : ∀ d ∈ fractionDigits isDigit (t.dropWhile isDigit), isDigit d = true :=
        fun d => mem_fractionDigits
      have hempty : fractionOf [] = 0 := by simp [fractionOf, natOf, numeral]
      have hfone := fractionOf_lt_one hf
      have hnonneg := fractionOf_nonneg (fractionDigits isDigit (t.dropWhile isDigit))
      simp only [Option.getD_none, hempty, add_zero]
      rw [natOf_append, Nat.cast_add, Nat.cast_mul, Nat.cast_pow, add_assoc, Nat.cast_ofNat,
        scaled_eq_iff (by positivity) (by linarith), add_eq_zero_iff_of_nonneg (by positivity) hnonneg,
        Nat.cast_eq_zero, natOf_eq_zero_iff ht, fractionOf_eq_zero_iff hf, and_assoc]

/-- No literal begins with `0x`. -/
theorem unsigned_second {d x : UInt8} {s : List UInt8} (h : l.unsigned = d :: x :: s) :
    isLetter letterHex x = false := by
  have hx : isDigit x = true ∨ x = point := by
    rw [unsigned] at h
    cases hwhole : l.whole with
    | nil => exact absurd hwhole l.whole_ne_nil
    | cons a w =>
        rw [hwhole, List.cons_append] at h
        obtain ⟨-, h⟩ := List.cons_eq_cons.mp h
        cases w with
        | nil =>
            right
            cases hfrac : l.fraction with
            | none => simp [hfrac] at h
            | some ds =>
                rw [hfrac, List.nil_append] at h
                exact (List.cons_eq_cons.mp h).1.symm
        | cons b w =>
            left
            obtain ⟨rfl, -⟩ := List.cons_eq_cons.mp h
            exact l.whole_digits _ (by simp [hwhole])
  rcases hx with hx | rfl
  · rw [isDigit_iff] at hx
    rw [Bool.eq_false_iff, Ne, isLetter_hex_iff]
    omega
  · decide

/-- Without `0x` at its start the number is a decimal. -/
theorem unsignedOf_append {t : List UInt8}
    (h : l.unsigned = [zero] → ∀ x s, t = x :: s → ¬ isLetter letterHex x) :
    unsignedOf (l.unsigned ++ t) = decimalOf (l.unsigned ++ t) := by
  obtain ⟨d, s, hs, -⟩ := l.unsigned_eq
  cases s with
  | cons x s =>
      have hx := l.unsigned_second hs
      rw [hs, List.cons_append, List.cons_append, unsignedOf, if_neg]
      simp [hx]
  | nil =>
      cases t with
      | nil => rw [hs]; rfl
      | cons x t =>
          rw [hs, List.cons_append, List.nil_append, unsignedOf, if_neg]
          rintro ⟨rfl, hx⟩
          exact h hs x t rfl hx

/-- The literal without its sign is the decimal that it looks like. -/
theorem decimalOf_unsigned :
    decimalOf l.unsigned = natOf l.whole + fractionOf (l.fraction.getD []) := by
  have hharmless : l.DecimalHarmless [] := by
    rw [DecimalHarmless]
    cases l.fraction <;> simp [fractionDigits, afterFraction, exponentOf]
  simpa using (l.decimalOf_append_iff []).mpr hharmless

/-- **Reading a literal off the front of a string** gives its value if and only if the
bytes behind it are harmless. -/
theorem atof_append_iff (t : List UInt8) : atof (l.chars ++ t) = l.value ↔ l.Harmless t := by
  rw [atof, signOf_chars, value, mul_right_inj' l.sign_ne_zero, Harmless]
  by_cases hhex : ∃ x s, l.unsigned = [zero] ∧ t = x :: s ∧ isLetter letterHex x = true
  · obtain ⟨x, s, hzero, rfl, hx⟩ := hhex
    have hvalue : decimalOf l.unsigned = 0 := by
      rw [hzero]
      decide +kernel
    have hdecimal : decimalOf (l.unsigned ++ x :: s) = 0 := by
      rw [hzero]
      exact decimalOf_hex hx s
    have hread : unsignedOf (l.unsigned ++ x :: s) = hexadecimalOf s := by
      rw [hzero, List.cons_append, List.nil_append, unsignedOf, if_pos ⟨rfl, hx⟩]
    rw [← l.decimalOf_append_iff, ← decimalOf_unsigned, hvalue, hdecimal, hread,
      and_iff_right rfl, hexadecimalOf_eq_zero_iff]
    constructor
    · intro hdigits _ x' s' heq _
      obtain ⟨-, rfl⟩ := List.cons_eq_cons.mp heq
      exact hdigits
    · intro h
      exact h hzero x s rfl hx
  · have hplain : l.unsigned = [zero] → ∀ x s, t = x :: s → ¬ isLetter letterHex x :=
      fun hzero x s ht hx => hhex ⟨x, s, hzero, ht, hx⟩
    rw [l.unsignedOf_append hplain, l.decimalOf_append_iff]
    exact (and_iff_left fun hzero x s ht hx => absurd hx (hplain hzero x s ht)).symm

/-- The end of the string ends a literal. -/
theorem atof_chars : atof l.chars = l.value := by
  have hplain : l.unsigned = [zero] → ∀ x s, [] = x :: s → ¬ isLetter letterHex x :=
    fun _ _ _ h => nomatch h
  have hsign := l.signOf_chars []
  have hread := l.unsignedOf_append hplain
  rw [List.append_nil, List.append_nil] at hsign
  rw [List.append_nil, decimalOf_unsigned] at hread
  rw [atof, hsign, value, ← hread]

/-- `%d` on a whole literal. -/
theorem scanInt_chars (h : l.fraction = none) : scanInt l.chars = some (l.sign * natOf l.whole) := by
  have hsign := l.signOf_chars []
  rw [List.append_nil, List.append_nil, unsigned, h, List.append_nil] at hsign
  have hdigits : l.whole.takeWhile isDigit = l.whole :=
    List.takeWhile_eq_self_iff.mpr l.whole_digits
  rw [scanInt, hsign]
  simp only [hdigits, if_neg l.whole_ne_nil]

end Literal

/-! ## Numbers of a fixed width -/

/-- The last `w` decimal digits of `n`. -/
def fixedDigits : ℕ → ℕ → List UInt8
  | 0, _ => []
  | w + 1, n => fixedDigits w (n / 10) ++ [UInt8.ofNat (48 + n % 10)]

theorem fixedDigits_succ_ne_nil (w n : ℕ) : fixedDigits (w + 1) n ≠ [] :=
  List.append_ne_nil_of_right_ne_nil _ (List.cons_ne_nil _ _)

theorem length_fixedDigits (w n : ℕ) : (fixedDigits w n).length = w := by
  induction w generalizing n with
  | zero => rfl
  | succ w ih => rw [fixedDigits, List.length_append, ih, List.length_singleton]

theorem toNat_digit (n : ℕ) : (UInt8.ofNat (48 + n % 10)).toNat = 48 + n % 10 := by
  rw [UInt8.toNat_ofNat']
  omega

theorem isDigit_of_mem_fixedDigits {w n : ℕ} {d : UInt8} (h : d ∈ fixedDigits w n) :
    isDigit d = true := by
  induction w generalizing n with
  | zero => cases h
  | succ w ih =>
      rcases List.mem_append.mp h with h | h
      · exact ih h
      · rw [List.mem_singleton.mp h, isDigit_iff, toNat_digit]
        omega

/-- The digits are read back, up to what does not fit. -/
theorem natOf_fixedDigits (w n : ℕ) : natOf (fixedDigits w n) = n % 10 ^ w := by
  induction w generalizing n with
  | zero => rw [pow_zero, Nat.mod_one]; rfl
  | succ w ih =>
      rw [fixedDigits, natOf_append_singleton, ih, toNat_digit, pow_succ', Nat.mod_mul]
      omega

/-- A number of hundredths, with four digits in front of the point and two behind it. -/
def Literal.hundredths (n : ℕ) : Literal where
  neg := false
  whole := fixedDigits 4 (n / 100)
  fraction := some (fixedDigits 2 n)
  whole_ne_nil := fixedDigits_succ_ne_nil 3 (n / 100)
  whole_digits := fun _ h => isDigit_of_mem_fixedDigits h
  fraction_digits := fun _ hds _ hd =>
    isDigit_of_mem_fixedDigits (Option.mem_some.mp hds ▸ hd)

theorem Literal.length_hundredths (n : ℕ) : (Literal.hundredths n).chars.length = 7 := by
  simp [Literal.chars, Literal.unsigned, Literal.hundredths, length_fixedDigits]

theorem Literal.value_hundredths {n : ℕ} (h : n < 1000000) :
    (Literal.hundredths n).value = n / 100 := by
  have hwhole : natOf (fixedDigits 4 (n / 100)) = n / 100 := by
    rw [natOf_fixedDigits]
    omega
  have hfraction : natOf (fixedDigits 2 n) = n % 100 := natOf_fixedDigits 2 n
  have hsplit : (n : ℚ) = 100 * ((n / 100 : ℕ) : ℚ) + ((n % 100 : ℕ) : ℚ) := by
    exact_mod_cast (Nat.div_add_mod n 100).symm
  simp only [Literal.value, Literal.sign, Literal.hundredths, Bool.false_eq_true, if_false,
    Option.getD_some, hwhole, fractionOf, hfraction, length_fixedDigits]
  rw [hsplit]
  push_cast
  ring

end Lib

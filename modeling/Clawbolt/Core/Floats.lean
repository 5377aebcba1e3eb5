/-
Python's floats read as the exact decimals they print, with their special values: products and sums, `float(text)`, and the
formats `.2f` and `g`. A product or a sum is not rounded and has no greatest value.

- `mul_comm`, `isFinite_mul`: what a product is;
- `abs_sub_roundHalfEven_le`: a rounded number is at most a half away;
- `abs_sum_sub_le`: how far a sum of rounded numbers is from the rounded sum.
-/
import Mathlib.Tactic
import Mathlib.Data.Int.Log
import Clawbolt.Core.Text

namespace Floats

open Text (Str)

inductive Number where
  | finite (q : ℚ)
  | infinite (negative : Bool)
  | nan
deriving DecidableEq

namespace Number

def isFinite : Number → Bool
  | finite _ => true
  | _ => false

def mul : Number → Number → Number
  | nan, _ | _, nan => nan
  | finite a, finite b => finite (a * b)
  | infinite s, infinite t => infinite (s != t)
  | infinite s, finite b | finite b, infinite s => if b = 0 then nan else infinite (s != decide (b < 0))

def add : Number → Number → Number
  | nan, _ | _, nan => nan
  | finite a, finite b => finite (a + b)
  | infinite s, infinite t => if s = t then infinite s else nan
  | infinite s, finite _ | finite _, infinite s => infinite s

theorem mul_swap (a b : Number) : a.mul b = b.mul a := by
  cases a with
  | finite x =>
    cases b with
    | finite y => simp only [mul, mul_comm]
    | infinite t => rfl
    | nan => rfl
  | infinite s =>
    cases b with
    | finite y => rfl
    | infinite t => simp only [mul, bne_comm]
    | nan => rfl
  | nan => cases b <;> rfl

/-- a product is finite exactly when both factors are -/
theorem isFinite_mul (a b : Number) : (a.mul b).isFinite = (a.isFinite && b.isFinite) := by
  cases a with
  | finite x =>
    cases b with
    | finite y => rfl
    | infinite t =>
      simp only [mul]
      split <;> rfl
    | nan => rfl
  | infinite s =>
    cases b with
    | finite y =>
      simp only [mul]
      split <;> rfl
    | infinite t => rfl
    | nan => rfl
  | nan => cases b <;> rfl

/-- the sum, from zero on -/
def sum (xs : List Number) : Number := xs.foldl add (finite 0)

theorem foldl_add_finite (x : ℚ) (qs : List ℚ) : (qs.map finite).foldl add (finite x) = finite (x + qs.sum) := by
  induction qs generalizing x with
  | nil => simp
  | cons q qs ih => rw [List.map_cons, List.foldl_cons, add, ih, List.sum_cons, add_assoc]

theorem sum_finite (qs : List ℚ) : sum (qs.map finite) = finite qs.sum := by
  rw [sum, foldl_add_finite, zero_add]

end Number

/-! ## Rounding -/

/-- the nearest integer, the even one of two -/
def roundHalfEven (q : ℚ) : ℤ :=
  if q - ⌊q⌋ < 1 / 2 then ⌊q⌋ else if 1 / 2 < q - ⌊q⌋ then ⌊q⌋ + 1 else if ⌊q⌋ % 2 = 0 then ⌊q⌋ else ⌊q⌋ + 1

theorem abs_sub_roundHalfEven_le (q : ℚ) : |q - roundHalfEven q| ≤ 1 / 2 := by
  have h0 : 0 ≤ q - ⌊q⌋ := sub_nonneg.2 (Int.floor_le q)
  have h1 : q - ⌊q⌋ < 1 := by linarith [Int.lt_floor_add_one q]
  rw [roundHalfEven]
  split_ifs with hlow hhigh heven
  · rw [abs_of_nonneg h0]
    exact hlow.le
  · rw [Int.cast_add, Int.cast_one, abs_le]
    constructor <;> linarith
  · rw [abs_of_nonneg h0]
    exact not_lt.1 hhigh
  · rw [Int.cast_add, Int.cast_one, abs_le]
    constructor <;> linarith

/-- the nearest multiple of `u` -/
def toUnit (u q : ℚ) : ℚ := roundHalfEven (q / u) * u

theorem abs_sub_toUnit_le {u : ℚ} (hu : 0 < u) (q : ℚ) : |q - toUnit u q| ≤ u / 2 := by
  have hsub : q - toUnit u q = (q / u - roundHalfEven (q / u)) * u := by
    rw [toUnit, sub_mul, div_mul_cancel₀ q hu.ne']
  rw [hsub, abs_mul, abs_of_pos hu]
  calc |q / u - roundHalfEven (q / u)| * u ≤ 1 / 2 * u :=
        mul_le_mul_of_nonneg_right (abs_sub_roundHalfEven_le _) hu.le
    _ = u / 2 := by ring

/-- the rounded sum is at most half a unit, and half a unit more for each summand, from the sum of the rounded -/
theorem abs_sum_sub_le {u : ℚ} (hu : 0 < u) (qs : List ℚ) :
    |qs.sum - (qs.map (toUnit u)).sum| ≤ qs.length * (u / 2) := by
  induction qs with
  | nil => simp
  | cons q qs ih =>
    rw [List.map_cons, List.sum_cons, List.sum_cons, List.length_cons, Nat.cast_succ]
    calc |q + qs.sum - (toUnit u q + (qs.map (toUnit u)).sum)|
        = |(q - toUnit u q) + (qs.sum - (qs.map (toUnit u)).sum)| := by congr 1; ring
      _ ≤ |q - toUnit u q| + |qs.sum - (qs.map (toUnit u)).sum| := abs_add_le _ _
      _ ≤ u / 2 + qs.length * (u / 2) := add_le_add (abs_sub_toUnit_le hu q) ih
      _ = (qs.length + 1) * (u / 2) := by ring

theorem abs_toUnit_sum_sub_le {u : ℚ} (hu : 0 < u) (qs : List ℚ) :
    |toUnit u qs.sum - (qs.map (toUnit u)).sum| ≤ (qs.length + 1) * (u / 2) := by
  calc |toUnit u qs.sum - (qs.map (toUnit u)).sum|
      = |(qs.sum - (qs.map (toUnit u)).sum) - (qs.sum - toUnit u qs.sum)| := by congr 1; ring
    _ ≤ |qs.sum - (qs.map (toUnit u)).sum| + |qs.sum - toUnit u qs.sum| := abs_sub _ _
    _ ≤ qs.length * (u / 2) + u / 2 := add_le_add (abs_sum_sub_le hu qs) (abs_sub_toUnit_le hu _)
    _ = (qs.length + 1) * (u / 2) := by ring

/-! ## Texts -/

/-- the digits of a number, at least `n` of them -/
def padded (n m : ℕ) : Str := List.replicate (n - (Nat.toDigits 10 m).length) '0' ++ Nat.toDigits 10 m

/-- a number of units of `10 ^ -places`, with a point -/
def pointed (places m : ℕ) : Str :=
  let digits := padded (places + 1) m
  digits.take (digits.length - places) ++ '.' :: digits.drop (digits.length - places)

def special : Number → Str
  | .infinite true => "-inf".toList
  | .infinite false => "inf".toList
  | _ => "nan".toList

def sign (q : ℚ) : Str := if q < 0 then ['-'] else []

/-- `f"{x:.<places>f}"` -/
def fixed (places : ℕ) : Number → Str
  | .finite q => sign q ++ pointed places (roundHalfEven (|q| * 10 ^ places)).toNat
  | x => special x

/-- the zeros at the end of a fraction, and its point where nothing is left -/
def dropZeros (t : Str) : Str := (t.rdropWhile (· = '0')).rdropWhile (· = '.')

/-- six digits `m`, the first of them at `10 ^ e` -/
def generalDigits (m : ℕ) (e : ℤ) : Str :=
  if -4 ≤ e ∧ e < 6 then dropZeros (pointed (5 - e).toNat m)
  else dropZeros (pointed 5 m) ++ 'e' :: (if e < 0 then '-' else '+') :: padded 2 e.natAbs

/-- `f"{x:g}"` -/
def general : Number → Str
  | .finite q =>
    if q = 0 then ['0']
    else
      let e := Int.log 10 |q|
      let m := (roundHalfEven (|q| / 10 ^ (e - 5))).toNat
      sign q ++ if m = 10 ^ 6 then generalDigits (10 ^ 5) (e + 1) else generalDigits m e
  | x => special x

/-! ## Reading -/

/-- an underscore stands between two digits -/
def dropUnderscores : Bool → Str → Option Str
  | _, [] => some []
  | afterDigit, '_' :: cs =>
    if afterDigit && cs.head?.any Char.isDigit then dropUnderscores false cs else none
  | _, c :: cs => (dropUnderscores c.isDigit cs).map (c :: ·)

/-- a sign in front, and the text after it -/
def splitSign : Str → Bool × Str
  | '-' :: cs => (true, cs)
  | '+' :: cs => (false, cs)
  | cs => (false, cs)

def natOf (digits : Str) : ℕ := digits.foldl (fun n c => 10 * n + (c.toNat - '0'.toNat)) 0

def exponentOf : Str → Option ℤ
  | [] => some 0
  | c :: cs =>
    let (negative, digits) := splitSign cs
    if (c = 'e' ∨ c = 'E') ∧ digits ≠ [] ∧ digits.all Char.isDigit then
      some (if negative then -(natOf digits : ℤ) else natOf digits)
    else none

/-- digits with a point and an exponent -/
def decimalOf (t : Str) : Option ℚ :=
  let whole := t.takeWhile Char.isDigit
  let rest := t.dropWhile Char.isDigit
  let fraction := if rest.head? = some '.' then rest.tail.takeWhile Char.isDigit else []
  let rest := if rest.head? = some '.' then rest.tail.dropWhile Char.isDigit else rest
  if whole = [] ∧ fraction = [] then none
  else (exponentOf rest).map fun e : ℤ => natOf (whole ++ fraction) * (10 : ℚ) ^ (e - (fraction.length : ℤ))

/-- `float(text)`, of ASCII digits; none for a `ValueError` -/
def ofText (t : Str) : Option Number :=
  (dropUnderscores false (Text.strip t)).bind fun t =>
    let (negative, body) := splitSign t
    let word := body.map Char.toLower
    if word = "inf".toList ∨ word = "infinity".toList then some (.infinite negative)
    else if word = "nan".toList then some .nan
    else (decimalOf body).map fun q => .finite (if negative then -q else q)

end Floats

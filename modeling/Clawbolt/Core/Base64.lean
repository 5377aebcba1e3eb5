/-
`base64.urlsafe_b64encode` and `base64.urlsafe_b64decode`, over lists of bytes. Decoding is lenient: a byte outside of the
alphabets is left out, and nothing is read behind a full padding.

- `decode_encode`: decoding what was encoded;
- `encode_ascii`: an encoding is ASCII, without a full stop.
-/
import Mathlib.Tactic

namespace Base64

/-- the byte of a digit -/
def digit (v : ℕ) : UInt8 :=
  if v < 26 then UInt8.ofNat (65 + v)
  else if v < 52 then UInt8.ofNat (71 + v)
  else if v < 62 then UInt8.ofNat (v - 4)
  else if v = 62 then 45 else 95

def padding : UInt8 := 61

def encode : List UInt8 → List UInt8
  | [] => []
  | [a] => [digit (a.toNat / 4), digit (a.toNat % 4 * 16), padding, padding]
  | [a, b] =>
    [digit (a.toNat / 4), digit (a.toNat % 4 * 16 + b.toNat / 16), digit (b.toNat % 16 * 4), padding]
  | a :: b :: c :: rest =>
    digit (a.toNat / 4) :: digit (a.toNat % 4 * 16 + b.toNat / 16) :: digit (b.toNat % 16 * 4 + c.toNat / 64) ::
      digit (c.toNat % 64) :: encode rest

/-- the digit of a byte, of either alphabet -/
def sextet (b : UInt8) : Option ℕ :=
  let n := b.toNat
  if 65 ≤ n ∧ n ≤ 90 then some (n - 65)
  else if 97 ≤ n ∧ n ≤ 122 then some (n - 71)
  else if 48 ≤ n ∧ n ≤ 57 then some (n + 4)
  else if n = 43 ∨ n = 45 then some 62
  else if n = 47 ∨ n = 95 then some 63
  else none

/-- `binascii.a2b_base64`: the digits of a group of four read so far, the bits they left over, and the padding seen; none is
a `binascii.Error` -/
def decodeFrom : ℕ → ℕ → ℕ → List UInt8 → Option (List UInt8)
  | quad, _, _, [] => if quad = 0 then some [] else none
  | quad, left, pads, b :: bs =>
    if b = padding then
      if 2 ≤ quad then if 4 ≤ quad + (pads + 1) then some [] else decodeFrom quad left (pads + 1) bs
      else decodeFrom quad left pads bs
    else
      match sextet b with
      | none => decodeFrom quad left pads bs
      | some v =>
        if quad = 0 then decodeFrom 1 v 0 bs
        else if quad = 1 then (decodeFrom 2 (v % 16) 0 bs).map (UInt8.ofNat (left * 4 + v / 16) :: ·)
        else if quad = 2 then (decodeFrom 3 (v % 4) 0 bs).map (UInt8.ofNat (left * 16 + v / 4) :: ·)
        else (decodeFrom 0 0 0 bs).map (UInt8.ofNat (left * 64 + v) :: ·)

def decode (b : List UInt8) : Option (List UInt8) := decodeFrom 0 0 0 b

theorem sextet_digit {v : ℕ} (h : v < 64) : sextet (digit v) = some v := by
  have hall : ∀ v < 64, sextet (digit v) = some v := by decide
  exact hall v h

theorem digit_ne_padding {v : ℕ} (h : v < 64) : digit v ≠ padding := by
  intro heq
  have hread := sextet_digit h
  rw [heq, show sextet padding = none from rfl] at hread
  cases hread

section

variable {v : ℕ} (h : v < 64) (left pads : ℕ) (bs : List UInt8)

include h

theorem decodeFrom_first : decodeFrom 0 left pads (digit v :: bs) = decodeFrom 1 v 0 bs := by
  rw [decodeFrom, if_neg (digit_ne_padding h), sextet_digit h]
  rfl

theorem decodeFrom_second : decodeFrom 1 left pads (digit v :: bs) =
    (decodeFrom 2 (v % 16) 0 bs).map (UInt8.ofNat (left * 4 + v / 16) :: ·) := by
  rw [decodeFrom, if_neg (digit_ne_padding h), sextet_digit h]
  rfl

theorem decodeFrom_third : decodeFrom 2 left pads (digit v :: bs) =
    (decodeFrom 3 (v % 4) 0 bs).map (UInt8.ofNat (left * 16 + v / 4) :: ·) := by
  rw [decodeFrom, if_neg (digit_ne_padding h), sextet_digit h]
  rfl

theorem decodeFrom_fourth : decodeFrom 3 left pads (digit v :: bs) =
    (decodeFrom 0 0 0 bs).map (UInt8.ofNat (left * 64 + v) :: ·) := by
  rw [decodeFrom, if_neg (digit_ne_padding h), sextet_digit h]
  rfl

end

theorem byte_eq {a : UInt8} {n : ℕ} (h : n = a.toNat) : UInt8.ofNat n = a := by rw [h, UInt8.ofNat_toNat]

theorem decodeFrom_encode (b : List UInt8) (left pads : ℕ) : decodeFrom 0 left pads (encode b) = some b := by
  fun_induction encode b generalizing left pads with
  | case1 => rfl
  | case2 a =>
    have ha : a.toNat < 256 := a.toNat_lt
    rw [decodeFrom_first (by omega), decodeFrom_second (by omega), byte_eq (a := a) (by omega)]
    rfl
  | case3 a b =>
    have ha : a.toNat < 256 := a.toNat_lt
    have hb : b.toNat < 256 := b.toNat_lt
    rw [decodeFrom_first (by omega), decodeFrom_second (by omega), decodeFrom_third (by omega), byte_eq (a := a) (by omega),
      byte_eq (a := b) (by omega)]
    rfl
  | case4 a b c rest ih =>
    have ha : a.toNat < 256 := a.toNat_lt
    have hb : b.toNat < 256 := b.toNat_lt
    have hc : c.toNat < 256 := c.toNat_lt
    rw [decodeFrom_first (by omega), decodeFrom_second (by omega), decodeFrom_third (by omega), decodeFrom_fourth (by omega),
      ih, byte_eq (a := a) (by omega), byte_eq (a := b) (by omega), byte_eq (a := c) (by omega)]
    rfl

/-- **Decoding what was encoded.** -/
theorem decode_encode (b : List UInt8) : decode (encode b) = some b := decodeFrom_encode b 0 0

/-- an ASCII byte that is no full stop -/
def Plain (b : UInt8) : Prop := b.toNat < 128 ∧ b.toNat ≠ 46

theorem plain_digit (v : ℕ) : Plain (digit v) := by
  rcases Nat.lt_or_ge v 64 with h | h
  · have hall : ∀ v < 64, (digit v).toNat < 128 ∧ (digit v).toNat ≠ 46 := by decide
    exact hall v h
  · have hlast : digit v = 95 := by
      unfold digit
      rw [if_neg (by omega), if_neg (by omega), if_neg (by omega), if_neg (by omega)]
    rw [hlast, Plain]
    decide

theorem encode_plain (b : List UInt8) : ∀ x ∈ encode b, Plain x := by
  have hpad : Plain padding := by
    rw [Plain]
    decide
  fun_induction encode b with
  | case1 => nofun
  | case2 a => simp [plain_digit, hpad]
  | case3 a b => simp [plain_digit, hpad]
  | case4 a b c rest ih =>
    simp only [List.mem_cons, forall_eq_or_imp]
    exact ⟨plain_digit _, plain_digit _, plain_digit _, plain_digit _, ih⟩

end Base64

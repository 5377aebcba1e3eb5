/-
UTF-8 as `str.encode` writes it and `bytes.decode` reads it, over lists of bytes.

- `decode_encode`: reading what was written;
- `decodeIgnore_drop`: of a text cut at any byte, what is read with `errors="ignore"` is the longest end of the text that the
  bytes hold.
-/
import Mathlib.Tactic
import Clawbolt.Core.Text

namespace Utf8

open Text (Str)

/-- `t.encode()` -/
def encode (t : Str) : List UInt8 := t.flatMap String.utf8EncodeChar

/-- `b.decode()` -/
def decode (b : List UInt8) : Option Str := b.toByteArray.utf8Decode?.map Array.toList

/-- `b.decode(errors="ignore")`, the first `skip` bytes being the rest of a character; a byte that starts no character is
left out -/
def decodeIgnore : ℕ → List UInt8 → Str
  | _, [] => []
  | skip + 1, _ :: bs => decodeIgnore skip bs
  | 0, b :: bs =>
    match (b :: bs).toByteArray.utf8DecodeChar? 0 with
    | some c => c :: decodeIgnore (c.utf8Size - 1) bs
    | none => decodeIgnore 0 bs

@[simp] theorem encode_nil : encode [] = [] := rfl

theorem encode_cons (c : Char) (t : Str) : encode (c :: t) = String.utf8EncodeChar c ++ encode t := rfl

theorem encode_append (a b : Str) : encode (a ++ b) = encode a ++ encode b := List.flatMap_append

theorem length_encode (t : Str) : (encode t).length = Text.utf8Size t := by
  induction t with
  | nil => rfl
  | cons c t ih =>
    rw [encode_cons, List.length_append, ih, String.length_utf8EncodeChar]
    rfl

theorem utf8Size_append (a b : Str) : Text.utf8Size (a ++ b) = Text.utf8Size a + Text.utf8Size b := by
  rw [Text.utf8Size, List.map_append, List.sum_append]
  rfl

theorem utf8Size_le_of_suffix {s t : Str} (h : s <:+ t) : Text.utf8Size s ≤ Text.utf8Size t := by
  obtain ⟨a, rfl⟩ := h
  rw [utf8Size_append]
  exact Nat.le_add_left _ _

/-- **Reading back.** -/
theorem decode_encode (t : Str) : decode (encode t) = some t := by
  have h : (encode t).toByteArray = t.utf8Encode := rfl
  rw [decode, h, List.utf8Decode?_utf8Encode]
  rfl

theorem encode_injective {a b : Str} (h : encode a = encode b) : a = b :=
  Option.some.inj ((decode_encode a).symm.trans ((congrArg decode h).trans (decode_encode b)))

theorem decodeIgnore_skip (n : ℕ) (b : List UInt8) : decodeIgnore n b = decodeIgnore 0 (b.drop n) := by
  induction n generalizing b with
  | zero => rfl
  | succ n ih =>
    cases b with
    | nil => rfl
    | cons x b =>
      rw [List.drop_succ_cons, ← ih]
      rfl

theorem decodeIgnore_char (c : Char) (b : List UInt8) : decodeIgnore 0 (String.utf8EncodeChar c ++ b) = c :: decodeIgnore 0 b := by
  have hlen := String.length_utf8EncodeChar c
  have hpos := c.utf8Size_pos
  cases henc : String.utf8EncodeChar c with
  | nil =>
    rw [henc, List.length_nil] at hlen
    omega
  | cons x xs =>
    have hread : (x :: (xs ++ b)).toByteArray.utf8DecodeChar? 0 = some c := by
      rw [← List.cons_append, ← henc, List.toByteArray_append]
      exact ByteArray.utf8DecodeChar?_utf8EncodeChar_append
    rw [henc, List.length_cons] at hlen
    rw [List.cons_append, decodeIgnore, hread]
    simp only [decodeIgnore_skip (c.utf8Size - 1)]
    rw [List.drop_left' (by omega)]

theorem decodeIgnore_encode (t : Str) : decodeIgnore 0 (encode t) = t := by
  induction t with
  | nil => rfl
  | cons c t ih => rw [encode_cons, decodeIgnore_char, ih]

/-- a byte that starts no character is left out -/
theorem decodeIgnore_byte {x : UInt8} (h : ¬ x.IsUTF8FirstByte) (b : List UInt8) : decodeIgnore 0 (x :: b) = decodeIgnore 0 b := by
  have hnone : (x :: b).toByteArray.utf8DecodeChar? 0 = none := by
    by_contra hsome
    refine h ?_
    have hfirst := ByteArray.isUTF8FirstByte_of_isSome_utf8DecodeChar? (Option.isSome_iff_ne_none.2 hsome)
    rwa [List.getElem_toByteArray] at hfirst
  rw [decodeIgnore, hnone]

theorem decodeIgnore_rest {xs : List UInt8} (h : ∀ x ∈ xs, ¬ x.IsUTF8FirstByte) (b : List UInt8) :
    decodeIgnore 0 (xs ++ b) = decodeIgnore 0 b := by
  induction xs with
  | nil => rfl
  | cons x xs ih =>
    rw [List.cons_append, decodeIgnore_byte (h x List.mem_cons_self), ih fun y hy => h y (List.mem_cons_of_mem x hy)]

/-- no byte of a character but the first one starts one -/
theorem not_first_of_mem_drop {c : Char} {n : ℕ} (hn : 0 < n) {x : UInt8} (h : x ∈ (String.utf8EncodeChar c).drop n) :
    ¬ x.IsUTF8FirstByte := by
  obtain ⟨i, hi, rfl⟩ := List.getElem_of_mem h
  rw [List.getElem_drop, UInt8.isUTF8FirstByte_getElem_utf8EncodeChar]
  omega

/-- **A cut text.** What is read behind a cut is an end of the text that fits, and one more character would not. -/
theorem decodeIgnore_drop (t : Str) (n : ℕ) : ∃ a s, t = a ++ s ∧ decodeIgnore 0 ((encode t).drop n) = s ∧
    Text.utf8Size s ≤ Text.utf8Size t - n ∧ ∀ a' c, a = a' ++ [c] → Text.utf8Size t - n < Text.utf8Size (c :: s) := by
  induction t generalizing n with
  | nil => exact ⟨[], [], rfl, by simp [decodeIgnore], Nat.zero_le _, fun a' c h => absurd h (by simp)⟩
  | cons c t ih =>
    have hsize : Text.utf8Size (c :: t) = c.utf8Size + Text.utf8Size t := rfl
    rcases Nat.eq_zero_or_pos n with rfl | hpos
    · exact ⟨[], c :: t, rfl, decodeIgnore_encode (c :: t), le_rfl, fun a' c h => absurd h (by simp)⟩
    · rcases Nat.lt_or_ge n c.utf8Size with hinside | hbehind
      · -- the cut is inside the first character, which is lost
        refine ⟨[c], t, rfl, ?_, by omega, fun a' c' h => ?_⟩
        · rw [encode_cons, List.drop_append_of_le_length (by rw [String.length_utf8EncodeChar]; omega),
            decodeIgnore_rest (fun x hx => not_first_of_mem_drop hpos hx), decodeIgnore_encode]
        · obtain ⟨-, hc⟩ := List.append_inj' (show [] ++ [c] = a' ++ [c'] from h) rfl
          rw [← List.singleton_inj.1 hc, hsize]
          omega
      · obtain ⟨a, s, rfl, hread, hle, hmax⟩ := ih (n - c.utf8Size)
        refine ⟨c :: a, s, rfl, ?_, by omega, fun a' c' h => ?_⟩
        · rw [encode_cons, List.drop_append, List.drop_eq_nil_of_le (by rw [String.length_utf8EncodeChar]; omega),
            List.nil_append, String.length_utf8EncodeChar, hread]
        · cases a' with
          | nil =>
            obtain ⟨rfl, rfl⟩ := List.cons_eq_cons.1 h
            have := c.utf8Size_pos
            rw [List.nil_append] at hsize ⊢
            omega
          | cons d a' =>
            obtain ⟨-, rfl⟩ := List.cons_eq_cons.1 h
            have := hmax a' c' rfl
            omega

end Utf8

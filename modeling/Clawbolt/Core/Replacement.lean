/-
UTF-8 read with `errors="replace"`, and texts cut at a byte.

A byte sequence that is no character is replaced up to where it stops being the start of one. Every byte but the first of a
character shows that it is not the first one, so a text can be found in a byte sequence only where its characters are.

- `decodeReplace_encode`: reading what was written;
- `encode_cut`: a cut falls between two characters, or inside one;
- `encode_split`: where a character starts, the cut is between two characters;
- `decodeReplace_inside`: what is read when something is put inside a character.
-/
import Mathlib.Tactic
import Clawbolt.Core.Utf8

namespace Utf8

open Text (Str)

/-- `'\uFFFD'` -/
def replacement : Char := Char.ofNat 0xfffd

def isContinuation (b : UInt8) : Bool := 0x80 ≤ b && b ≤ 0xbf

/-- the bytes that follow a first byte, and the range of the second one -/
def followers (b : UInt8) : Option (ℕ × UInt8 × UInt8) :=
  if 0xc2 ≤ b && b ≤ 0xdf then some (1, 0x80, 0xbf)
  else if b = 0xe0 then some (2, 0xa0, 0xbf)
  else if b = 0xed then some (2, 0x80, 0x9f)
  else if 0xe1 ≤ b && b ≤ 0xef then some (2, 0x80, 0xbf)
  else if b = 0xf0 then some (3, 0x90, 0xbf)
  else if 0xf1 ≤ b && b ≤ 0xf3 then some (3, 0x80, 0xbf)
  else if b = 0xf4 then some (3, 0x80, 0x8f)
  else none

/-- how many bytes after `b` are replaced together with it, when no character starts there -/
def badLength (b : UInt8) (bs : List UInt8) : ℕ :=
  match followers b, bs with
  | some (more, low, high), c :: cs =>
    if low ≤ c && c ≤ high then 1 + ((cs.take (more - 2)).takeWhile isContinuation).length else 0
  | _, _ => 0

/-- `b.decode(errors="replace")`, the first `skip` bytes being read already -/
def decodeReplace : ℕ → List UInt8 → Str
  | _, [] => []
  | skip + 1, _ :: bs => decodeReplace skip bs
  | 0, b :: bs =>
    match (b :: bs).toByteArray.utf8DecodeChar? 0 with
    | some c => c :: decodeReplace (c.utf8Size - 1) bs
    | none => replacement :: decodeReplace (badLength b bs) bs

/-! ## Reading what was written -/

theorem decodeReplace_skip (n : ℕ) (b : List UInt8) : decodeReplace n b = decodeReplace 0 (b.drop n) := by
  induction n generalizing b with
  | zero => rfl
  | succ n ih =>
    cases b with
    | nil => rfl
    | cons x b =>
      rw [List.drop_succ_cons, ← ih]
      rfl

theorem decodeReplace_char (c : Char) (b : List UInt8) :
    decodeReplace 0 (String.utf8EncodeChar c ++ b) = c :: decodeReplace 0 b := by
  have hlen := String.length_utf8EncodeChar c
  have hpos := c.utf8Size_pos
  cases henc : String.utf8EncodeChar c with
  | nil =>
    rw [henc, List.length_nil] at hlen
    omega
  | cons x xs =>
    have hread : (x :: (xs ++ b)).toByteArray.utf8DecodeChar? 0 = some c := by
      rw [← List.cons_append, ← henc, List.toByteArray_append]
      exact ByteArray.utf8DecodeChar?_utf8EncodeChar_append
    rw [henc, List.length_cons] at hlen
    rw [List.cons_append, decodeReplace, hread]
    simp only [decodeReplace_skip (c.utf8Size - 1)]
    rw [List.drop_left' (by omega)]

theorem decodeReplace_append (t : Str) (b : List UInt8) : decodeReplace 0 (encode t ++ b) = t ++ decodeReplace 0 b := by
  induction t with
  | nil => rfl
  | cons c t ih => rw [encode_cons, List.append_assoc, decodeReplace_char, ih, List.cons_append]

theorem decodeReplace_encode (t : Str) : decodeReplace 0 (encode t) = t := by
  have h := decodeReplace_append t []
  rwa [List.append_nil, decodeReplace, List.append_nil] at h

/-! ## Bytes that start no character -/

theorem not_first_of_continuation {b : UInt8} (h : isContinuation b = true) : ¬ b.IsUTF8FirstByte := by
  have hall : ∀ x : Fin 256, isContinuation (UInt8.ofFin x) = true → ¬ (UInt8.ofFin x).IsUTF8FirstByte := by decide +kernel
  exact hall b.toFin h

theorem followers_eq_none {b : UInt8} (h : ¬ b.IsUTF8FirstByte) : followers b = none := by
  have hall : ∀ x : Fin 256, ¬ (UInt8.ofFin x).IsUTF8FirstByte → followers (UInt8.ofFin x) = none := by decide +kernel
  exact hall b.toFin h

/-- the second byte of a sequence is a continuation -/
theorem continuation_of_second {b c : UInt8} {more : ℕ} {low high : UInt8} (h : followers b = some (more, low, high))
    (hlow : low ≤ c) (hhigh : c ≤ high) : isContinuation c = true := by
  have hall : ∀ x : Fin 256, (followers (UInt8.ofFin x)).all (fun f => 0x80 ≤ f.2.1 && f.2.2 ≤ 0xbf) = true := by
    decide +kernel
  have hrange : (followers b).all (fun f => 0x80 ≤ f.2.1 && f.2.2 ≤ 0xbf) = true := hall b.toFin
  rw [h, Option.all_some, Bool.and_eq_true, decide_eq_true_eq, decide_eq_true_eq] at hrange
  rw [isContinuation, Bool.and_eq_true, decide_eq_true_eq, decide_eq_true_eq]
  exact ⟨UInt8.le_trans hrange.1 hlow, UInt8.le_trans hhigh hrange.2⟩

/-- what is replaced together starts no character -/
theorem bad_continues (b : UInt8) (bs : List UInt8) :
    badLength b bs ≤ bs.length ∧ ∀ x ∈ bs.take (badLength b bs), isContinuation x = true := by
  have hzero : 0 ≤ bs.length ∧ ∀ x ∈ bs.take 0, isContinuation x = true :=
    ⟨Nat.zero_le _, fun x hx => absurd hx List.not_mem_nil⟩
  cases hfollowers : followers b with
  | none => simpa only [badLength, hfollowers] using hzero
  | some f =>
    obtain ⟨more, low, high⟩ := f
    cases bs with
    | nil => simpa only [badLength, hfollowers] using hzero
    | cons c cs =>
      simp only [badLength, hfollowers]
      split_ifs with hrange
      · rw [Bool.and_eq_true, decide_eq_true_eq, decide_eq_true_eq] at hrange
        have hpre : (cs.take (more - 2)).takeWhile isContinuation <+: cs :=
          (List.takeWhile_prefix _).trans (List.take_prefix _ _)
        refine ⟨?_, ?_⟩
        · rw [List.length_cons]
          have := hpre.length_le
          omega
        · intro x hx
          rw [Nat.add_comm, List.take_succ_cons, ← List.prefix_iff_eq_take.1 hpre, List.mem_cons] at hx
          obtain rfl | hx := hx
          · exact continuation_of_second hfollowers hrange.1 hrange.2
          · exact List.mem_takeWhile_imp hx
      · exact hzero

theorem decodeReplace_byte {x : UInt8} (h : ¬ x.IsUTF8FirstByte) (b : List UInt8) :
    decodeReplace 0 (x :: b) = replacement :: decodeReplace 0 b := by
  have hnone : (x :: b).toByteArray.utf8DecodeChar? 0 = none := by
    by_contra hsome
    apply h
    have hfirst := ByteArray.isUTF8FirstByte_of_isSome_utf8DecodeChar? (Option.isSome_iff_ne_none.2 hsome)
    rwa [List.getElem_toByteArray] at hfirst
  rw [decodeReplace, hnone]
  simp only [badLength, followers_eq_none h]

/-- every byte that starts no character is replaced on its own -/
theorem decodeReplace_rest {xs : List UInt8} (h : ∀ x ∈ xs, ¬ x.IsUTF8FirstByte) (b : List UInt8) :
    decodeReplace 0 (xs ++ b) = List.replicate xs.length replacement ++ decodeReplace 0 b := by
  induction xs with
  | nil => rfl
  | cons x xs ih =>
    rw [List.cons_append, decodeReplace_byte (h x List.mem_cons_self), ih fun y hy => h y (List.mem_cons_of_mem x hy)]
    rfl

/-! ## A text cut at a byte -/

/-- a character is read where its bytes are -/
theorem decodeChar_eq_some {l : List UInt8} {c : Char} (h : l.toByteArray.utf8DecodeChar? 0 = some c) :
    ∃ r, l = String.utf8EncodeChar c ++ r := by
  obtain ⟨r, hr⟩ := ByteArray.exists_of_utf8DecodeChar?_eq_some h
  refine ⟨r.data.toList, ?_⟩
  have hdata := congrArg (fun b : ByteArray => b.data.toList) hr
  simpa using hdata

/-- a cut falls between two characters, or inside one -/
theorem encode_cut {z : Str} {a r : List UInt8} (h : encode z = a ++ r) :
    (∃ z₁ z₂, z = z₁ ++ z₂ ∧ a = encode z₁ ∧ r = encode z₂) ∨
      ∃ z₁ c z₂ p s, z = z₁ ++ c :: z₂ ∧ a = encode z₁ ++ p ∧ r = s ++ encode z₂ ∧ p ++ s = String.utf8EncodeChar c ∧
        p ≠ [] ∧ s ≠ [] := by
  induction z generalizing a with
  | nil =>
    rw [encode_nil, eq_comm, List.append_eq_nil_iff] at h
    exact .inl ⟨[], [], rfl, h.1, h.2⟩
  | cons c z ih =>
    rw [encode_cons] at h
    by_cases ha : a = []
    · subst ha
      exact .inl ⟨[], c :: z, rfl, rfl, h.symm⟩
    · obtain ⟨d, hd, hrest⟩ | ⟨d, hd, hrest⟩ := List.append_eq_append_iff.1 h
      · -- the first character lies before the cut
        obtain ⟨z₁, z₂, rfl, rfl, hr⟩ | ⟨z₁, c', z₂, p, s, rfl, rfl, hr⟩ := ih hrest
        · exact .inl ⟨c :: z₁, z₂, rfl, hd, hr⟩
        · exact .inr ⟨c :: z₁, c', z₂, p, s, rfl, by rw [hd, encode_cons, List.append_assoc], hr⟩
      · by_cases hs : d = []
        · subst hs
          rw [List.append_nil] at hd
          rw [List.nil_append] at hrest
          exact .inl ⟨[c], z, rfl, by rw [← hd, encode_cons, encode_nil, List.append_nil], hrest⟩
        · exact .inr ⟨[], c, z, a, d, rfl, rfl, hrest, hd.symm, ha, hs⟩

theorem first_of_encode {c : Char} {t : Str} {b : UInt8} {bs : List UInt8} (h : encode (c :: t) = b :: bs) :
    b.IsUTF8FirstByte := by
  rw [encode_cons] at h
  have hpos : 0 < (String.utf8EncodeChar c).length := by
    rw [String.length_utf8EncodeChar]
    exact c.utf8Size_pos
  have hfirst : ((String.utf8EncodeChar c)[0]).IsUTF8FirstByte := UInt8.isUTF8FirstByte_getElem_zero_utf8EncodeChar
  cases henc : String.utf8EncodeChar c with
  | nil =>
    rw [henc] at hpos
    exact absurd hpos (lt_irrefl 0)
  | cons x xs =>
    simp only [henc, List.getElem_cons_zero] at hfirst
    rw [henc, List.cons_append] at h
    rw [← (List.cons.inj h).1]
    exact hfirst

/-- the bytes behind a cut inside a character -/
theorem not_first_of_cut {c : Char} {p s : List UInt8} (h : p ++ s = String.utf8EncodeChar c) (hp : p ≠ []) :
    ∀ x ∈ s, ¬ x.IsUTF8FirstByte := by
  intro x hx
  apply not_first_of_mem_drop (c := c) (List.length_pos_of_ne_nil hp)
  rw [← h, List.drop_left]
  exact hx

/-- a text starts with a byte that starts a character -/
theorem encode_first {w : Str} (hw : w ≠ []) : ∃ y ys, encode w = y :: ys ∧ y.IsUTF8FirstByte := by
  obtain ⟨d, w, rfl⟩ := List.exists_cons_of_ne_nil hw
  cases hd : encode (d :: w) with
  | nil =>
    have hlen := length_encode (d :: w)
    have hpos := d.utf8Size_pos
    rw [hd, List.length_nil, Text.utf8Size, List.map_cons, List.sum_cons] at hlen
    omega
  | cons y ys => exact ⟨y, ys, rfl, first_of_encode hd⟩

/-- where a character starts, the cut is between two characters -/
theorem encode_split {z w : Str} {a b : List UInt8} (hw : w ≠ []) (h : encode z = a ++ (encode w ++ b)) :
    ∃ x y, z = x ++ w ++ y ∧ a = encode x ∧ b = encode y := by
  obtain ⟨z₁, z₂, rfl, rfl, hr⟩ | ⟨z₁, c, z₂, p, s, rfl, rfl, hr, hchar, hp, hs⟩ := encode_cut h
  · have hread := decodeReplace_encode z₂
    rw [← hr, decodeReplace_append] at hread
    refine ⟨z₁, decodeReplace 0 b, by rw [← hread, List.append_assoc], rfl, ?_⟩
    rw [← hread, encode_append] at hr
    exact List.append_cancel_left hr
  · exfalso
    obtain ⟨x, s, rfl⟩ := List.exists_cons_of_ne_nil hs
    obtain ⟨y, ys, hy, hfirst⟩ := encode_first hw
    rw [hy] at hr
    rw [(List.cons.inj hr).1] at hfirst
    exact not_first_of_cut hchar hp x List.mem_cons_self hfirst

/-- no character is read where one breaks off before another one starts -/
theorem no_char_of_cut {c : Char} {p s : List UInt8} (h : p ++ s = String.utf8EncodeChar c) (hp : p ≠ []) (hs : s ≠ [])
    {y : UInt8} (hfirst : y.IsUTF8FirstByte) (ys : List UInt8) :
    (p ++ y :: ys).toByteArray.utf8DecodeChar? 0 = none := by
  by_contra hsome
  obtain ⟨c', hc'⟩ := Option.ne_none_iff_exists'.1 hsome
  obtain ⟨r, hr⟩ := decodeChar_eq_some hc'
  have hshort : ∀ q, p ≠ String.utf8EncodeChar c' ++ q := by
    rintro q rfl
    have hread := decodeReplace_encode [c]
    have henc : encode [c] = String.utf8EncodeChar c' ++ (q ++ s) := by
      rw [encode_cons, encode_nil, List.append_nil, ← h, List.append_assoc]
    rw [henc, decodeReplace_char] at hread
    have hsame := (List.cons.inj hread).1
    have hlen := congrArg List.length h
    rw [hsame, List.length_append, List.length_append] at hlen
    have := List.length_pos_of_ne_nil hs
    omega
  obtain ⟨q, hq, hrest⟩ | ⟨q, hq, _⟩ := List.append_eq_append_iff.1 hr
  · cases q with
    | nil =>
      rw [List.append_nil] at hq
      exact hshort [] (by rw [List.append_nil, hq])
    | cons x q =>
      rw [(List.cons.inj hrest).1] at hfirst
      exact not_first_of_cut hq.symm hp x List.mem_cons_self hfirst
  · exact hshort q hq

/-- a character that breaks off before another one starts is replaced -/
theorem decodeReplace_partial {c : Char} {p s : List UInt8} (h : p ++ s = String.utf8EncodeChar c) (hp : p ≠ []) (hs : s ≠ [])
    {y : UInt8} (hfirst : y.IsUTF8FirstByte) (ys : List UInt8) : ∃ k, 1 ≤ k ∧
      decodeReplace 0 (p ++ y :: ys) = List.replicate k replacement ++ decodeReplace 0 (y :: ys) := by
  have hnone := no_char_of_cut h hp hs hfirst ys
  obtain ⟨x, xs, rfl⟩ := List.exists_cons_of_ne_nil hp
  obtain ⟨_, hbad⟩ := bad_continues x (xs ++ y :: ys)
  have hle : badLength x (xs ++ y :: ys) ≤ xs.length := by
    by_contra hlt
    obtain ⟨m, hm⟩ := Nat.exists_eq_add_of_lt (Nat.lt_of_not_le hlt)
    have hmem : y ∈ (xs ++ y :: ys).take (badLength x (xs ++ y :: ys)) := by
      rw [hm, Nat.add_assoc, List.take_length_add_append, List.take_succ_cons]
      exact List.mem_append_right _ List.mem_cons_self
    exact not_first_of_continuation (hbad y hmem) hfirst
  have hxs : ∀ z ∈ xs, ¬ z.IsUTF8FirstByte := by
    intro z hz
    rw [← List.singleton_append, List.append_assoc] at h
    exact not_first_of_cut h (List.cons_ne_nil _ _) z (List.mem_append_left s hz)
  refine ⟨(xs.drop (badLength x (xs ++ y :: ys))).length + 1, Nat.le_add_left _ _, ?_⟩
  rw [List.cons_append] at hnone ⊢
  rw [decodeReplace, hnone]
  simp only [decodeReplace_skip (badLength x (xs ++ y :: ys))]
  rw [List.drop_append_of_le_length hle, decodeReplace_rest fun z hz => hxs z (List.mem_of_mem_drop hz),
    List.replicate_succ]
  rfl

/-- **Something put inside a character.** What is left of the character is replaced, on both sides. -/
theorem decodeReplace_inside {c : Char} {p s : List UInt8} (h : p ++ s = String.utf8EncodeChar c) (hp : p ≠ []) (hs : s ≠ [])
    {w : Str} (hw : w ≠ []) (x y : Str) : ∃ k, 1 ≤ k ∧
      decodeReplace 0 (encode x ++ p ++ encode w ++ (s ++ encode y)) =
        x ++ List.replicate k replacement ++ w ++ (List.replicate s.length replacement ++ y) := by
  obtain ⟨b, bs, hb, hfirst⟩ := encode_first hw
  obtain ⟨k, hk, hread⟩ := decodeReplace_partial h hp hs hfirst (bs ++ (s ++ encode y))
  refine ⟨k, hk, ?_⟩
  rw [← List.cons_append, ← hb] at hread
  rw [List.append_assoc, List.append_assoc, decodeReplace_append, hread, decodeReplace_append,
    decodeReplace_rest (not_first_of_cut h hp), decodeReplace_encode, List.append_assoc, List.append_assoc]

end Utf8

/-
What an alert shows of a failed tool call (`_format_sample` and `_compact` of services/tool_failure_alerts.py): the arguments
and the result, with what looks like an e-mail address, a card, a phone number or a token replaced, and all of it clipped.

Each character of the arguments and of the result carries whether it is in a match of the text as it is before anything is
clipped. The sample is made of these characters, so one that is left shows where a match comes through, whole or cut off.

- `taggedSample_text`: the tagged sample is the sample;
- `sample_hides`: no match comes through when clipping leaves of each match a match, or nothing, and no match cuts one of a
  pattern that is replaced before;
- `clear_of_short`: nothing is clipped from values of 120 characters or fewer.
-/
import Mathlib.Tactic
import Clawbolt.Core.Spans
import Clawbolt.SharedData.Redaction

namespace Clawbolt.FailureAlerts

open Text (Str)
open Pattern (Shape Apart)
open SharedData (Unicode redactions redactPii)

/-! ## The sample -/

/-- `_MAX_SIDE_CHARS` -/
def maxSideChars : ℕ := 240

/-- `_MAX_SAMPLE_CHARS` of admin_alerts.py -/
def maxSampleChars : ℕ := 500

/-- what `handle_tool_failure` reads of a `ToolFailurePayload`; an argument is its key and `str` of its value -/
structure Payload where
  userId : Str
  toolName : Str
  errorKind : Str
  args : List (Str × Str)
  resultText : Str
deriving DecidableEq, Repr

/-- a value of `_compact` -/
def clip (text : Str) : Str := if 120 < text.length then text.take 120 ++ "...".toList else text

/-- the one line that `_compact` makes of the arguments, `value` being what becomes of a value -/
def oneLine (value : Str → Str) (args : List (Str × Str)) : Str :=
  '\x7b' :: Text.join ", ".toList (args.map fun kv => kv.1 ++ '=' :: value kv.2) ++ ['\x7d']

/-- `_compact` -/
def compact (args : List (Str × Str)) : Str := oneLine clip args

/-- the full text of the arguments -/
def fullArgs (args : List (Str × Str)) : Str := oneLine id args

variable (u : Unicode)

/-- `_format_sample` -/
def formatSample (p : Payload) : Str :=
  "args=".toList ++ (redactPii u (compact p.args)).take maxSideChars ++ " -> ".toList ++
    (redactPii u p.resultText).take maxSideChars

/-! ## The characters of matches -/

/-- a place of a text is in a match of a pattern -/
def inMatch (t : Str) (k : ℕ) : Bool :=
  (redactions u).any fun p => (p.1.spans t).any fun s => s.1 ≤ k && k < s.1 + s.2

/-- the characters of a piece that starts at a place, each with whether its place is marked -/
def tag (mark : ℕ → Bool) (start : ℕ) (t : Str) : List (Char × Bool) := (t.zipIdx start).map fun x => (x.1, mark x.2)

/-- characters that come from none of the texts -/
def plain (t : Str) : List (Char × Bool) := t.map fun c => (c, false)

def clipTagged (t : List (Char × Bool)) : List (Char × Bool) :=
  if 120 < t.length then t.take 120 ++ plain "...".toList else t

/-- the arguments from a place on, each with the brackets and commas before it -/
def tagFrom (mark : ℕ → Bool) (start : ℕ) : List (Str × Str) → List (Char × Bool)
  | [] => []
  | (key, value) :: args =>
    let before := key ++ ['=']
    let comma := if args = [] then [] else ", ".toList
    tag mark start before ++ clipTagged (tag mark (start + before.length) value) ++
      tag mark (start + before.length + value.length) comma ++
      tagFrom mark (start + before.length + value.length + comma.length) args

/-- `_compact` on the characters of the full text -/
def taggedCompact (args : List (Str × Str)) : List (Char × Bool) :=
  let mark := inMatch u (fullArgs args)
  tag mark 0 ['\x7b'] ++ tagFrom mark 1 args ++ tag mark ((fullArgs args).length - 1) ['\x7d']

/-- the result, with its own matches -/
def taggedResult (t : Str) : List (Char × Bool) := tag (inMatch u t) 0 t

/-- the patterns, which look at the characters only -/
def taggedRedactions : List (Shape (Char × Bool) × List (Char × Bool)) :=
  (redactions u).map fun p => (p.1.comap Prod.fst, plain p.2)

/-- `redact_pii` on characters with tags -/
def taggedRedact (t : List (Char × Bool)) : List (Char × Bool) := Pattern.subAll (taggedRedactions u) t

/-- `_format_sample` on characters with tags -/
def taggedSample (p : Payload) : List (Char × Bool) :=
  plain "args=".toList ++ (taggedRedact u (taggedCompact u p.args)).take maxSideChars ++ plain " -> ".toList ++
    (taggedRedact u (taggedResult u p.resultText)).take maxSideChars

/-- no match of the full texts comes through, whole or cut off -/
def Hides (p : Payload) : Prop := ∀ c ∈ taggedSample u p, c.2 = false

/-- matches of the five patterns are apart, or those of a later one inside of those of an earlier one -/
def AllApart (t : Str) : Prop := ((redactions u).map Prod.fst).Pairwise fun p q => Apart p q t

instance (t : Str) : Decidable (AllApart u t) :=
  inferInstanceAs (Decidable (((redactions u).map Prod.fst).Pairwise fun p q =>
    ∀ s ∈ p.spans t, ∀ r ∈ q.spans t, r.1 + r.2 ≤ s.1 ∨ s.1 + s.2 ≤ r.1 ∨ (s.1 ≤ r.1 ∧ r.1 + r.2 ≤ s.1 + s.2)))

/-- what clipping leaves of a match is in a match, and the matches of what is redacted do not cut each other -/
structure Clear (p : Payload) : Prop where
  clipped : ∀ k c, (taggedCompact u p.args)[k]? = some (c, true) → inMatch u (compact p.args) k = true
  args : AllApart u (compact p.args)
  result : AllApart u p.resultText

/-! ## The tags are only carried along -/

@[simp] theorem tag_text (mark : ℕ → Bool) (start : ℕ) (t : Str) : (tag mark start t).map Prod.fst = t := by
  rw [tag, List.map_map]
  exact List.zipIdx_map_fst start t

@[simp] theorem tag_length (mark : ℕ → Bool) (start : ℕ) (t : Str) : (tag mark start t).length = t.length := by
  rw [tag, List.length_map, List.length_zipIdx]

@[simp] theorem plain_text (t : Str) : (plain t).map Prod.fst = t := by
  rw [plain, List.map_map]
  exact List.map_id t

theorem clipTagged_text (t : List (Char × Bool)) : (clipTagged t).map Prod.fst = clip (t.map Prod.fst) := by
  rw [clipTagged, clip, List.length_map]
  split
  · rw [List.map_append, List.map_take, plain_text]
  · rfl

theorem tagFrom_text (mark : ℕ → Bool) (start : ℕ) (args : List (Str × Str)) : (tagFrom mark start args).map Prod.fst =
    Text.join ", ".toList (args.map fun kv => kv.1 ++ '=' :: clip kv.2) := by
  induction args generalizing start with
  | nil => rfl
  | cons kv args ih =>
    obtain ⟨key, value⟩ := kv
    simp only [tagFrom, List.map_append, tag_text, clipTagged_text, ih]
    cases args with
    | nil => simp [Text.join]
    | cons kv args => simp [Text.join, List.intercalate]

theorem taggedCompact_text (args : List (Str × Str)) : (taggedCompact u args).map Prod.fst = compact args := by
  simp only [taggedCompact, List.map_append, tag_text, tagFrom_text]
  rfl

theorem taggedRedact_text (t : List (Char × Bool)) : (taggedRedact u t).map Prod.fst = redactPii u (t.map Prod.fst) := by
  have hmap := Pattern.subAll_comap Prod.fst ((redactions u).map fun p => (p.1, plain p.2)) t
  simp only [List.map_map, Function.comp_def, plain_text, Prod.mk.eta, List.map_id'] at hmap
  rw [SharedData.redactPii_eq, ← hmap]
  rfl

/-- the tagged sample is the sample -/
theorem taggedSample_text (p : Payload) : (taggedSample u p).map Prod.fst = formatSample u p := by
  simp only [taggedSample, List.map_append, List.map_take, plain_text, taggedRedact_text, taggedCompact_text, taggedResult,
    tag_text]
  rfl

/-! ## What is hidden -/

theorem inMatch_iff {t : Str} {k : ℕ} : inMatch u t k = true ↔ ∃ p ∈ redactions u, p.1.Hit t k := by
  simp only [inMatch, List.any_eq_true, Bool.and_eq_true, decide_eq_true_eq, Shape.Hit]

theorem taggedRedactions_sealed : ∀ p ∈ taggedRedactions u, ∀ q ∈ taggedRedactions u, Pattern.Sealed p.1.items q.2 := by
  intro p hp q hq
  obtain ⟨p', hp', rfl⟩ := List.mem_map.1 hp
  obtain ⟨q', hq', rfl⟩ := List.mem_map.1 hq
  exact Pattern.sealed_comap (fun _ => rfl) (SharedData.redactions_sealed p' hp' q' hq')

/-- **What is redacted.** Where each character of a match is in a match, and no match cuts an earlier one, none is left. -/
theorem taggedRedact_hides {t : List (Char × Bool)} (hmatch : ∀ k c, t[k]? = some (c, true) → inMatch u (t.map Prod.fst) k = true)
    (hapart : AllApart u (t.map Prod.fst)) : ∀ c ∈ taggedRedact u t, c.2 = false := by
  refine Pattern.subAll_hides (taggedRedactions_sealed u) ?_ ⟨?_, ?_⟩
  · intro p hp c hc
    obtain ⟨p, -, rfl⟩ := List.mem_map.1 hp
    obtain ⟨c, -, rfl⟩ := List.mem_map.1 hc
    rfl
  · rintro k ⟨c, marked⟩ hk hmarked
    obtain rfl : marked = true := hmarked
    obtain ⟨p, hp, s, hs, hle⟩ := (inMatch_iff u).1 (hmatch k c hk)
    refine ⟨p.1.comap Prod.fst, ?_, s, ?_, hle⟩
    · rw [taggedRedactions, List.map_map]
      exact List.mem_map_of_mem hp
    · rw [Pattern.spans_comap]
      exact hs
  · rw [taggedRedactions, List.map_map]
    rw [AllApart, List.pairwise_map] at hapart
    rw [List.pairwise_map]
    refine hapart.imp fun {p q} hpq => ?_
    simp only [Function.comp_apply, Apart, Pattern.spans_comap]
    exact hpq

/-- a character that is tagged has a marked place -/
theorem tag_getElem? {mark : ℕ → Bool} {start : ℕ} {t : Str} {k : ℕ} {c : Char} {b : Bool}
    (h : (tag mark start t)[k]? = some (c, b)) : mark (start + k) = b := by
  rw [tag, List.getElem?_map, List.getElem?_zipIdx, Option.map_map, Option.map_eq_some_iff] at h
  obtain ⟨c', -, hc'⟩ := h
  exact (Prod.mk.inj hc').2

/-- **A sample hides the matches.** -/
theorem sample_hides {p : Payload} (h : Clear u p) : Hides u p := by
  have hargs : ∀ c ∈ taggedRedact u (taggedCompact u p.args), c.2 = false := by
    refine taggedRedact_hides u ?_ ?_
    · rw [taggedCompact_text]
      exact h.clipped
    · rw [taggedCompact_text]
      exact h.args
  have hresult : ∀ c ∈ taggedRedact u (taggedResult u p.resultText), c.2 = false := by
    refine taggedRedact_hides u ?_ ?_
    · intro k c hk
      have hmark := tag_getElem? hk
      rw [Nat.zero_add] at hmark
      rw [taggedResult, tag_text]
      exact hmark
    · rw [taggedResult, tag_text]
      exact h.result
  intro c hc
  rw [taggedSample, List.mem_append, List.mem_append, List.mem_append] at hc
  have hplain : ∀ t : Str, c ∈ plain t → c.2 = false := by
    intro t ht
    obtain ⟨a, -, rfl⟩ := List.mem_map.1 ht
    rfl
  rcases hc with ((hc | hc) | hc) | hc
  · exact hplain _ hc
  · exact hargs c (List.mem_of_mem_take hc)
  · exact hplain _ hc
  · exact hresult c (List.mem_of_mem_take hc)

/-! ## Arguments that are not clipped -/

theorem tag_append (mark : ℕ → Bool) (start : ℕ) (a b : Str) : tag mark start (a ++ b) = tag mark start a ++
    tag mark (start + a.length) b := by
  rw [tag, tag, tag, List.zipIdx_append, List.map_append]

/-- short values stay as they are -/
theorem tagFrom_of_short {mark : ℕ → Bool} {args : List (Str × Str)} (h : ∀ kv ∈ args, kv.2.length ≤ 120) (start : ℕ) :
    tagFrom mark start args = tag mark start (Text.join ", ".toList (args.map fun kv => kv.1 ++ '=' :: kv.2)) := by
  induction args generalizing start with
  | nil => rfl
  | cons kv args ih =>
    obtain ⟨hkv, hargs⟩ := List.forall_mem_cons.1 h
    obtain ⟨key, value⟩ := kv
    have hclip : ∀ start, clipTagged (tag mark start value) = tag mark start value := by
      intro start
      rw [clipTagged, if_neg (by rw [tag_length]; exact not_lt.2 hkv)]
    have hkey : key ++ '=' :: value = key ++ ['='] ++ value := by rw [List.append_assoc, List.singleton_append]
    simp only [tagFrom, hclip, ih hargs, List.map_cons, hkey]
    cases args with
    | nil =>
      simp only [List.map_nil, Text.join, List.intercalate_singleton, tag_append, List.length_append, Nat.add_assoc,
        List.append_assoc, if_true]
      simp [tag]
    | cons kv args =>
      simp only [if_neg (List.cons_ne_nil _ _), List.map_cons, Text.join, List.intercalate_cons_cons, tag_append,
        List.length_append, Nat.add_assoc, List.append_assoc]

/-- the one line without clipping -/
theorem taggedCompact_of_short {args : List (Str × Str)} (h : ∀ kv ∈ args, kv.2.length ≤ 120) :
    taggedCompact u args = tag (inMatch u (fullArgs args)) 0 (fullArgs args) := by
  have hfull : fullArgs args =
      ['\x7b'] ++ Text.join ", ".toList (args.map fun kv => kv.1 ++ '=' :: kv.2) ++ ['\x7d'] := rfl
  simp only [taggedCompact]
  generalize inMatch u (fullArgs args) = mark
  rw [tagFrom_of_short h, hfull, tag_append, tag_append]
  simp only [List.length_append, List.length_singleton, Nat.add_sub_cancel, Nat.zero_add]

/-- **Nothing clipped.** With short values, a sample hides the matches when those of the one line and of the result are apart. -/
theorem clear_of_short {p : Payload} (hshort : ∀ kv ∈ p.args, kv.2.length ≤ 120) (hargs : AllApart u (fullArgs p.args))
    (hresult : AllApart u p.resultText) : Clear u p := by
  have htext : compact p.args = fullArgs p.args := by
    rw [← taggedCompact_text u, taggedCompact_of_short u hshort, tag_text]
  refine ⟨?_, by rw [htext]; exact hargs, hresult⟩
  intro k c hk
  rw [taggedCompact_of_short u hshort] at hk
  have hmark := tag_getElem? hk
  rw [Nat.zero_add] at hmark
  rw [htext]
  exact hmark

end Clawbolt.FailureAlerts

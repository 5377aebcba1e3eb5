/-
SKILL.md guidance on a tool result (agent/skills/loader.py): the block that delivers it, what `strip_skill_guidance` of
`Clawbolt.History.Rebuild` makes of a result with a block, and the deliveries that are read off a text.

- `strip_delivered`: when the stripped text is the result that the block was put on, and what is marked in it;
- `marker_in_result`: a result with an opening line of its own loses what is behind it.
-/
import Mathlib.Tactic
import Clawbolt.Core.Markers
import Clawbolt.History.Rebuild

namespace Clawbolt.History

open Text (Str)

/-! ## The code -/

@[irreducible] def markerStart : Str := "[skill-guidance: ".toList

@[irreducible] def closingStart : Str := "[/skill-guidance: ".toList

/-- `skill_delivery_marker` -/
def skillDeliveryMarker (name : Str) : Str := markerStart ++ name ++ [']']

/-- the closing marker, behind its newline -/
def closingMarker (name : Str) : Str := closingStart ++ name ++ [']']

/-- `skill_guidance_block` -/
def skillGuidanceBlock (name instructions : Str) : Str :=
  ['\n', '\n'] ++ skillDeliveryMarker name ++ ['\n'] ++ instructions ++ '\n' :: closingMarker name

/-- `_SKILL_MARKER_RE` at the start of the text: the name, and the text after the marker -/
def markerAt (t : Str) : Option (Str × Str) :=
  if markerStart.isPrefixOf t then
    let rest := t.drop markerStart.length
    let name := rest.takeWhile isNameChar
    let rest := rest.dropWhile isNameChar
    if name ≠ [] ∧ [']'].isPrefixOf rest then some (name, rest.drop 1) else none
  else none

/-- `_SKILL_MARKER_RE.findall`; the first `skip` characters are part of the last marker -/
def findMarkers : ℕ → Str → List Str
  | _, [] => []
  | skip + 1, _ :: cs => findMarkers skip cs
  | 0, c :: cs =>
    match markerAt (c :: cs) with
    | some (name, rest) => name :: findMarkers (cs.length - rest.length) cs
    | none => findMarkers 0 cs

/-- `extract_delivered_skills` -/
def extractDeliveredSkills (t : Str) : List Str := findMarkers 0 t

/-! ## Names and markers -/

theorem opening_eq : "\n\n[skill-guidance: ".toList = '\n' :: '\n' :: markerStart := by decide +kernel

theorem closing_eq : "\n[/skill-guidance: ".toList = '\n' :: closingStart := by decide +kernel

theorem newline_not_mem_markerStart : '\n' ∉ markerStart := by decide +kernel

theorem newline_not_mem_closingStart : '\n' ∉ closingStart := by decide +kernel

/-- `[A-Za-z0-9_-]+` -/
structure IsName (name : Str) : Prop where
  nonempty : name ≠ []
  chars : ∀ c ∈ name, isNameChar c = true

def openingText (name : Str) : Str := '\n' :: '\n' :: (skillDeliveryMarker name ++ ['\n'])

theorem skillGuidanceBlock_eq (name instructions : Str) : skillGuidanceBlock name instructions =
    '\n' :: '\n' :: (skillDeliveryMarker name ++ '\n' :: (instructions ++ '\n' :: closingMarker name)) := by
  simp only [skillGuidanceBlock, List.append_assoc, List.cons_append, List.nil_append]

section

variable {name name' rest : Str}

theorem IsName.not_mem (h : IsName name) {c : Char} (hc : isNameChar c = false) : c ∉ name := by
  intro hmem
  rw [h.chars c hmem] at hc
  cases hc

theorem IsName.takeWhile (h : IsName name) : (name ++ ']' :: rest).takeWhile isNameChar = name := by
  rw [List.takeWhile_append_of_pos h.chars, List.takeWhile_cons_of_neg (by decide), List.append_nil]

theorem IsName.dropWhile (h : IsName name) : (name ++ ']' :: rest).dropWhile isNameChar = ']' :: rest := by
  rw [List.dropWhile_append_of_pos h.chars, List.dropWhile_cons_of_neg (by decide)]

theorem newline_not_mem_marker (h : IsName name) : '\n' ∉ skillDeliveryMarker name := by
  have hname : '\n' ∉ name := h.not_mem (by decide)
  simp only [skillDeliveryMarker, List.mem_append, not_or]
  exact ⟨⟨newline_not_mem_markerStart, hname⟩, by decide⟩

theorem newline_not_mem_closing (h : IsName name) : '\n' ∉ closingMarker name := by
  have hname : '\n' ∉ name := h.not_mem (by decide)
  simp only [closingMarker, List.mem_append, not_or]
  exact ⟨⟨newline_not_mem_closingStart, hname⟩, by decide⟩

/-- a closing marker names its category -/
theorem name_eq_of_closing (h : IsName name) (h' : IsName name') (hpre : closingMarker name <+: closingMarker name' ++ rest) :
    name = name' := by
  obtain ⟨z, hz⟩ := hpre
  simp only [closingMarker, List.append_assoc, List.singleton_append] at hz
  have hnames : name ++ ']' :: z = name' ++ ']' :: rest := List.append_cancel_left hz
  calc
    name = (name ++ ']' :: z).takeWhile isNameChar := h.takeWhile.symm
    _ = (name' ++ ']' :: rest).takeWhile isNameChar := by rw [hnames]
    _ = name' := h'.takeWhile

/-- no closing marker is an opening one -/
theorem closingMarker_not_prefix : ¬ closingMarker name <+: skillDeliveryMarker name' ++ rest := by
  intro hpre
  have hstart : closingStart <+: skillDeliveryMarker name' ++ rest := by
    refine List.IsPrefix.trans ?_ hpre
    rw [closingMarker, List.append_assoc]
    exact List.prefix_append _ _
  have hstart' : markerStart <+: skillDeliveryMarker name' ++ rest := by
    rw [skillDeliveryMarker, List.append_assoc, List.append_assoc]
    exact List.prefix_append _ _
  have hne : ¬ markerStart.isPrefixOf closingStart = true ∧ ¬ closingStart.isPrefixOf markerStart = true := by decide +kernel
  rcases List.prefix_or_prefix_of_prefix hstart hstart' with hle | hge
  · exact hne.2 (List.isPrefixOf_iff_prefix.2 hle)
  · exact hne.1 (List.isPrefixOf_iff_prefix.2 hge)

theorem openingText_append (name rest : Str) :
    openingText name ++ rest = ('\n' :: '\n' :: markerStart) ++ (name ++ ']' :: '\n' :: rest) := by
  simp only [openingText, skillDeliveryMarker, List.append_assoc, List.cons_append, List.nil_append]

theorem openingLine_eq_some {t : Str} : openingLine t = some (name, rest) ↔ IsName name ∧ t = openingText name ++ rest := by
  constructor
  · intro h
    unfold openingLine at h
    simp only [opening_eq] at h
    split_ifs at h with hopen hname
    obtain ⟨rfl, rfl⟩ := Prod.mk.inj (Option.some.inj h)
    obtain ⟨z, rfl⟩ := List.isPrefixOf_iff_prefix.1 hopen
    rw [List.drop_left] at hname ⊢
    obtain ⟨hne, hclose⟩ := hname
    obtain ⟨w, hw⟩ := List.isPrefixOf_iff_prefix.1 hclose
    refine ⟨⟨hne, fun c hc => List.mem_takeWhile_imp hc⟩, ?_⟩
    have hsplit := List.takeWhile_append_dropWhile (p := isNameChar) (l := z)
    rw [← hw] at hsplit
    rw [openingText_append, ← hw]
    exact congrArg (('\n' :: '\n' :: markerStart) ++ ·) hsplit.symm
  · rintro ⟨hname, rfl⟩
    unfold openingLine
    simp only [opening_eq, openingText_append]
    rw [if_pos (List.isPrefixOf_iff_prefix.2 (List.prefix_append _ _)), List.drop_left, hname.takeWhile, hname.dropWhile,
      if_pos ⟨hname.nonempty, List.isPrefixOf_iff_prefix.2 ⟨rest, rfl⟩⟩]
    rfl

/-! ## Blocks -/

theorem delimitedBlock_eq {t : Str} (h : openingLine t = some (name, rest)) :
    delimitedBlock t = (Text.splitFirst ('\n' :: closingMarker name) rest).map Prod.snd := by
  have hclosing : "\n[/skill-guidance: ".toList ++ name ++ "]".toList = '\n' :: closingMarker name := by
    rw [closing_eq, closingMarker]
    rfl
  rw [delimitedBlock, h]
  simp only [hclosing]

theorem openingLine_append {t : Str} (h : openingLine t = some (name, rest)) (z : Str) :
    openingLine (t ++ z) = some (name, rest ++ z) := by
  obtain ⟨hname, rfl⟩ := openingLine_eq_some.1 h
  exact openingLine_eq_some.2 ⟨hname, List.append_assoc _ _ _⟩

/-- a block stays one in a longer text -/
theorem delimitedBlock_append {t z : Str} (h : delimitedBlock t = some rest) : delimitedBlock (t ++ z) = some (rest ++ z) := by
  cases hopen : openingLine t with
  | none =>
    rw [delimitedBlock, hopen] at h
    cases h
  | some p =>
    obtain ⟨name, after⟩ := p
    rw [delimitedBlock_eq hopen] at h
    obtain ⟨⟨x, y⟩, hsplit, rfl⟩ := Option.map_eq_some_iff.1 h
    rw [delimitedBlock_eq (openingLine_append hopen z), Text.splitFirst_append hsplit (List.cons_ne_nil _ _)]
    rfl

/-- the delivered block is one -/
theorem delimitedBlock_block (hname : IsName name) {instructions : Str}
    (hclear : ¬ '\n' :: closingMarker name <:+: instructions) :
    delimitedBlock (skillGuidanceBlock name instructions) = some [] := by
  have hopen : openingLine (skillGuidanceBlock name instructions) =
      some (name, instructions ++ '\n' :: closingMarker name) := by
    refine openingLine_eq_some.2 ⟨hname, ?_⟩
    rw [skillGuidanceBlock_eq, openingText]
    simp only [List.append_assoc, List.cons_append, List.nil_append]
  have hsplit := Text.splitFirst_line (newline_not_mem_closing hname) hclear []
  rw [List.append_nil] at hsplit
  rw [delimitedBlock_eq hopen, hsplit]
  rfl

/-- where a closing line can lie in a delivered block and the text in front of it -/
theorem closing_infix (hname : IsName name) (hname' : IsName name') {x instructions : Str}
    (h : '\n' :: closingMarker name <:+: x ++ '\n' :: (skillDeliveryMarker name' ++ '\n' ::
      (instructions ++ '\n' :: closingMarker name'))) :
    '\n' :: closingMarker name <:+: x ∨ '\n' :: closingMarker name <:+: '\n' :: instructions ∨ name = name' := by
  have hc := newline_not_mem_closing hname
  have hlacks : ∀ {y : Str}, '\n' ∉ y → ¬ '\n' :: closingMarker name <:+: y := fun hy hin => hy (hin.subset List.mem_cons_self)
  rcases Text.infix_line hc h with hx | hpre | hin
  · exact .inl hx
  · exact absurd hpre closingMarker_not_prefix
  · rcases Text.infix_line hc hin with hmarker | hpre | hin
    · exact absurd hmarker (hlacks (newline_not_mem_marker hname'))
    · exact .inr (.inl (List.cons_prefix_cons.2 ⟨rfl, Text.prefix_line hc hpre⟩).isInfix)
    · rcases Text.infix_line hc hin with hins | hpre | hin
      · exact .inr (.inl (hins.trans (List.suffix_cons _ _).isInfix))
      · have hclosing : closingMarker name <+: closingMarker name' ++ [] := by rwa [List.append_nil]
        exact .inr (.inr (name_eq_of_closing hname hname' hclosing))
      · exact absurd hin (hlacks (newline_not_mem_closing hname'))

/-- every opening line of the result, or that it ends with, has its closing line in the result, or is of another category
and has none in the instructions -/
def Apart (r name instructions : Str) : Prop :=
  ∀ a other rest, IsName other → r ++ ['\n'] = a ++ openingText other ++ rest →
    '\n' :: closingMarker other <:+: rest ∨
      (other ≠ name ∧ ¬ '\n' :: closingMarker other <:+: '\n' :: instructions)

/-- an opening line of a text with a block behind it: it lies in the text, or the text ends with it -/
theorem openingText_split {b z : Str} (hname : IsName name) (hb : b ≠ [])
    (h : b ++ '\n' :: '\n' :: z = openingText name ++ rest) :
    (∃ b', b = openingText name ++ b' ∧ rest = b' ++ '\n' :: '\n' :: z) ∨
      (b ++ ['\n'] = openingText name ∧ rest = '\n' :: z) := by
  have hmarker := newline_not_mem_marker hname
  have hopen : openingText name ++ rest = '\n' :: '\n' :: (skillDeliveryMarker name ++ '\n' :: rest) := by
    simp only [openingText, List.append_assoc, List.cons_append, List.nil_append]
  rw [hopen] at h
  obtain ⟨e, b, rfl⟩ := List.exists_cons_of_ne_nil hb
  obtain ⟨rfl, htail⟩ := List.cons_eq_cons.1 h
  cases b with
  | nil =>
    -- behind one newline the line goes on with its marker
    have hz : '\n' :: z = skillDeliveryMarker name ++ '\n' :: rest := (List.cons_eq_cons.1 htail).2
    cases hfirst : skillDeliveryMarker name with
    | nil =>
      have hlen := congrArg List.length hfirst
      simp [skillDeliveryMarker] at hlen
    | cons c w =>
      rw [hfirst] at hz hmarker
      obtain ⟨rfl, -⟩ := List.cons_eq_cons.1 hz
      exact absurd List.mem_cons_self hmarker
  | cons f b =>
    have hf : f = '\n' := (List.cons_eq_cons.1 htail).1
    have hline : b ++ '\n' :: '\n' :: z = skillDeliveryMarker name ++ '\n' :: rest := (List.cons_eq_cons.1 htail).2
    subst hf
    rcases List.append_eq_append_iff.1 hline with ⟨m, hm, hrest⟩ | ⟨m, rfl, hrest⟩
    · cases m with
      | nil =>
        obtain ⟨-, rfl⟩ := List.cons_eq_cons.1 hrest
        refine .inr ⟨?_, rfl⟩
        rw [openingText, hm, List.append_nil]
        rfl
      | cons d m =>
        obtain ⟨rfl, -⟩ := List.cons_eq_cons.1 hrest
        exact absurd (hm ▸ List.mem_append_right b List.mem_cons_self) hmarker
    · cases m with
      | nil =>
        obtain ⟨-, rfl⟩ := List.cons_eq_cons.1 hrest
        refine .inr ⟨?_, rfl⟩
        rw [openingText, List.append_nil]
        rfl
      | cons d m =>
        obtain ⟨rfl, rfl⟩ := List.cons_eq_cons.1 hrest
        refine .inl ⟨m, ?_, rfl⟩
        simp only [openingText, List.append_assoc, List.cons_append, List.nil_append]

/-- an opening line that is not closed in the result is not closed by the block -/
theorem delimitedBlock_apart {r a b instructions : Str} (hname : IsName name) (hr : r = a ++ b) (hb : b ≠ [])
    (hnone : delimitedBlock b = none) (hapart : Apart r name instructions) :
    delimitedBlock (b ++ skillGuidanceBlock name instructions) = none := by
  cases hopen : openingLine (b ++ skillGuidanceBlock name instructions) with
  | none => rw [delimitedBlock, hopen]
  | some p =>
    obtain ⟨other, rest⟩ := p
    obtain ⟨hother, htext⟩ := openingLine_eq_some.1 hopen
    have hc := newline_not_mem_closing hother
    rw [delimitedBlock_eq hopen, Option.map_eq_none_iff, Text.splitFirst_eq_none_iff]
    rw [skillGuidanceBlock_eq] at htext
    rcases openingText_split hother hb htext with ⟨b', rfl, rfl⟩ | ⟨hend, rfl⟩
    · -- the line lies in the result
      have hopen' : openingLine (openingText other ++ b') = some (other, b') := openingLine_eq_some.2 ⟨hother, rfl⟩
      rw [delimitedBlock_eq hopen', Option.map_eq_none_iff, Text.splitFirst_eq_none_iff] at hnone
      have hline : r ++ ['\n'] = a ++ openingText other ++ (b' ++ ['\n']) := by
        rw [hr]
        simp only [List.append_assoc]
      rcases hapart a other (b' ++ ['\n']) hother hline with hin | ⟨hne, hins⟩
      · rcases Text.infix_line hc hin with hb' | hpre | hnil
        · exact absurd hb' hnone
        · have hempty := List.prefix_nil.1 hpre
          simp [closingMarker] at hempty
        · exact absurd (List.infix_nil.1 hnil) (List.cons_ne_nil _ _)
      · intro hin
        rcases Text.infix_line hc hin with hb' | hpre | hin'
        · exact hnone hb'
        · refine absurd (List.mem_of_mem_head? (l := closingMarker other) ?_) hc
          obtain ⟨w, hw⟩ := hpre
          cases hfirst : closingMarker other with
          | nil => simp [closingMarker] at hfirst
          | cons d w' =>
            rw [hfirst] at hw
            rw [(List.cons_eq_cons.1 hw).1]
            rfl
        · rcases closing_infix (x := []) hother hname hin' with hnil | hins' | heq
          · exact absurd (List.infix_nil.1 hnil) (List.cons_ne_nil _ _)
          · exact hins hins'
          · exact hne heq
    · -- the result ends with the line
      have hline : r ++ ['\n'] = a ++ openingText other ++ [] := by
        rw [hr, List.append_assoc, hend, List.append_nil]
      rcases hapart a other [] hother hline with hnil | ⟨hne, hins⟩
      · exact absurd (List.infix_nil.1 hnil) (List.cons_ne_nil _ _)
      · intro hin
        rcases closing_infix (x := []) hother hname hin with hnil | hins' | heq
        · exact absurd (List.infix_nil.1 hnil) (List.cons_ne_nil _ _)
        · exact hins hins'
        · exact hne heq

theorem dropBlocks_skip {n : ℕ} {t : Str} (h : t.length ≤ n) : dropBlocks n t = ([], 0) := by
  induction t generalizing n with
  | nil => cases n <;> rfl
  | cons c t ih =>
    cases n with
    | zero => cases h
    | succ n => exact ih (Nat.le_of_succ_le_succ h)

/-- blocks in front of a text that none of them reaches into -/
theorem dropBlocks_through {r z : Str} (hz : ∀ a b, r = a ++ b → b ≠ [] → delimitedBlock b = none → delimitedBlock (b ++ z) = none)
    {skip : ℕ} (hskip : skip ≤ r.length) :
    dropBlocks skip (r ++ z) = ((dropBlocks skip r).1 ++ (dropBlocks 0 z).1, (dropBlocks skip r).2 + (dropBlocks 0 z).2) := by
  induction r generalizing skip with
  | nil =>
    obtain rfl := Nat.le_zero.1 hskip
    simp [dropBlocks]
  | cons c r ih =>
    have hrest : ∀ a b, r = a ++ b → b ≠ [] → delimitedBlock b = none → delimitedBlock (b ++ z) = none :=
      fun a b hr => hz (c :: a) b (congrArg (c :: ·) hr)
    cases skip with
    | succ skip => exact ih hrest (Nat.le_of_succ_le_succ hskip)
    | zero =>
      cases hblock : delimitedBlock (c :: r) with
      | some rest =>
        have hlong : delimitedBlock (c :: (r ++ z)) = some (rest ++ z) := delimitedBlock_append hblock
        have hlen : (r ++ z).length - (rest ++ z).length = r.length - rest.length := by
          rw [List.length_append, List.length_append]
          omega
        rw [List.cons_append, dropBlocks, hlong, dropBlocks, hblock]
        simp only [hlen, ih hrest (Nat.sub_le _ _)]
        rw [Nat.add_right_comm]
      | none =>
        have hlong : delimitedBlock (c :: (r ++ z)) = none := hz [] (c :: r) rfl (List.cons_ne_nil _ _) hblock
        rw [List.cons_append, dropBlocks, hlong, dropBlocks, hblock]
        simp only [ih hrest (Nat.zero_le _), List.cons_append]

/-! ## Markers -/

theorem markerAt_eq_some {t : Str} : markerAt t = some (name, rest) ↔ IsName name ∧ t = skillDeliveryMarker name ++ rest := by
  constructor
  · intro h
    unfold markerAt at h
    simp only at h
    split_ifs at h with hopen hname
    obtain ⟨rfl, rfl⟩ := Prod.mk.inj (Option.some.inj h)
    obtain ⟨z, rfl⟩ := List.isPrefixOf_iff_prefix.1 hopen
    rw [List.drop_left] at hname ⊢
    obtain ⟨hne, hclose⟩ := hname
    obtain ⟨w, hw⟩ := List.isPrefixOf_iff_prefix.1 hclose
    refine ⟨⟨hne, fun c hc => List.mem_takeWhile_imp hc⟩, ?_⟩
    have hsplit := List.takeWhile_append_dropWhile (p := isNameChar) (l := z)
    rw [← hw] at hsplit
    rw [skillDeliveryMarker, ← hw, List.append_assoc, List.append_assoc]
    exact congrArg (markerStart ++ ·) hsplit.symm
  · rintro ⟨hname, rfl⟩
    have htext : skillDeliveryMarker name ++ rest = markerStart ++ (name ++ ']' :: rest) := by
      simp only [skillDeliveryMarker, List.append_assoc, List.singleton_append]
    unfold markerAt
    simp only [htext]
    rw [if_pos (List.isPrefixOf_iff_prefix.2 (List.prefix_append _ _)), List.drop_left, hname.takeWhile, hname.dropWhile,
      if_pos ⟨hname.nonempty, List.isPrefixOf_iff_prefix.2 ⟨rest, rfl⟩⟩]
    rfl

/-- the bracket that a marker starts with is its only one -/
theorem marker_bracket (h : IsName name) : ∃ w, skillDeliveryMarker name = '[' :: w ∧ '[' ∉ w := by
  have hstart : ∃ w, markerStart = '[' :: w ∧ '[' ∉ w := by
    refine ⟨"skill-guidance: ".toList, by decide +kernel, by decide +kernel⟩
  obtain ⟨w, hw, hnot⟩ := hstart
  refine ⟨w ++ name ++ [']'], by rw [skillDeliveryMarker, hw]; rfl, ?_⟩
  have hname : '[' ∉ name := h.not_mem (by decide)
  simp only [List.mem_append, not_or]
  exact ⟨⟨hnot, hname⟩, by decide⟩

theorem findMarkers_skip (n : ℕ) (t : Str) : findMarkers n t = findMarkers 0 (t.drop n) := by
  induction t generalizing n with
  | nil => cases n <;> rfl
  | cons c t ih =>
    cases n with
    | zero => rfl
    | succ n => exact ih n

/-- a marker is found, whatever stands around it -/
theorem mem_findMarkers (hname : IsName name) (x y : Str) : name ∈ findMarkers 0 (x ++ (skillDeliveryMarker name ++ y)) := by
  obtain ⟨w, hw, -⟩ := marker_bracket hname
  induction hn : x.length using Nat.strong_induction_on generalizing x with
  | _ n ih =>
    cases x with
    | nil =>
      have hat : markerAt ('[' :: (w ++ y)) = some (name, y) := markerAt_eq_some.2 ⟨hname, by rw [hw]; rfl⟩
      rw [List.nil_append, hw, List.cons_append, findMarkers, hat]
      exact List.mem_cons_self
    | cons c x =>
      rw [List.cons_append, findMarkers]
      cases hat : markerAt (c :: (x ++ (skillDeliveryMarker name ++ y))) with
      | none => exact ih x.length (by rw [← hn]; exact Nat.lt_succ_self _) x rfl
      | some p =>
        obtain ⟨other, rest⟩ := p
        refine List.mem_cons_of_mem _ ?_
        obtain ⟨hother, htext⟩ := markerAt_eq_some.1 hat
        obtain ⟨w', hw', hnot⟩ := marker_bracket hother
        rw [hw', List.cons_append] at htext
        obtain ⟨rfl, htail⟩ := List.cons_eq_cons.1 htext
        -- the other marker ends in front of this one, which it has no second bracket for
        have hbehind : ∃ m, x = w' ++ m ∧ rest = m ++ (skillDeliveryMarker name ++ y) := by
          rcases List.append_eq_append_iff.1 htail with ⟨m, rfl, hm⟩ | ⟨m, rfl, rfl⟩
          · cases m with
            | nil => exact ⟨[], by rw [List.append_nil, List.append_nil], hm.symm⟩
            | cons d m =>
              rw [hw] at hm
              obtain ⟨rfl, -⟩ := List.cons_eq_cons.1 hm
              exact absurd (List.mem_append_right x List.mem_cons_self) hnot
          · exact ⟨m, rfl, rfl⟩
        obtain ⟨m, rfl, rfl⟩ := hbehind
        have hskip : (w' ++ m ++ (skillDeliveryMarker name ++ y)).length - (m ++ (skillDeliveryMarker name ++ y)).length =
            w'.length := by
          simp only [List.length_append]
          omega
        rw [hskip, findMarkers_skip, List.append_assoc, List.drop_left]
        refine ih m.length ?_ m rfl
        rw [← hn, List.length_cons, List.length_append]
        omega

/-! ## Results -/

/-- the text has an opening line -/
def HasLine (r : Str) : Prop := ∃ a other rest, IsName other ∧ r = a ++ openingText other ++ rest

/-- one of its opening lines has a closing line behind it -/
def HasBlock (r : Str) : Prop :=
  ∃ a other rest, IsName other ∧ r = a ++ openingText other ++ rest ∧ '\n' :: closingMarker other <:+: rest

theorem delimitedBlock_none {r a b : Str} (hno : ¬ HasBlock r) (hr : r = a ++ b) : delimitedBlock b = none := by
  cases hopen : openingLine b with
  | none => rw [delimitedBlock, hopen]
  | some p =>
    obtain ⟨other, rest⟩ := p
    obtain ⟨hother, rfl⟩ := openingLine_eq_some.1 hopen
    rw [delimitedBlock_eq hopen, Option.map_eq_none_iff, Text.splitFirst_eq_none_iff]
    intro hin
    exact hno ⟨a, other, rest, hother, by rw [hr, List.append_assoc], hin⟩

theorem dropBlocks_none {r : Str} (hno : ¬ HasBlock r) : dropBlocks 0 r = (r, 0) := by
  have hall : ∀ a b, r = a ++ b → delimitedBlock b = none := fun a b hr => delimitedBlock_none hno hr
  clear hno
  induction r with
  | nil => rfl
  | cons c r ih =>
    rw [dropBlocks, hall [] (c :: r) rfl]
    simp only [ih fun a b hr => hall (c :: a) b (congrArg (c :: ·) hr)]

theorem beforeLegacyBlock_lt {skip : ℕ} {t v : Str} (h : beforeLegacyBlock skip t = some v) : v.length < t.length := by
  induction t generalizing skip v with
  | nil => cases skip <;> cases h
  | cons c t ih =>
    have hcons : ∀ {n : ℕ}, (beforeLegacyBlock n t).map (c :: ·) = some v → v.length < (c :: t).length := by
      intro n hmap
      obtain ⟨v, hv, rfl⟩ := Option.map_eq_some_iff.1 hmap
      exact Nat.succ_lt_succ (ih hv)
    cases skip with
    | succ skip => exact hcons h
    | zero =>
      unfold beforeLegacyBlock at h
      split at h
      · split at h
        · next v' hv' =>
          obtain rfl := Option.some.inj h
          exact Nat.succ_lt_succ (ih hv')
        · obtain rfl := Option.some.inj h
          exact Nat.succ_pos _
      · exact hcons h

theorem beforeLegacyBlock_none {r : Str} : beforeLegacyBlock 0 r = none ↔ ¬ HasLine r := by
  induction r with
  | nil =>
    refine ⟨fun _ => ?_, fun _ => rfl⟩
    rintro ⟨a, other, rest, -, h⟩
    have hlen := congrArg List.length h
    simp [openingText] at hlen
  | cons c r ih =>
    cases hopen : openingLine (c :: r) with
    | some p =>
      obtain ⟨other, rest⟩ := p
      obtain ⟨hother, htext⟩ := openingLine_eq_some.1 hopen
      refine iff_of_false (fun h => ?_) (not_not.2 ⟨[], other, rest, hother, htext⟩)
      unfold beforeLegacyBlock at h
      rw [hopen] at h
      simp only at h
      split at h <;> cases h
    | none =>
      have hstep : beforeLegacyBlock 0 (c :: r) = (beforeLegacyBlock 0 r).map (c :: ·) := by
        rw [beforeLegacyBlock, hopen]
      rw [hstep, Option.map_eq_none_iff, ih]
      refine not_congr ⟨?_, ?_⟩
      · rintro ⟨a, other, rest, hother, rfl⟩
        exact ⟨c :: a, other, rest, hother, rfl⟩
      · rintro ⟨a, other, rest, hother, h⟩
        cases a with
        | nil =>
          rw [openingLine_eq_some.2 ⟨hother, h⟩] at hopen
          cases hopen
        | cons d a => exact ⟨a, other, rest, hother, (List.cons_eq_cons.1 h).2⟩

/-- a result is stripped to itself exactly when it has no opening line -/
theorem strip_self {r : Str} (hno : ¬ HasBlock r) : stripSkillGuidance r = r ↔ ¬ HasLine r := by
  have hstrip : stripSkillGuidance r = (beforeLegacyBlock 0 r).getD r := by
    rw [stripSkillGuidance, dropBlocks_none hno]
    exact if_neg (not_not.2 rfl)
  rw [hstrip, ← beforeLegacyBlock_none]
  cases hbefore : beforeLegacyBlock 0 r with
  | none => exact iff_of_true rfl rfl
  | some v =>
    refine iff_of_false (fun h => ?_) (by simp)
    have hlt := beforeLegacyBlock_lt hbefore
    rw [Option.getD_some] at h
    rw [h] at hlt
    exact absurd hlt (lt_irrefl _)

end

/-- what stripping makes of a result with a block behind it -/
structure Stripped (r name instructions : Str) : Prop where
  /-- the result without the blocks it had itself -/
  text : stripSkillGuidance (r ++ skillGuidanceBlock name instructions) = (dropBlocks 0 r).1
  delivered : name ∈ extractDeliveredSkills (r ++ skillGuidanceBlock name instructions)
  result : ¬ HasBlock r → stripSkillGuidance (r ++ skillGuidanceBlock name instructions) = r
  /-- no delivery is left but those that the result marks -/
  rearmed : ¬ HasBlock r →
    extractDeliveredSkills (stripSkillGuidance (r ++ skillGuidanceBlock name instructions)) = extractDeliveredSkills r
  again : ¬ HasBlock r → (stripSkillGuidance (stripSkillGuidance (r ++ skillGuidanceBlock name instructions)) =
    stripSkillGuidance (r ++ skillGuidanceBlock name instructions) ↔ ¬ HasLine r)

/-- **Guidance strips cleanly.** -/
theorem strip_delivered (r name instructions : Str) (hname : IsName name)
    (hclear : ¬ '\n' :: closingMarker name <:+: instructions) (hapart : Apart r name instructions) :
    Stripped r name instructions := by
  have hblock : dropBlocks 0 (skillGuidanceBlock name instructions) = ([], 1) := by
    have hat := delimitedBlock_block hname hclear
    rw [skillGuidanceBlock_eq] at hat ⊢
    rw [dropBlocks, hat]
    simp only [dropBlocks_skip (Nat.le_refl _), List.length_nil, Nat.sub_zero]
  have hdrop := dropBlocks_through (r := r) (z := skillGuidanceBlock name instructions)
    (fun a b hr hb hnone => delimitedBlock_apart hname hr hb hnone hapart) (Nat.zero_le _)
  have htext : stripSkillGuidance (r ++ skillGuidanceBlock name instructions) = (dropBlocks 0 r).1 := by
    rw [stripSkillGuidance, hdrop, hblock, List.append_nil]
    exact if_pos (Nat.succ_ne_zero _)
  have hresult : ¬ HasBlock r → stripSkillGuidance (r ++ skillGuidanceBlock name instructions) = r := by
    intro hno
    rw [htext, dropBlocks_none hno]
  refine ⟨htext, ?_, hresult, fun hno => by rw [hresult hno], fun hno => ?_⟩
  · rw [extractDeliveredSkills, skillGuidanceBlock]
    have hmem := mem_findMarkers hname (r ++ ['\n', '\n']) (['\n'] ++ instructions ++ '\n' :: closingMarker name)
    simpa only [List.append_assoc] using hmem
  · rw [hresult hno]
    exact strip_self hno

/-- a text too short for an opening line -/
theorem apart_of_short {r name instructions : Str} (h : r.length < 20) : Apart r name instructions := by
  intro a other rest hother hline
  have hstart : markerStart.length = 17 := by decide +kernel
  have hpos := List.length_pos_of_ne_nil hother.nonempty
  have hlen := congrArg List.length hline
  simp only [openingText, skillDeliveryMarker, List.length_append, List.length_cons, List.length_nil, hstart] at hlen
  omega

theorem strip_delivered_ok : Stripped "ok".toList "file".toList "Use it.".toList := by
  have hname : IsName "file".toList := ⟨by decide, List.all_eq_true.1 (by decide)⟩
  refine strip_delivered "ok".toList "file".toList "Use it.".toList hname ?_ (apart_of_short (by decide))
  rw [← Text.contains_iff]
  decide +kernel

/-- a result with an opening line of the same category loses what is behind it; with one of another category it comes back,
and loses it when it is stripped again -/
theorem marker_in_result :
    stripSkillGuidance ("Mail:\n\n[skill-guidance: file]\n7 invoices".toList ++ skillGuidanceBlock "file".toList "Use it.".toList) =
      "Mail:".toList ∧
    stripSkillGuidance ("Mail:\n\n[skill-guidance: x]\n7 invoices".toList ++ skillGuidanceBlock "file".toList "Use it.".toList) =
      "Mail:\n\n[skill-guidance: x]\n7 invoices".toList ∧
    stripSkillGuidance "Mail:\n\n[skill-guidance: x]\n7 invoices".toList = "Mail:".toList := by
  refine ⟨by decide +kernel, by decide +kernel, by decide +kernel⟩

end Clawbolt.History

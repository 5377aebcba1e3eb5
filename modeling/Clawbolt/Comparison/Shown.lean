/-
The record IDs that a model was never shown (`fabricated_ids`, `prompt_text` and `canonical_args` of
services/model_comparison/checks.py): an ID is looked for in the text of the prompt and of the replayed lookups, in which
the arguments of an earlier call stand as JSON.

- `occurs_seen`: an ID occurs in what was shown, where it occurs in one of its texts;
- `occurs_canonicalArgs`: an ID in the JSON of a call, when nothing in it has to be escaped;
- `occurs_of_open`: an argument value that JSON prints as it is;
- `shown_exact`: the IDs that are called fabricated.
-/
import Mathlib.Tactic
import Clawbolt.Core.Dumps
import Clawbolt.History.Message
import Clawbolt.Comparison.Checks

namespace Clawbolt.Checks

open Text (Str)
open Clawbolt.History (AgentMessage ToolCallRequest)

/-! ## Model -/

/-- `canonical_args` -/
def canonicalArgs (env : Env) (args : Dict Json) : Str := Json.dumps env.floatText strLe (.obj args)

/-- what `prompt_text` collects of one message -/
def shownParts (env : Env) : AgentMessage → List Str
  | .system content => [content]
  | .user content _ => [content]
  | .assistant content toolCalls _ => content.getD [] :: toolCalls.map fun tc => canonicalArgs env tc.arguments
  | .toolResult _ content _ => [content]

/-- `prompt_text` -/
def promptText (env : Env) (messages : List AgentMessage) : Str :=
  Text.join "\n".toList (messages.flatMap (shownParts env))

/-- what `check_candidate` searches: the prompt and the results of the replayed lookups -/
def seenText (env : Env) (messages : List AgentMessage) (lookups : List RecordedToolResult) : Str :=
  Text.join "\n".toList (promptText env messages :: lookups.map (·.result))

/-! ## What was shown -/

/-- an ID in a text, on its own and whatever the case -/
def Occurs (env : Env) (id text : Str) : Prop := Text.hasToken isWord (env.lower id) (env.lower text) = true

instance (env : Env) (id text : Str) : Decidable (Occurs env id text) := inferInstanceAs (Decidable (_ = true))

def contentOf : AgentMessage → Str
  | .system content => content
  | .user content _ => content
  | .assistant content _ _ => content.getD []
  | .toolResult _ content _ => content

def callsOf : AgentMessage → List ToolCallRequest
  | .assistant _ toolCalls _ => toolCalls
  | _ => []

/-- the contents of messages and the results of lookups -/
def texts (messages : List AgentMessage) (lookups : List RecordedToolResult) : List Str :=
  messages.map contentOf ++ lookups.map (·.result)

mutual

/-- the values that are neither lists nor objects, at any depth -/
def scalars : Json → List Json
  | .arr l => scalarsOfItems l
  | .obj d => scalarsOfFields d
  | v => [v]

def scalarsOfItems : List Json → List Json
  | [] => []
  | v :: l => scalars v ++ scalarsOfItems l

def scalarsOfFields : List (Str × Json) → List Json
  | [] => []
  | (_, v) :: d => scalars v ++ scalarsOfFields d

end

/-- the text of a key or a scalar -/
def spelling (env : Env) : Json → Str
  | .str s => s
  | v => Json.atomText env.floatText strLe v

/-- an ID in a text that was shown, or in an argument value of an earlier call -/
def Given (env : Env) (id : Str) (messages : List AgentMessage) (lookups : List RecordedToolResult) : Prop :=
  (∃ t ∈ texts messages lookups, Occurs env id t) ∨
    ∃ call ∈ messages.flatMap callsOf, ∃ v ∈ scalars (.obj call.arguments), Occurs env id (spelling env v)

/-- an ID in a scalar where JSON prints it as it is: a number that has no exponent, or plain characters of a string that
follow no escaped character but a quote or a backslash -/
def Open (env : Env) (id : Str) : Json → Prop
  | .int n => Occurs env id (intText n)
  | .float x => ∃ n : ℤ, x = n ∧ |n| < 10 ^ 16 ∧ Occurs env id (intText n)
  | .str s => ∃ x u y, s = x ++ u ++ y ∧ (∀ c ∈ u, Json.plain c = true) ∧ env.lower u = env.lower id ∧
      (∀ c ∈ x.getLast?, (Json.plain c = true ∧ isWord c.toLower = false) ∨ c = '"' ∨ c = '\\') ∧
      ∀ c ∈ y.head?, Json.plain c = true → isWord c.toLower = false
  | _ => False

/-- what Python promises of `str.lower`, and of `repr` of a float -/
structure Python (env : Env) : Prop where
  ascii : ∀ t, (∀ c ∈ t, c.toNat < 128) → env.lower t = t.map Char.toLower
  lines : ∀ s t, env.lower (s ++ '\n' :: t) = env.lower s ++ '\n' :: env.lower t
  /-- what is no letter is not made of something else -/
  others : ∀ t, ∀ c ∈ env.lower t, c.toNat < 128 → c.isAlpha = false → c ∈ t
  length : ∀ t, t.length ≤ (env.lower t).length
  floats : ∀ x, ∀ c ∈ env.floatText x, c.toNat < 128
  integral : ∀ n : ℤ, |n| < 10 ^ 16 → env.floatText n = intText n ++ ['.', '0']

/-! ## The IDs of a call -/

theorem shapedId_shaped {env : Env} {text v : Str} (h : v ∈ shapedId env text) : looksLikeId env v = true := by
  rw [shapedId] at h
  split_ifs at h with hshape
  · rw [List.mem_singleton.1 h]
    exact hshape
  · exact absurd h List.not_mem_nil

mutual

theorem idValues_shaped {env : Env} : ∀ (a : Json), ∀ v ∈ idValues env a, looksLikeId env v = true
  | .null, _, h => absurd h List.not_mem_nil
  | .bool _, _, h => absurd h List.not_mem_nil
  | .int n, _, h => shapedId_shaped h
  | .float x, v, h => by
    rw [idValues] at h
    split_ifs at h
    · exact shapedId_shaped h
    · exact absurd h List.not_mem_nil
  | .str s, _, h => shapedId_shaped h
  | .arr l, v, h => idValuesList_shaped l v h
  | .obj _, _, h => absurd h List.not_mem_nil

theorem idValuesList_shaped {env : Env} : ∀ (l : List Json), ∀ v ∈ idValuesList env l, looksLikeId env v = true
  | [], _, h => absurd h List.not_mem_nil
  | a :: l, v, h => (List.mem_append.1 h).elim (idValues_shaped a v) (idValuesList_shaped l v)

end

mutual

theorem nestedIds_shaped {env : Env} {place : Str} : ∀ (a : Json), ∀ p ∈ nestedIds env place a, looksLikeId env p.2 = true
  | .null, _, h => absurd h List.not_mem_nil
  | .bool _, _, h => absurd h List.not_mem_nil
  | .int _, _, h => absurd h List.not_mem_nil
  | .float _, _, h => absurd h List.not_mem_nil
  | .str _, _, h => absurd h List.not_mem_nil
  | .arr l, p, h => collectItems_shaped l p h
  | .obj d, p, h => collectIds_shaped d p h

theorem collectItems_shaped {env : Env} {path : Str} : ∀ (l : List Json), ∀ p ∈ collectItems env path l,
    looksLikeId env p.2 = true
  | [], _, h => absurd h List.not_mem_nil
  | .obj d :: l, p, h => (List.mem_append.1 h).elim (collectIds_shaped d p) (collectItems_shaped l p)
  | .null :: l, p, h => collectItems_shaped l p h
  | .bool _ :: l, p, h => collectItems_shaped l p h
  | .int _ :: l, p, h => collectItems_shaped l p h
  | .float _ :: l, p, h => collectItems_shaped l p h
  | .str _ :: l, p, h => collectItems_shaped l p h
  | .arr _ :: l, p, h => collectItems_shaped l p h

/-- an ID that was found has the shape of one -/
theorem collectIds_shaped {env : Env} {idKeys : List Str} {path : Str} : ∀ (d : List (Str × Json)),
    ∀ p ∈ collectIds env idKeys path d, looksLikeId env p.2 = true
  | [], _, h => absurd h List.not_mem_nil
  | (key, value) :: d, p, h => by
    rw [collectIds, List.mem_append, List.mem_append] at h
    obtain (h | h) | h := h
    · split_ifs at h
      · obtain ⟨v, hv, rfl⟩ := List.mem_map.1 h
        exact idValues_shaped value v hv
      · exact absurd h List.not_mem_nil
    · exact nestedIds_shaped value p h
    · exact collectIds_shaped d p h

end

/-! ## Lines -/

/-- an ID once lowered -/
structure Lowered (env : Env) (id : Str) : Prop where
  length : 3 ≤ (env.lower id).length
  line : '\n' ∉ env.lower id
  space : ' ' ∉ env.lower id

variable {env : Env}

theorem Python.lowered (h : Python env) {id : Str} (hid : looksLikeId env id = true) : Lowered env id := by
  simp only [looksLikeId, Bool.and_eq_true, decide_eq_true_eq, Bool.not_eq_true', List.any_eq_false] at hid
  obtain ⟨⟨⟨⟨hlength, _⟩, _⟩, hspace⟩, _⟩ := hid
  refine ⟨hlength.trans (h.length id), ?_, ?_⟩
  · intro hline
    exact hspace _ (h.others id _ hline (by decide) (by decide)) (by decide)
  · intro hblank
    exact hspace _ (h.others id _ hblank (by decide) (by decide)) (by decide)

theorem not_occurs_nil (h : Python env) {id : Str} (hid : Lowered env id) : ¬ Occurs env id [] := by
  intro hoccurs
  rw [Occurs, h.ascii [] (fun c hc => absurd hc List.not_mem_nil)] at hoccurs
  obtain ⟨a, b, hab, _⟩ := Text.hasToken_iff.1 hoccurs
  have hlen := congrArg List.length hab
  have hlong := hid.length
  simp only [List.map_nil, List.length_append, List.length_nil] at hlen
  omega

theorem occurs_lines (h : Python env) {id : Str} (hid : Lowered env id) (ts : List Str) :
    Occurs env id (Text.join "\n".toList ts) ↔ ∃ t ∈ ts, Occurs env id t := by
  induction ts with
  | nil => exact iff_of_false (not_occurs_nil h hid) fun ⟨_, ht, _⟩ => absurd ht List.not_mem_nil
  | cons t ts ih =>
    rw [List.exists_mem_cons_iff, ← ih]
    cases ts with
    | nil =>
      rw [Text.join, List.intercalate_singleton]
      exact (or_iff_left (not_occurs_nil h hid)).symm
    | cons u ts =>
      have hcons : Text.join "\n".toList (t :: u :: ts) = t ++ '\n' :: Text.join "\n".toList (u :: ts) := by
        rw [Text.join, List.intercalate_cons_cons, List.append_assoc]
        rfl
      rw [hcons, Occurs, h.lines, Text.hasToken_separated (by decide) hid.line]
      rfl

theorem shownParts_eq (m : AgentMessage) :
    shownParts env m = contentOf m :: (callsOf m).map fun tc => canonicalArgs env tc.arguments := by
  cases m <;> rfl

/-- **Where an ID was shown.** -/
theorem occurs_seen (h : Python env) {id : Str} (hid : Lowered env id) (messages : List AgentMessage)
    (lookups : List RecordedToolResult) :
    Occurs env id (seenText env messages lookups) ↔
      (∃ t ∈ texts messages lookups, Occurs env id t) ∨
        ∃ call ∈ messages.flatMap callsOf, Occurs env id (canonicalArgs env call.arguments) := by
  rw [seenText, occurs_lines h hid, List.exists_mem_cons_iff, promptText, occurs_lines h hid]
  constructor
  · rintro (⟨t, ht, hoccurs⟩ | ⟨t, ht, hoccurs⟩)
    · obtain ⟨m, hm, ht⟩ := List.mem_flatMap.1 ht
      rw [shownParts_eq] at ht
      obtain rfl | ht := List.mem_cons.1 ht
      · exact .inl ⟨_, List.mem_append_left _ (List.mem_map_of_mem hm), hoccurs⟩
      · obtain ⟨call, hcall, rfl⟩ := List.mem_map.1 ht
        exact .inr ⟨call, List.mem_flatMap.2 ⟨m, hm, hcall⟩, hoccurs⟩
    · exact .inl ⟨t, List.mem_append_right _ ht, hoccurs⟩
  · rintro (⟨t, ht, hoccurs⟩ | ⟨call, hcall, hoccurs⟩)
    · obtain ht | ht := List.mem_append.1 ht
      · obtain ⟨m, hm, rfl⟩ := List.mem_map.1 ht
        refine .inl ⟨_, List.mem_flatMap.2 ⟨m, hm, ?_⟩, hoccurs⟩
        rw [shownParts_eq]
        exact List.mem_cons_self
      · exact .inr ⟨t, ht, hoccurs⟩
    · obtain ⟨m, hm, hcall⟩ := List.mem_flatMap.1 hcall
      refine .inl ⟨_, List.mem_flatMap.2 ⟨m, hm, ?_⟩, hoccurs⟩
      rw [shownParts_eq]
      exact List.mem_cons_of_mem _ (List.mem_map_of_mem hcall)

/-! ## The JSON of a call -/

theorem lower_canonicalArgs (h : Python env) (args : Dict Json) :
    env.lower (canonicalArgs env args) = (canonicalArgs env args).map Char.toLower :=
  h.ascii _ (Json.dumps_ascii h.floats _)

theorem punctuation_marks {c : Char} (hc : c ∈ Json.punctuation) :
    c.toLower = c ∧ isWord c = false ∧ c.toNat < 128 ∧ c.isAlpha = false := by
  have hall : Json.punctuation.all (fun c => c.toLower = c && (!isWord c && (c.toNat < 128 && !c.isAlpha))) = true := by
    decide
  have hmark := List.all_eq_true.1 hall c hc
  simpa only [Bool.and_eq_true, decide_eq_true_eq, Bool.not_eq_true'] using hmark

/-- a search that quotes, brackets, commas and spaces part -/
theorem parted_hasToken {w : Str} (hlength : 2 ≤ w.length) (hclean : ∀ c ∈ Json.punctuation, c ∉ w) :
    Json.Parted fun t => Text.hasToken isWord w (t.map Char.toLower) = true := by
  have hshort : ∀ t : Str, t.length < 2 → ¬ Text.hasToken isWord w t = true := by
    intro t ht hfound
    obtain ⟨a, b, rfl, _⟩ := Text.hasToken_iff.1 hfound
    simp only [List.length_append] at ht
    omega
  refine ⟨hshort _ (by decide), hshort _ (by decide), ?_⟩
  intro c hc s t
  obtain ⟨hlower, hword, _⟩ := punctuation_marks hc
  rw [List.map_append, List.map_cons, hlower, Text.hasToken_separated hword (hclean c hc)]

/-- **An ID in the JSON of a call.** Nothing in it is escaped, and the ID has no quotes, commas and brackets. -/
theorem occurs_canonicalArgs (h : Python env) {id : Str} (hid : Lowered env id)
    (hclean : ∀ c ∈ Json.punctuation, c ∉ id) {args : Dict Json}
    (hplain : ∀ s, Json.str s ∈ Json.atoms (.obj args) → ∀ c ∈ s, Json.plain c = true) :
    Occurs env id (canonicalArgs env args) ↔ ∃ a ∈ Json.atoms (.obj args), Occurs env id (spelling env a) := by
  have hlowered : ∀ c ∈ Json.punctuation, c ∉ env.lower id := by
    intro c hc hmem
    obtain ⟨_, _, hascii, hmark⟩ := punctuation_marks hc
    exact hclean c hc (h.others id c hmem hascii hmark)
  have hparted := parted_hasToken ((by decide : 2 ≤ 3).trans hid.length) hlowered
  rw [Occurs, lower_canonicalArgs h, canonicalArgs, Json.dumps_iff hparted (.obj args)]
  apply exists_congr
  intro a
  apply and_congr_right
  intro ha
  have hspelling : Json.atomText env.floatText strLe a = spelling env a := by
    cases a with
    | str s => exact Json.escape_plain (hplain s ha)
    | _ => rfl
  rw [Occurs, ← hspelling, h.ascii _ (Json.atomText_ascii h.floats a)]

mutual

theorem mem_atoms_of_scalar : ∀ (v : Json), ∀ a ∈ scalars v, a ∈ Json.atoms v
  | .null, _, h => h
  | .bool _, _, h => h
  | .int _, _, h => h
  | .float _, _, h => h
  | .str _, _, h => h
  | .arr l, a, h => mem_atomsOfItems_of_scalar l a h
  | .obj d, a, h => mem_atomsOfFields_of_scalar d a h

theorem mem_atomsOfItems_of_scalar : ∀ (l : List Json), ∀ a ∈ scalarsOfItems l, a ∈ Json.atomsOfItems l
  | [], _, h => absurd h List.not_mem_nil
  | v :: l, a, h => List.mem_append.2 ((List.mem_append.1 h).imp (mem_atoms_of_scalar v a) (mem_atomsOfItems_of_scalar l a))

theorem mem_atomsOfFields_of_scalar : ∀ (d : List (Str × Json)), ∀ a ∈ scalarsOfFields d, a ∈ Json.atomsOfFields d
  | [], _, h => absurd h List.not_mem_nil
  | (_, v) :: d, a, h => List.mem_cons_of_mem _
      (List.mem_append.2 ((List.mem_append.1 h).imp (mem_atoms_of_scalar v a) (mem_atomsOfFields_of_scalar d a)))

end

/-- an ID found in the text of a scalar of a call is found in its JSON -/
theorem occurs_of_scalar (h : Python env) {id : Str} {args : Dict Json} {v : Json} (hv : v ∈ scalars (.obj args))
    (hfound : Text.hasToken isWord (env.lower id) ((Json.atomText env.floatText strLe v).map Char.toLower) = true) :
    Occurs env id (canonicalArgs env args) := by
  have hwithin : Json.Within (Json.atomText env.floatText strLe v) (canonicalArgs env args) :=
    Json.within_dumps (.obj args) v (mem_atoms_of_scalar _ v hv)
  obtain ⟨x, y, hxy, hx, hy⟩ := hwithin
  have hmark : ∀ o : Option Char, (∀ c ∈ o, c ∈ Json.punctuation) → ∀ c ∈ o.map Char.toLower, isWord c = false := by
    intro o ho c hc
    obtain ⟨d, hd, rfl⟩ := Option.map_eq_some_iff.1 hc
    obtain ⟨hlower, hword, _⟩ := punctuation_marks (ho d hd)
    rw [hlower, hword]
  rw [Occurs, lower_canonicalArgs h, hxy, List.map_append, List.map_append]
  apply Text.hasToken_around _ _ hfound
  · rw [List.getLast?_map]
    exact hmark _ hx
  · rw [List.head?_map]
    exact hmark _ hy

theorem last_escape {x : Str}
    (hx : ∀ c ∈ x.getLast?, (Json.plain c = true ∧ isWord c.toLower = false) ∨ c = '"' ∨ c = '\\') :
    ∀ d ∈ ((Json.escape x).map Char.toLower).getLast?, isWord d = false := by
  obtain rfl | ⟨x, c, rfl⟩ := List.eq_nil_or_concat x
  · exact fun d hd => absurd hd (Option.not_mem_none d)
  · intro d hd
    rw [List.concat_eq_append] at hx hd
    rw [List.getLast?_concat] at hx
    have hend : Json.escape (x ++ [c]) = Json.escape x ++ Json.escapeChar c := by
      rw [Json.escape_append]
      exact congrArg _ (List.append_nil _)
    rw [hend, List.map_append] at hd
    obtain ⟨hplain, hword⟩ | rfl | rfl := hx c rfl
    · rw [Json.escapeChar, if_pos hplain, List.map_singleton, List.getLast?_concat, Option.mem_some] at hd
      rw [← hd, hword]
    · rw [List.getLast?_append_of_ne_nil _ (by decide)] at hd
      rw [← Option.some.inj hd]
      decide
    · rw [List.getLast?_append_of_ne_nil _ (by decide)] at hd
      rw [← Option.some.inj hd]
      decide

theorem head_escape {y : Str} (hy : ∀ c ∈ y.head?, Json.plain c = true → isWord c.toLower = false) :
    ∀ d ∈ ((Json.escape y).map Char.toLower).head?, isWord d = false := by
  cases y with
  | nil => exact fun d hd => absurd hd (Option.not_mem_none d)
  | cons c y =>
    intro d hd
    rw [Json.escape, List.flatMap_cons] at hd
    cases hplain : Json.plain c with
    | true =>
      rw [Json.escapeChar, if_pos hplain] at hd
      rw [← Option.some.inj hd]
      exact hy c rfl hplain
    | false =>
      obtain ⟨t, ht⟩ := Json.escapeChar_escaped hplain
      rw [ht] at hd
      rw [← Option.some.inj hd]
      decide

theorem hasToken_self {w : Str} : Text.hasToken isWord w w = true :=
  Text.hasToken_iff.2 ⟨[], [], (List.append_nil w).symm, rfl, rfl⟩

/-- **An ID in an argument value** that JSON prints as it is -/
theorem occurs_of_open (h : Python env) {id : Str} {args : Dict Json} {v : Json} (hv : v ∈ scalars (.obj args))
    (hopen : Open env id v) : Occurs env id (canonicalArgs env args) := by
  apply occurs_of_scalar h hv
  cases v with
  | int n =>
    rw [Open, Occurs, h.ascii (intText n) (Json.toString_int_ascii n)] at hopen
    exact hopen
  | float x =>
    obtain ⟨n, rfl, hsmall, hoccurs⟩ := hopen
    rw [Occurs, h.ascii (intText n) (Json.toString_int_ascii n)] at hoccurs
    have hpoint : Json.atomText env.floatText strLe (.float n) = intText n ++ ['.', '0'] := h.integral n hsmall
    rw [hpoint, List.map_append]
    exact Text.hasToken_around (x := []) (fun d hd => absurd hd (Option.not_mem_none d)) (by simp [isWord]) hoccurs
  | str s =>
    obtain ⟨x, u, y, rfl, hplain, hsame, hx, hy⟩ := hopen
    have hascii : ∀ c ∈ u, c.toNat < 128 := fun c hc => Json.plain_ascii (hplain c hc)
    have htext : Json.atomText env.floatText strLe (.str (x ++ u ++ y)) = Json.escape x ++ u ++ Json.escape y := by
      rw [Json.atomText, Json.escape_append, Json.escape_append, Json.escape_plain hplain]
    rw [htext, List.map_append, List.map_append, ← hsame, h.ascii u hascii]
    exact Text.hasToken_around (last_escape hx) (head_escape hy) hasToken_self
  | _ => exact hopen.elim

/-! ## The IDs that are called fabricated -/

theorem not_reported_iff {tool : Tool} {args : Dict Json} {p : Str × Str} {seen : Str}
    (hp : p ∈ collectIds env (idProperties env tool.properties) [] args) :
    p ∉ fabricatedIds env tool args seen ↔ Occurs env p.2 seen := by
  rw [fabricatedIds, List.mem_filter, Bool.not_eq_true', ← Bool.not_eq_true, Occurs]
  exact ⟨fun hnot => by_contra fun hoccurs => hnot ⟨hp, hoccurs⟩, fun hoccurs hnot => hnot.2 hoccurs⟩

/-- **The IDs that are called fabricated.** None that is in a text that was shown, or openly in an argument value of an
earlier call; every one that is in none of these texts and in the JSON of no call; and that JSON holds an ID where a key
or a value of the call holds it. -/
theorem shown_exact (env : Env) (h : Python env) (tool : Tool) (args : Dict Json) (messages : List AgentMessage)
    (lookups : List RecordedToolResult) (p : Str × Str)
    (hp : p ∈ collectIds env (idProperties env tool.properties) [] args) :
    ((∃ t ∈ texts messages lookups, Occurs env p.2 t) → p ∉ fabricatedIds env tool args (seenText env messages lookups)) ∧
    (∀ call ∈ messages.flatMap callsOf, ∀ v ∈ scalars (.obj call.arguments), Open env p.2 v →
      p ∉ fabricatedIds env tool args (seenText env messages lookups)) ∧
    ((∀ t ∈ texts messages lookups, ¬ Occurs env p.2 t) →
      (∀ call ∈ messages.flatMap callsOf, ¬ Occurs env p.2 (canonicalArgs env call.arguments)) →
      p ∈ fabricatedIds env tool args (seenText env messages lookups)) ∧
    ∀ call ∈ messages.flatMap callsOf, (∀ c ∈ Json.punctuation, c ∉ p.2) →
      (∀ s, Json.str s ∈ Json.atoms (.obj call.arguments) → ∀ c ∈ s, Json.plain c = true) →
      (Occurs env p.2 (canonicalArgs env call.arguments) ↔
        ∃ a ∈ Json.atoms (.obj call.arguments), Occurs env p.2 (spelling env a)) := by
  have hid := h.lowered (collectIds_shaped args p hp)
  have hseen : p ∉ fabricatedIds env tool args (seenText env messages lookups) ↔ _ :=
    (not_reported_iff hp).trans (occurs_seen h hid messages lookups)
  refine ⟨?_, ?_, ?_, ?_⟩
  · intro hshown
    exact hseen.2 (.inl hshown)
  · intro call hcall v hv hopen
    exact hseen.2 (.inr ⟨call, hcall, occurs_of_open h hv hopen⟩)
  · intro htexts hcalls
    by_contra hnot
    obtain ⟨t, ht, hoccurs⟩ | ⟨call, hcall, hoccurs⟩ := hseen.1 hnot
    · exact htexts t ht hoccurs
    · exact hcalls call hcall hoccurs
  · intro call _ hclean hplain
    exact occurs_canonicalArgs h hid hclean hplain

/-- ASCII only, and floats that are whole or 1.5 -/
def asciiOnly : Env where
  isDigit := Char.isDigit
  isAlnum := Char.isAlphanum
  lower t := t.map Char.toLower
  casefold t := t.map Char.toLower
  floatText x := if x.den = 1 then intText x.num ++ ['.', '0'] else "1.5".toList

theorem toLower_letter (c : Char) : c.toLower = c ∨ c.toLower.isAlpha = true := by
  by_cases hupper : 65 ≤ c.toNat ∧ c.toNat ≤ 90
  · have hall : ∀ n : Fin 91, 65 ≤ n.val → (Char.ofNat n).toLower.isAlpha = true := by decide
    have hletter := hall ⟨c.toNat, Nat.lt_succ_of_le hupper.2⟩ hupper.1
    rw [Char.ofNat_toNat] at hletter
    exact .inr hletter
  · exact .inl (dif_neg hupper)

theorem python_asciiOnly : Python asciiOnly where
  ascii _ _ := rfl
  lines s t := by
    simp only [asciiOnly, List.map_append, List.map_cons]
    rfl
  others t c hc _ halpha := by
    obtain ⟨d, hd, rfl⟩ := List.mem_map.1 hc
    obtain hsame | hletter := toLower_letter d
    · rwa [hsame]
    · exact absurd hletter (Bool.eq_false_iff.1 halpha)
  length t := by simp only [asciiOnly, List.length_map, le_refl]
  floats x := by
    simp only [asciiOnly]
    split_ifs
    · exact List.forall_mem_append.2 ⟨Json.toString_int_ascii _, Json.ascii_of_all (by decide)⟩
    · exact Json.ascii_of_all (by decide)
  integral n _ := by
    simp only [asciiOnly, Rat.den_intCast, if_true, Rat.num_intCast]

/-- a lookup of work orders that names one -/
def lookedUp (arguments : Dict Json) : List AgentMessage :=
  [.user "Add a note".toList none, .assistant none [⟨"t1".toList, "get_work_orders".toList, arguments⟩] none]

/-- an ID that was looked up as a number is not called fabricated, its neighbour is -/
theorem shown_exact_number :
    ("work_order_id".toList, "118600".toList) ∉ fabricatedIds asciiOnly addNote (noteOn "118600".toList)
      (seenText asciiOnly (lookedUp [("ids".toList, .arr [.int 118600])]) []) ∧
    ("work_order_id".toList, "118601".toList) ∈ fabricatedIds asciiOnly addNote (noteOn "118601".toList)
      (seenText asciiOnly (lookedUp [("ids".toList, .arr [.int 118600])]) []) := by
  constructor
  · apply (shown_exact asciiOnly python_asciiOnly addNote (noteOn "118600".toList) _ [] _ (by decide +kernel)).2.1 _
      List.mem_cons_self (.int 118600) List.mem_cons_self
    exact (by decide +kernel : Occurs asciiOnly "118600".toList (intText 118600))
  · apply (shown_exact asciiOnly python_asciiOnly addNote (noteOn "118601".toList) _ [] _ (by decide +kernel)).2.2.1
    · decide +kernel
    · decide +kernel

/-- an ID that is only a key of an earlier call counts as shown -/
theorem key_counts :
    ∃ p ∈ collectIds asciiOnly (idProperties asciiOnly addNote.properties) [] (noteOn "118600".toList),
      p ∉ fabricatedIds asciiOnly addNote (noteOn "118600".toList)
        (seenText asciiOnly (lookedUp [("fields".toList, .obj [("118600".toList, .str "open".toList)])]) []) ∧
      ¬ Given asciiOnly p.2 (lookedUp [("fields".toList, .obj [("118600".toList, .str "open".toList)])]) [] := by
  refine ⟨("work_order_id".toList, "118600".toList), by decide +kernel, by decide +kernel, ?_⟩
  rintro (h | h)
  · revert h
    decide +kernel
  · revert h
    decide +kernel

end Clawbolt.Checks

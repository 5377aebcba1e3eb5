/-
Trimming the records of web search results (`_clean` and `_trim` of integrations/web_search/brave.py).

A record is the JSON object Brave sends. `left` is what the rules before the caps leave of it, `Omitted` why an entry of
the record is not in it.

- `left_pruned`: `left` is the record, with the texts cleaned, without entries that `Omitted` admits;
- `cap_at`: a value is at its place in the trimmed record, unless it lies past a cap or a count is written over it;
- `record_accounted`: both for a scalar of the record, and the counts of the capped lists.
-/
import Mathlib.Tactic
import Clawbolt.Core.Pruned
import Clawbolt.Core.Markup

namespace Clawbolt.WebSearch

open Text (Str)
open Json (Step Path at? isScalar)

/-! ## Model -/

structure Env where
  /-- `html.unescape` -/
  unescape : Str → Str
  casefold : Str → Str
  /-- `str.isupper` of one character -/
  isUpper : Char → Bool

variable (env : Env)

/-- `bool(v)` -/
def truthy : Json → Bool
  | .null => false
  | .bool b => b
  | .int n => n ≠ 0
  | .float x => x ≠ 0
  | .str s => s ≠ []
  | .arr l => !l.isEmpty
  | .obj d => !d.isEmpty

/-- `_DROPPED_KEYS` -/
def droppedKeys : List String :=
  ["thumbnail", "meta_url", "profile", "favicon", "img", "logo", "is_source_local", "is_source_both", "family_friendly",
    "type", "subtype", "is_live", "language", "is_tripadvisor", "gtin", "gtin8", "gtin12", "gtin13", "gtin14",
    "priceCurrency", "bestRating", "worstRating", "reviewCount"]

/-- `_LIST_CAPS` -/
def listCaps : List (String × ℕ) := [("product_cluster", 3), ("offers", 3), ("extra_snippets", 1), ("faq.items", 2)]

/-- `_MENU_MIN_WORDS` -/
def menuMinWords : ℕ := 20

/-- `_MENU_CONNECTORS` -/
def menuConnectors : List String := ["&", "and", "|", "/", "-", "or"]

/-- the characters of `_NOT_A_MENU_RE` -/
def notAMenu (c : Char) : Bool := c ∈ ['.', '!', '?', ':', ';', '$'] || ('0' ≤ c && c ≤ '9')

def cleanText (t : Str) : Str := Text.strip (env.unescape (Markup.replaceTags [] 0 t))

mutual

/-- `_clean` -/
def clean : Json → Json
  | .str t => .str (cleanText env t)
  | .obj d => .obj (cleanFields d)
  | .arr l => .arr (cleanList l)
  | v => v

def cleanList : List Json → List Json
  | [] => []
  | v :: l => clean v :: cleanList l

def cleanFields : List (Str × Json) → List (Str × Json)
  | [] => []
  | (k, v) :: d => (k, clean v) :: cleanFields d

end

/-- `_norm` -/
def norm (t : Str) : Str := env.casefold (Text.join [' '] (Text.split t))

/-- `_is_menu`; the float division is that of two counts -/
def isMenu (snippet : Str) : Bool :=
  let words := (Text.split snippet).filter fun w => env.casefold w ∉ menuConnectors.map String.toList
  let capitalized := words.countP fun w => w.head?.any env.isUpper
  !snippet.any notAMenu && menuMinWords ≤ words.length && 4 * words.length ≤ 5 * capitalized

/-- the loop of `_distinct_snippets`, over entries that have a text or none -/
def keepDistinct {α : Type} (text : α → Option Str) : List Str → List α → List α → List α
  | _, kept, [] => kept
  | seen, kept, e :: rest =>
    match text e with
    | none => keepDistinct text seen (kept ++ [e]) rest
    | some t =>
      if norm env t = [] ∨ isMenu env t = true ∨ seen.any (Text.contains (norm env t)) = true then
        keepDistinct text seen kept rest
      else
        -- a later, longer snippet can contain an earlier one
        let kept := kept.filter fun k => !(text k).any fun t' => Text.contains (norm env t') (norm env t)
        keepDistinct text (seen ++ [norm env t]) (kept ++ [e]) rest

/-- the text of a string -/
def asText : Json → Option Str
  | .str t => some t
  | _ => none

/-- `_distinct_snippets` -/
def distinctSnippets (snippets : List Json) (description : Str) : List Json :=
  keepDistinct env asText (if description = [] then [] else [norm env description]) [] snippets

/-- the rule of `_drop` for one entry of an object -/
def isDropped (resultUrl : Json) (depth : ℕ) (key : Str) (sub : Json) : Bool :=
  decide (key ∈ droppedKeys.map String.toList) ||
    (0 < depth && key = "url".toList && truthy resultUrl && Json.eqv sub resultUrl)

mutual

/-- `_drop` -/
def drop (resultUrl : Json) (depth : ℕ) : Json → Json
  | .arr l => .arr (dropList resultUrl (depth + 1) l)
  | .obj d => .obj (dropFields resultUrl depth d)
  | v => v

def dropList (resultUrl : Json) (depth : ℕ) : List Json → List Json
  | [] => []
  | v :: l => drop resultUrl depth v :: dropList resultUrl depth l

def dropFields (resultUrl : Json) (depth : ℕ) : List (Str × Json) → List (Str × Json)
  | [] => []
  | (key, sub) :: d =>
    if isDropped resultUrl depth key sub then dropFields resultUrl depth d
    else (key, drop resultUrl (depth + 1) sub) :: dropFields resultUrl depth d

end

/-- an offer whose every field matches its parent's; a field that the parent lacks is `None` there -/
def repeatsParent (out : Dict Json) : Json → Bool
  | .obj o => o.all fun kv => Json.eqv ((out.lookup kv.1).getD .null) kv.2
  | _ => false

/-- what `_drop_redundant_offers` does with the offers of an object -/
def withoutRepeats (out : Dict Json) : Dict Json :=
  match out.lookup "offers".toList with
  | some (.arr offers) =>
    let kept := offers.filter fun o => !repeatsParent out o
    if kept ≠ [] then Dict.set "offers".toList (.arr kept) out else Dict.erase "offers".toList out
  | _ => out

mutual

/-- `_drop_redundant_offers` -/
def dropRedundantOffers : Json → Json
  | .arr l => .arr (dropRedundantOffersList l)
  | .obj d => .obj (withoutRepeats (dropRedundantOffersFields d))
  | v => v

def dropRedundantOffersList : List Json → List Json
  | [] => []
  | v :: l => dropRedundantOffers v :: dropRedundantOffersList l

def dropRedundantOffersFields : List (Str × Json) → List (Str × Json)
  | [] => []
  | (k, v) :: d => (k, dropRedundantOffers v) :: dropRedundantOffersFields d

end

/-- the cap of a list under a key of an object that is under the key `parent` -/
def capOf (parent key : Str) : Option ℕ :=
  let caps := listCaps.map fun kv => (kv.1.toList, kv.2)
  (caps.lookup (parent ++ '.' :: key)).or (caps.lookup key)

/-- `f"{key}_not_shown"` -/
def notShownKey (key : Str) : Str := key ++ "_not_shown".toList

/-- the cap of a value under a key that is a list longer than its cap -/
def exceeded (parent key : Str) : Json → Option ℕ
  | .arr l => (capOf parent key).filter (· < l.length)
  | _ => none

mutual

/-- `_cap` -/
def cap (parent : Str) : Json → Json
  | .arr l => .arr (capList parent l)
  | .obj d => .obj (capFields parent [] d)
  | v => v

def capList (parent : Str) : List Json → List Json
  | [] => []
  | v :: l => cap parent v :: capList parent l

/-- the loop over the entries of an object, `out` being what it has written -/
def capFields (parent : Str) (out : Dict Json) : List (Str × Json) → Dict Json
  | [] => out
  | (key, sub) :: d =>
    match exceeded parent key sub, cap key sub with
    -- capping the entries of `sub[:n]` is taking the first `n` of the capped entries
    | some n, .arr l =>
      capFields parent (Dict.set (notShownKey key) (.int (l.length - n : ℕ)) (Dict.set key (.arr (l.take n)) out)) d
    | _, capped => capFields parent (Dict.set key capped out) d

end

/-- `d.get(key)` -/
def get (d : Dict Json) (key : String) : Json := (d.lookup key.toList).getD .null

/-- the part of `_trim` between `_drop` and the passes after it: the dates and the snippets -/
def trimFields (out : Dict Json) : Dict Json :=
  let out := if truthy (get out "age") then Dict.erase "page_age".toList out else out
  match out.lookup "extra_snippets".toList with
  | some (.arr snippets) =>
    let distinct := distinctSnippets env snippets ((asText (get out "description")).getD [])
    if distinct ≠ [] then Dict.set "extra_snippets".toList (.arr distinct) out else Dict.erase "extra_snippets".toList out
  | _ => out

/-- `_trim` -/
def trim (record : Dict Json) : Json :=
  cap [] (dropRedundantOffers (.obj (trimFields env (dropFields (get record "url") 0 record))))

variable {env}

/-! ## Snippets -/

section
variable {α β : Type}

theorem keepDistinct_map (env : Env) (g : α → β) (text : β → Option Str) (seen : List Str) (kept l : List α) :
    keepDistinct env text seen (kept.map g) (l.map g) = (keepDistinct env (text ∘ g) seen kept l).map g := by
  induction l generalizing seen kept with
  | nil => rfl
  | cons e l ih =>
    rw [List.map_cons, keepDistinct, keepDistinct, Function.comp_apply]
    cases text (g e) with
    | none =>
      rw [← ih, List.map_append]
      rfl
    | some t =>
      dsimp only
      split_ifs
      · exact ih seen kept
      · rw [← ih, List.map_append, List.filter_map]
        rfl

/-- a text that is no reason to keep the entry -/
def Said (env : Env) (text : α → Option Str) (first : List Str) (l : List α) (e : α) : Prop :=
  ∃ t, text e = some t ∧ (norm env t = [] ∨ isMenu env t = true ∨ (∃ s ∈ first, Text.contains (norm env t) s = true) ∨
    ∃ e' ∈ l, e' ≠ e ∧ ∃ t', text e' = some t' ∧ isMenu env t' = false ∧ Text.contains (norm env t) (norm env t') = true)

/-- the loop after the entries `before`, of the list `l` -/
structure Distinct (env : Env) (text : α → Option Str) (first : List Str) (l before kept : List α) (seen : List Str) : Prop where
  kept_sub : kept.Sublist before
  said : ∀ e ∈ before, e ∉ kept → Said env text first l e
  seen_from : ∀ s ∈ seen, s ∈ first ∨ ∃ e ∈ before, ∃ t, text e = some t ∧ isMenu env t = false ∧ s = norm env t

variable {text : α → Option Str} {first seen : List Str} {l before kept rest : List α} {e : α}

theorem Distinct.seen_later (h : Distinct env text first l before kept seen) : ∀ s ∈ seen,
    s ∈ first ∨ ∃ e' ∈ before ++ [e], ∃ t, text e' = some t ∧ isMenu env t = false ∧ s = norm env t := by
  intro s hs
  obtain hfirst | ⟨e', he', ht⟩ := h.seen_from s hs
  · exact .inl hfirst
  · exact .inr ⟨e', List.mem_append_left _ he', ht⟩

theorem Distinct.skip (h : Distinct env text first l before kept seen) (hsaid : Said env text first l e) :
    Distinct env text first l (before ++ [e]) kept seen := by
  refine ⟨h.kept_sub.trans (List.sublist_append_left _ _), fun x hx hnot => ?_, h.seen_later⟩
  obtain hx | hx := List.mem_append.1 hx
  · exact h.said x hx hnot
  · rwa [List.mem_singleton.1 hx]

theorem Distinct.pass (h : Distinct env text first l before kept seen) :
    Distinct env text first l (before ++ [e]) (kept ++ [e]) seen := by
  refine ⟨h.kept_sub.append_right [e], fun x hx hnot => ?_, h.seen_later⟩
  rw [List.mem_append, not_or] at hnot
  obtain hx | hx := List.mem_append.1 hx
  · exact h.said x hx hnot.1
  · exact absurd hx hnot.2

/-- an entry with something new is kept, and may say what earlier ones do -/
theorem Distinct.keep (h : Distinct env text first l before kept seen) (hl : l = before ++ e :: rest) (hnodup : l.Nodup) {t : Str}
    (ht : text e = some t) (hmenu : isMenu env t = false) : Distinct env text first l (before ++ [e])
      (kept.filter (fun k => !(text k).any fun t' => Text.contains (norm env t') (norm env t)) ++ [e]) (seen ++ [norm env t]) := by
  refine ⟨(List.filter_sublist.trans h.kept_sub).append_right [e], fun x hx hnot => ?_, fun s hs => ?_⟩
  · rw [List.mem_append, not_or] at hnot
    obtain hx | hx := List.mem_append.1 hx
    · by_cases hkept : x ∈ kept
      · have hne : e ≠ x := by
          rintro rfl
          exact List.disjoint_of_nodup_append (hl ▸ hnodup) hx List.mem_cons_self
        rw [List.mem_filter, not_and, Bool.not_eq_true, Bool.not_eq_false', Option.any_eq_true] at hnot
        obtain ⟨t', ht', hcontains⟩ := hnot.1 hkept
        refine ⟨t', ht', .inr (.inr (.inr ⟨e, ?_, hne, t, ht, hmenu, hcontains⟩))⟩
        rw [hl]
        exact List.mem_append_right _ List.mem_cons_self
      · exact h.said x hx hkept
    · exact absurd hx hnot.2
  · obtain hs | hs := List.mem_append.1 hs
    · exact h.seen_later s hs
    · exact .inr ⟨e, List.mem_append_right _ List.mem_cons_self, t, ht, hmenu, List.mem_singleton.1 hs⟩

theorem Distinct.run (h : Distinct env text first l before kept seen) (rest : List α) (hl : l = before ++ rest) (hnodup : l.Nodup) :
    ∃ seen', Distinct env text first l l (keepDistinct env text seen kept rest) seen' := by
  induction rest generalizing before kept seen with
  | nil =>
    rw [List.append_nil] at hl
    exact ⟨seen, by rw [keepDistinct]; exact hl ▸ h⟩
  | cons e rest ih =>
    have hl' : l = before ++ [e] ++ rest := by rw [hl, List.append_assoc, List.singleton_append]
    rw [keepDistinct]
    cases ht : text e with
    | none => exact ih h.pass hl'
    | some t =>
      dsimp only
      split_ifs with hskip
      · refine ih (h.skip ⟨t, ht, ?_⟩) hl'
        obtain hempty | hmenu | hseen := hskip
        · exact .inl hempty
        · exact .inr (.inl hmenu)
        · obtain ⟨s, hs, hcontains⟩ := List.any_eq_true.1 hseen
          obtain hfirst | ⟨e', he', t', ht', hmenu, rfl⟩ := h.seen_from s hs
          · exact .inr (.inr (.inl ⟨s, hfirst, hcontains⟩))
          · refine .inr (.inr (.inr ⟨e', ?_, ?_, t', ht', hmenu, hcontains⟩))
            · rw [hl]
              exact List.mem_append_left _ he'
            · rintro rfl
              exact List.disjoint_of_nodup_append (hl ▸ hnodup) he' List.mem_cons_self
      · rw [not_or, not_or, Bool.not_eq_true] at hskip
        exact ih (h.keep hl hnodup ht hskip.2.1) hl'

/-- what is kept of distinct entries: the others say nothing new -/
theorem keepDistinct_said (env : Env) (text : α → Option Str) (first : List Str) (hnodup : l.Nodup) : (keepDistinct env text first [] l).Sublist l ∧
    ∀ e ∈ l, e ∉ keepDistinct env text first [] l → Said env text first l e := by
  have hstart : Distinct env text first l [] [] first :=
    ⟨List.Sublist.slnil, fun _ he => absurd he List.not_mem_nil, fun s hs => .inl hs⟩
  obtain ⟨_, hend⟩ := hstart.run l rfl hnodup
  exact ⟨hend.kept_sub, hend.said⟩

end

/-! ## The passes, entry by entry -/

theorem cleanList_eq (l : List Json) : cleanList env l = l.map (clean env) := by
  induction l with
  | nil => rfl
  | cons v l ih => rw [cleanList, ih, List.map_cons]

theorem cleanFields_eq (d : List (Str × Json)) : cleanFields env d = d.map fun kv => (kv.1, clean env kv.2) := by
  induction d with
  | nil => rfl
  | cons kv d ih => rw [cleanFields, ih, List.map_cons]

theorem dropList_eq (u : Json) (n : ℕ) (l : List Json) : dropList u n l = l.map (drop u n) := by
  induction l with
  | nil => rfl
  | cons v l ih => rw [dropList, ih, List.map_cons]

theorem dropFields_eq (u : Json) (n : ℕ) (d : List (Str × Json)) : dropFields u n d =
    d.filterMap fun kv => if isDropped u n kv.1 kv.2 then none else some (kv.1, drop u (n + 1) kv.2) := by
  induction d with
  | nil => rfl
  | cons kv d ih =>
    obtain ⟨k, v⟩ := kv
    rw [dropFields, List.filterMap_cons, ih]
    cases isDropped u n k v <;> rfl

theorem dropRedundantOffersList_eq (l : List Json) : dropRedundantOffersList l = l.map dropRedundantOffers := by
  induction l with
  | nil => rfl
  | cons v l ih => rw [dropRedundantOffersList, ih, List.map_cons]

theorem dropRedundantOffersFields_eq (d : List (Str × Json)) :
    dropRedundantOffersFields d = d.map fun kv => (kv.1, dropRedundantOffers kv.2) := by
  induction d with
  | nil => rfl
  | cons kv d ih => rw [dropRedundantOffersFields, ih, List.map_cons]

/-- below the record itself the depth makes no difference -/
theorem isDropped_nested (u : Json) (n m : ℕ) (k : Str) (v : Json) : isDropped u (n + 1) k v = isDropped u (m + 1) k v := by
  have hpos : ∀ i : ℕ, decide (0 < i + 1) = true := fun i => decide_eq_true i.succ_pos
  rw [isDropped, isDropped, hpos, hpos]

theorem drop_nested (u v : Json) (n m : ℕ) : drop u (n + 1) v = drop u (m + 1) v := by
  induction v using Json.induct generalizing n m with
  | hscalar v hv =>
    cases v with
    | arr l => exact absurd hv Bool.false_ne_true
    | obj d => exact absurd hv Bool.false_ne_true
    | _ => rfl
  | harr l ih =>
    rw [drop, drop, dropList_eq, dropList_eq]
    exact congrArg Json.arr (List.map_congr_left fun v hv => ih v hv (n + 1) (m + 1))
  | hobj d ih =>
    rw [drop, drop, dropFields_eq, dropFields_eq]
    refine congrArg Json.obj (List.filterMap_congr fun kv hkv => ?_)
    rw [isDropped_nested u n m, ih kv hkv (n + 1) (m + 1)]

/-! ## What the rules leave -/

/-- the result's url -/
def resultUrl (env : Env) (record : Dict Json) : Json := get (cleanFields env record) "url"

/-- what is left of a value in the record -/
def rest (env : Env) (u v : Json) : Json := dropRedundantOffers (drop u 1 (clean env v))

/-- what is left of the fields of an object in the record, before its offers are compared with them -/
def restFields (env : Env) (u : Json) (d : Dict Json) : Dict Json :=
  d.filterMap fun kv => if isDropped u 1 kv.1 (clean env kv.2) then none else some (kv.1, rest env u kv.2)

/-- the same for the record itself -/
def topFields (env : Env) (record : Dict Json) : Dict Json :=
  dropRedundantOffersFields (trimFields env (dropFields (resultUrl env record) 0 (cleanFields env record)))

/-- what is left of a record before its lists are capped -/
def left (env : Env) (record : Dict Json) : Json := .obj (withoutRepeats (topFields env record))

theorem rest_arr (u : Json) (l : List Json) : rest env u (.arr l) = .arr (l.map (rest env u)) := by
  rw [rest, clean, cleanList_eq, drop, dropList_eq, dropRedundantOffers, dropRedundantOffersList_eq, List.map_map, List.map_map]
  refine congrArg Json.arr (List.map_congr_left fun v _ => ?_)
  exact congrArg dropRedundantOffers (drop_nested u _ 1 0)

theorem rest_obj (u : Json) (d : Dict Json) : rest env u (.obj d) = .obj (withoutRepeats (restFields env u d)) := by
  rw [rest, clean, cleanFields_eq, drop, dropFields_eq, dropRedundantOffers, dropRedundantOffersFields_eq, List.filterMap_map,
    List.map_filterMap, restFields]
  refine congrArg (fun e => Json.obj (withoutRepeats e)) (List.filterMap_congr fun kv _ => ?_)
  simp only [Function.comp_apply]
  split_ifs
  · rfl
  · rw [Option.map_some, rest, drop_nested u _ 1 0]

theorem rest_scalar {u v : Json} (hv : isScalar v = true) : rest env u v = Json.leaf (cleanText env) v := by
  cases v with
  | arr l => exact absurd hv Bool.false_ne_true
  | obj d => exact absurd hv Bool.false_ne_true
  | _ => rfl

/-- the object at a place in the record, as it is when its offers are compared with it -/
def parentFields (env : Env) (record : Dict Json) (p : Path) : Dict Json :=
  match p, at? p (.obj record) with
  | [], _ => topFields env record
  | _, some (.obj d) => restFields env (resultUrl env record) d
  | _, _ => []

/-- the `n`th snippet says nothing that the description or another snippet does not say -/
def Repeated (env : Env) (record : Dict Json) (l : List Json) (n : ℕ) (t : Str) : Prop :=
  (∃ s, record.lookup "description".toList = some (.str s) ∧ cleanText env s ≠ [] ∧
    Text.contains (norm env t) (norm env (cleanText env s)) = true) ∨
  ∃ m s, m ≠ n ∧ l[m]? = some (.str s) ∧ isMenu env (cleanText env s) = false ∧
    Text.contains (norm env t) (norm env (cleanText env s)) = true

/-- why an entry of the record is left out -/
inductive Omitted (env : Env) (record : Dict Json) : Path → Prop
  | key (p : Path) (k : Str) (hk : k ∈ droppedKeys.map String.toList) : Omitted env record (p ++ [.key k])
  | url (p : Path) (v : Json) (hp : p ≠ []) (hv : at? (p ++ [.key "url".toList]) (.obj record) = some v)
      (htruthy : truthy (resultUrl env record) = true) (hsame : Json.eqv (clean env v) (resultUrl env record) = true) :
      Omitted env record (p ++ [.key "url".toList])
  | pageAge (v : Json) (hage : record.lookup "age".toList = some v)
      (htruthy : truthy (drop (resultUrl env record) 1 (clean env v)) = true) : Omitted env record [.key "page_age".toList]
  | snippet (l : List Json) (n : ℕ) (t : Str) (hl : record.lookup "extra_snippets".toList = some (.arr l))
      (ht : l[n]? = some (.str t))
      (hreason : norm env (cleanText env t) = [] ∨ isMenu env (cleanText env t) = true ∨
        Repeated env record l n (cleanText env t)) :
      Omitted env record [.key "extra_snippets".toList, .index n]
  | snippets (l : List Json) (hl : record.lookup "extra_snippets".toList = some (.arr l))
      (hall : ∀ n < l.length, Omitted env record [.key "extra_snippets".toList, .index n]) :
      Omitted env record [.key "extra_snippets".toList]
  | offer (p : Path) (n : ℕ) (o : Json) (ho : at? (p ++ [.key "offers".toList, .index n]) (.obj record) = some o)
      (hrepeats : repeatsParent (parentFields env record p) (rest env (resultUrl env record) o) = true) :
      Omitted env record (p ++ [.key "offers".toList, .index n])
  | offers (p : Path) (l : List Json) (hl : at? (p ++ [.key "offers".toList]) (.obj record) = some (.arr l))
      (hall : ∀ n < l.length, Omitted env record (p ++ [.key "offers".toList, .index n])) :
      Omitted env record (p ++ [.key "offers".toList])

/-! ### Offers -/

section
variable {f : Str → Str} {gone : Path → Prop}

/-- filtering the mapped entries of a list prunes it, where the entries filtered out may be gone -/
theorem pruned_filter_map {p : Path} {l : List Json} {g : Json → Json} {keep : Json → Bool}
    (hin : ∀ n v, l[n]? = some v → Json.Pruned f gone (p ++ [.index n]) v (g v))
    (hout : ∀ n v, l[n]? = some v → keep (g v) = false → gone (p ++ [.index n])) :
    Json.Pruned f gone p (.arr l) (.arr ((l.map g).filter keep)) := by
  have hentry : ∀ e ∈ l.zipIdx 0, l[e.2]? = some e.1 := fun e he => List.mk_mem_zipIdx_iff_getElem?.1 he
  refine ⟨_, rfl, ?_⟩
  have hlist := @Json.prunedList_of_sublist f gone p g 0 l ((l.zipIdx 0).filter fun e => keep (g e.1))
    List.filter_sublist ?_ ?_
  · have hmap : ((l.zipIdx 0).filter fun e => keep (g e.1)).map (fun e => g e.1) = (l.map g).filter keep := by
      calc ((l.zipIdx 0).filter fun e => keep (g e.1)).map (fun e => g e.1)
          = ((l.zipIdx 0).map fun e => g e.1).filter keep := by rw [List.filter_map]; rfl
        _ = (((l.zipIdx 0).map Prod.fst).map g).filter keep := by rw [List.map_map]; rfl
        _ = (l.map g).filter keep := by rw [List.zipIdx_map_fst]
    rwa [hmap] at hlist
  · intro e he hnot
    refine hout e.2 e.1 (hentry e he) (Bool.eq_false_iff.2 fun hkeep => hnot (List.mem_filter.2 ⟨he, hkeep⟩))
  · intro e he
    exact hin e.2 e.1 (hentry e (List.mem_of_mem_filter he))

/-- leaving out the offers that repeat their parent -/
theorem withoutRepeats_pruned {p : Path} {d out : Dict Json} {g : Json → Json} (hnodup : (d.map Prod.fst).Nodup)
    (hpruned : Json.PrunedFields f gone p d out)
    (hoffers : ∀ l, out.lookup "offers".toList = some (.arr l) →
      ∃ xs, d.lookup "offers".toList = some (.arr xs) ∧ l = xs.map g ∧
        (∀ n o, xs[n]? = some o → Json.Pruned f gone (p ++ [.key "offers".toList] ++ [.index n]) o (g o)) ∧
        (∀ n o, xs[n]? = some o → repeatsParent out (g o) = true → gone (p ++ [.key "offers".toList] ++ [.index n])) ∧
        ((∀ n < xs.length, gone (p ++ [.key "offers".toList] ++ [.index n])) → gone (p ++ [.key "offers".toList]))) :
    Json.PrunedFields f gone p d (withoutRepeats out) := by
  rw [withoutRepeats]
  split
  next l hl =>
    obtain ⟨xs, hxs, rfl, hin, hrepeat, hall⟩ := hoffers l hl
    dsimp only
    split_ifs with hkept
    · refine hpruned.set hnodup hxs ?_ (List.mem_map_of_mem (Dict.mem_of_lookup hl))
      exact pruned_filter_map hin fun n o ho hkeep => hrepeat n o ho (by simpa using hkeep)
    · refine hpruned.erase (hall fun n hn => ?_)
      -- none of the offers is kept
      have hnone := List.filter_eq_nil_iff.1 (not_not.1 hkept) (g xs[n]) (List.mem_map_of_mem (List.getElem_mem hn))
      exact hrepeat n xs[n] (List.getElem?_eq_getElem hn) (by simpa using hnone)
  next => exact hpruned

end

/-! ### Values in the record -/

variable {record : Dict Json}

theorem rest_eq_arr {u v : Json} {l : List Json} (h : rest env u v = .arr l) : ∃ xs, v = .arr xs ∧ l = xs.map (rest env u) := by
  cases v with
  | arr xs =>
    rw [rest_arr] at h
    exact ⟨xs, rfl, (Json.arr.inj h).symm⟩
  | obj d =>
    rw [rest_obj] at h
    cases h
  | _ => cases h

theorem omitted_of_isDropped {p : Path} {k : Str} {v : Json} {n : ℕ} (hp : 0 < n → p ≠ [])
    (hv : at? (p ++ [.key k]) (.obj record) = some v) (h : isDropped (resultUrl env record) n k (clean env v) = true) :
    Omitted env record (p ++ [.key k]) := by
  rw [isDropped, Bool.or_eq_true, decide_eq_true_iff, Bool.and_eq_true, Bool.and_eq_true, Bool.and_eq_true, decide_eq_true_iff,
    decide_eq_true_iff] at h
  obtain hkey | ⟨⟨⟨hn, rfl⟩, htruthy⟩, hsame⟩ := h
  · exact .key p k hkey
  · exact .url p v (hp hn) hv htruthy hsame

/-- a value below the record keeps what it has, without entries that are omitted -/
def Keeps (env : Env) (record : Dict Json) (v : Json) : Prop :=
  ∀ p, p ≠ [] → at? p (.obj record) = some v → v.WellFormed →
    Json.Pruned (cleanText env) (Omitted env record) p v (rest env (resultUrl env record) v)

theorem keeps_arr {l : List Json} (hl : ∀ v ∈ l, Keeps env record v) : Keeps env record (.arr l) := by
  intro p hp hat hwf
  rw [rest_arr]
  have hall := @pruned_filter_map (cleanText env) (Omitted env record) p l (rest env (resultUrl env record)) (fun _ => true) ?_ ?_
  · rwa [List.filter_eq_self.2 fun _ _ => rfl] at hall
  · intro n v hv
    have hmem := List.mem_of_getElem? hv
    exact hl v hmem _ (by simp) (by rw [Json.at?_index hat, hv]) (Json.wellFormed_of_mem hwf hmem)
  · intro n v _ hkeep
    cases hkeep

theorem restFields_lookup {u : Json} {d : Dict Json} (hnodup : (d.map Prod.fst).Nodup) {k : Str} {w : Json}
    (h : (restFields env u d).lookup k = some w) : ∃ v, d.lookup k = some v ∧ w = rest env u v := by
  obtain ⟨⟨k', v⟩, hmem, hkv⟩ := List.mem_filterMap.1 (Dict.mem_of_lookup h)
  split_ifs at hkv
  obtain ⟨rfl, rfl⟩ := Prod.mk.inj (Option.some.inj hkv)
  exact ⟨v, Dict.lookup_of_mem hnodup hmem, rfl⟩

theorem keeps_obj {d : Dict Json} (hd : ∀ kv ∈ d, Keeps env record kv.2)
    (hoffers : ∀ kv ∈ d, ∀ l, kv.2 = .arr l → ∀ o ∈ l, Keeps env record o) : Keeps env record (.obj d) := by
  intro p hp hat hwf
  have hnodup : (d.map Prod.fst).Nodup := Json.nodup_of_wellFormed hwf
  have hplace : ∀ kv ∈ d, at? (p ++ [.key kv.1]) (.obj record) = some kv.2 := by
    intro kv hkv
    rw [Json.at?_key hat, Dict.lookup_of_mem hnodup hkv]
  have hvalue : ∀ kv ∈ d, kv.2.WellFormed := fun kv hkv => Json.wellFormed_of_lookup hwf (Dict.lookup_of_mem hnodup hkv)
  rw [rest_obj]
  refine ⟨_, rfl, withoutRepeats_pruned (g := rest env (resultUrl env record)) hnodup ?_ fun l hl => ?_⟩
  · refine Json.prunedFields_filterMap fun kv hkv => ?_
    split_ifs with hdropped
    · exact omitted_of_isDropped (fun _ => hp) (hplace kv hkv) hdropped
    · exact ⟨rfl, hd kv hkv _ (by simp) (hplace kv hkv) (hvalue kv hkv)⟩
  · obtain ⟨v, hv, heq⟩ := restFields_lookup hnodup hl
    obtain ⟨xs, rfl, rfl⟩ := rest_eq_arr heq.symm
    have hmem := Dict.mem_of_lookup hv
    have hatList := hplace _ hmem
    have hatOffer : ∀ n, at? (p ++ [.key "offers".toList] ++ [.index n]) (.obj record) = xs[n]? := fun n => Json.at?_index hatList n
    refine ⟨xs, hv, rfl, fun n o ho => ?_, fun n o ho hrepeats => ?_, fun hall => ?_⟩
    · have hin := List.mem_of_getElem? ho
      refine hoffers _ hmem xs rfl o hin _ (by simp) (by rw [hatOffer, ho]) (Json.wellFormed_of_mem (hvalue _ hmem) hin)
    · have hparent : parentFields env record p = restFields env (resultUrl env record) d := by
        obtain ⟨s, q, rfl⟩ := List.exists_cons_of_ne_nil hp
        simp only [parentFields, hat]
      rw [List.append_assoc]
      refine .offer p n o ?_ (by rwa [hparent])
      rw [← ho, ← hatOffer n, List.append_assoc]
      rfl
    · exact .offers p xs hatList fun n hn => by simpa using hall n hn

theorem keeps (v : Json) : Keeps env record v := by
  suffices h : Keeps env record v ∧ ∀ l, v = .arr l → ∀ x ∈ l, Keeps env record x from h.1
  induction v using Json.induct with
  | hscalar v hv =>
    refine ⟨fun p hp hat hwf => ?_, fun l hl => ?_⟩
    · rw [Json.pruned_scalar hv, rest_scalar hv]
    · subst hl
      cases hv
  | harr l ih =>
    refine ⟨keeps_arr fun v hv => (ih v hv).1, fun l' hl x hx => ?_⟩
    obtain rfl := Json.arr.inj hl
    exact (ih x hx).1
  | hobj d ih => exact ⟨keeps_obj (fun kv hkv => (ih kv hkv).1) fun kv hkv => (ih kv hkv).2, fun l hl => by cases hl⟩

/-! ### The record itself -/

theorem map_erase (g : Json → Json) (k : Str) (d : Dict Json) :
    (Dict.erase k d).map (fun kv => (kv.1, g kv.2)) = Dict.erase k (d.map fun kv => (kv.1, g kv.2)) := by
  rw [Dict.erase, Dict.erase, List.filter_map]
  rfl

theorem map_set (g : Json → Json) (k : Str) (v : Json) (d : Dict Json) :
    (Dict.set k v d).map (fun kv => (kv.1, g kv.2)) = Dict.set k (g v) (d.map fun kv => (kv.1, g kv.2)) := by
  induction d with
  | nil => rfl
  | cons kv d ih =>
    rw [Dict.set, List.map_cons, Dict.set]
    split_ifs
    · rfl
    · rw [List.map_cons, ih]

/-- what `_drop` leaves of the cleaned record -/
def dropped (env : Env) (record : Dict Json) : Dict Json := dropFields (resultUrl env record) 0 (cleanFields env record)

/-- and what is left of that beside a date that is better to read -/
def dated (env : Env) (record : Dict Json) : Dict Json :=
  if truthy (get (dropped env record) "age") then Dict.erase "page_age".toList (dropped env record) else dropped env record

theorem dropped_eq : dropped env record = record.filterMap fun kv =>
    if isDropped (resultUrl env record) 0 kv.1 (clean env kv.2) then none
    else some (kv.1, drop (resultUrl env record) 1 (clean env kv.2)) := by
  rw [dropped, dropFields_eq, cleanFields_eq, List.filterMap_map]
  rfl

theorem dropped_lookup (hnodup : (record.map Prod.fst).Nodup) {k : Str} {w : Json} (h : (dropped env record).lookup k = some w) :
    ∃ v, record.lookup k = some v ∧ w = drop (resultUrl env record) 1 (clean env v) := by
  rw [dropped_eq] at h
  obtain ⟨⟨k', v⟩, hmem, hkv⟩ := List.mem_filterMap.1 (Dict.mem_of_lookup h)
  split_ifs at hkv
  obtain ⟨rfl, rfl⟩ := Prod.mk.inj (Option.some.inj hkv)
  exact ⟨v, Dict.lookup_of_mem hnodup hmem, rfl⟩

theorem dated_lookup (hnodup : (record.map Prod.fst).Nodup) {k : Str} {w : Json} (h : (dated env record).lookup k = some w) :
    ∃ v, record.lookup k = some v ∧ w = drop (resultUrl env record) 1 (clean env v) := by
  rw [dated] at h
  split_ifs at h
  · rw [Dict.lookup_erase] at h
    split_ifs at h
    exact dropped_lookup hnodup h
  · exact dropped_lookup hnodup h

theorem dropped_pruned (hwf : (Json.obj record).WellFormed) :
    Json.PrunedFields (cleanText env) (Omitted env record) [] record (dropRedundantOffersFields (dropped env record)) := by
  have hnodup : (record.map Prod.fst).Nodup := Json.nodup_of_wellFormed hwf
  rw [dropRedundantOffersFields_eq, dropped_eq, List.map_filterMap]
  refine Json.prunedFields_filterMap fun kv hkv => ?_
  have hlookup := Dict.lookup_of_mem hnodup hkv
  have hplace : at? ([] ++ [.key kv.1]) (.obj record) = some kv.2 := by rw [Json.at?_key rfl, hlookup]
  cases hdropped : isDropped (resultUrl env record) 0 kv.1 (clean env kv.2) with
  | true => exact omitted_of_isDropped (fun h => absurd h (lt_irrefl 0)) hplace hdropped
  | false => exact ⟨rfl, keeps kv.2 _ (by simp) hplace (Json.wellFormed_of_lookup hwf hlookup)⟩

theorem dated_pruned (env : Env) (hwf : (Json.obj record).WellFormed) :
    Json.PrunedFields (cleanText env) (Omitted env record) [] record (dropRedundantOffersFields (dated env record)) := by
  have hnodup : (record.map Prod.fst).Nodup := Json.nodup_of_wellFormed hwf
  rw [dated]
  split_ifs with hage
  · rw [dropRedundantOffersFields_eq, map_erase, ← dropRedundantOffersFields_eq]
    refine (dropped_pruned hwf).erase ?_
    rw [get] at hage
    cases hw : (dropped env record).lookup "age".toList with
    | none =>
      rw [hw] at hage
      cases hage
    | some w =>
      obtain ⟨v, hv, rfl⟩ := dropped_lookup hnodup hw
      rw [hw] at hage
      exact .pageAge v hv hage
  · exact dropped_pruned hwf

/-- a snippet that says nothing new, by its place -/
theorem omitted_of_said (hnodup : (record.map Prod.fst).Nodup) {l : List Json}
    (hl : record.lookup "extra_snippets".toList = some (.arr l)) {description : Str}
    (hdesc : description = (asText (get (dated env record) "description")).getD []) {e : Json × ℕ} (he : e ∈ l.zipIdx 0)
    (h : Said env (fun e => asText (drop (resultUrl env record) 1 (clean env e.1)))
      (if description = [] then [] else [norm env description]) (l.zipIdx 0) e) :
    Omitted env record [.key "extra_snippets".toList, .index e.2] := by
  have hentry : ∀ e ∈ l.zipIdx 0, l[e.2]? = some e.1 := fun e he => List.mk_mem_zipIdx_iff_getElem?.1 he
  have htext : ∀ {v : Json} {t : Str}, asText (drop (resultUrl env record) 1 (clean env v)) = some t →
      ∃ s, v = .str s ∧ t = cleanText env s := by
    intro v t ht
    cases v with
    | str s => exact ⟨s, rfl, (Option.some.inj ht).symm⟩
    | _ => cases ht
  obtain ⟨t, ht, hreason⟩ := h
  obtain ⟨s, hs, rfl⟩ := htext ht
  refine .snippet l e.2 s hl (by rw [hentry e he, hs]) ?_
  obtain hempty | hmenu | ⟨s', hs', hcontains⟩ | ⟨e', he', hne, t', ht', hmenu, hcontains⟩ := hreason
  · exact .inl hempty
  · exact .inr (.inl hmenu)
  · refine .inr (.inr (.inl ?_))
    split_ifs at hs' with hnone
    · cases hs'
    · obtain rfl := List.mem_singleton.1 hs'
      rw [get] at hdesc
      cases hw : (dated env record).lookup "description".toList with
      | none =>
        rw [hw] at hdesc
        exact absurd hdesc hnone
      | some w =>
        obtain ⟨v, hv, rfl⟩ := dated_lookup hnodup hw
        rw [hw, Option.getD_some] at hdesc
        cases htext' : asText (drop (resultUrl env record) 1 (clean env v)) with
        | none =>
          rw [htext'] at hdesc
          exact absurd hdesc hnone
        | some d =>
          obtain ⟨sd, rfl, rfl⟩ := htext htext'
          rw [htext', Option.getD_some] at hdesc
          exact ⟨sd, hv, hdesc ▸ hnone, hdesc ▸ hcontains⟩
  · refine .inr (.inr (.inr ?_))
    obtain ⟨s', hs', rfl⟩ := htext ht'
    refine ⟨e'.2, s', fun heq => hne ?_, by rw [hentry e' he', hs'], hmenu, hcontains⟩
    have hsame := hentry e' he'
    rw [heq, hentry e he] at hsame
    exact Prod.ext (Option.some.inj hsame).symm heq

theorem topFields_eq : topFields env record = dropRedundantOffersFields (match (dated env record).lookup "extra_snippets".toList with
    | some (.arr snippets) =>
      let distinct := distinctSnippets env snippets ((asText (get (dated env record) "description")).getD [])
      if distinct ≠ [] then Dict.set "extra_snippets".toList (.arr distinct) (dated env record)
      else Dict.erase "extra_snippets".toList (dated env record)
    | _ => dated env record) := rfl

theorem drop_clean_eq_arr {u v : Json} {l : List Json} (h : drop u 1 (clean env v) = .arr l) :
    ∃ xs, v = .arr xs ∧ l = xs.map fun v => drop u 1 (clean env v) := by
  cases v with
  | arr xs =>
    rw [clean, cleanList_eq, drop, dropList_eq, List.map_map] at h
    refine ⟨xs, rfl, (Json.arr.inj h).symm.trans (List.map_congr_left fun v _ => ?_)⟩
    exact drop_nested u _ 1 0
  | _ => cases h

/-- the snippets that are kept, with their places -/
theorem distinctSnippets_places {u : Json} {l : List Json} {description : Str} :
    ∃ kept : List (Json × ℕ), kept.Sublist (l.zipIdx 0) ∧
      distinctSnippets env (l.map fun v => drop u 1 (clean env v)) description =
        kept.map (fun e => drop u 1 (clean env e.1)) ∧
      ∀ e ∈ l.zipIdx 0, e ∉ kept → Said env (fun e => asText (drop u 1 (clean env e.1)))
        (if description = [] then [] else [norm env description]) (l.zipIdx 0) e := by
  have hnodup : (l.zipIdx 0).Nodup := by
    have hindices : ((l.zipIdx 0).map Prod.snd).Nodup := by
      rw [List.zipIdx_map_snd]
      exact List.nodup_range'
    exact List.Nodup.of_map _ hindices
  obtain ⟨hsub, hsaid⟩ := keepDistinct_said env (fun e => asText (drop u 1 (clean env e.1)))
    (if description = [] then [] else [norm env description]) hnodup
  refine ⟨_, hsub, ?_, hsaid⟩
  have hmap := keepDistinct_map env (fun e : Json × ℕ => drop u 1 (clean env e.1)) asText
    (if description = [] then [] else [norm env description]) [] (l.zipIdx 0)
  have hfst : (l.zipIdx 0).map (fun e => drop u 1 (clean env e.1)) = l.map fun v => drop u 1 (clean env v) := by
    calc (l.zipIdx 0).map (fun e => drop u 1 (clean env e.1))
        = ((l.zipIdx 0).map Prod.fst).map fun v => drop u 1 (clean env v) := by rw [List.map_map]; rfl
      _ = _ := by rw [List.zipIdx_map_fst]
  rw [hfst] at hmap
  exact hmap

theorem topFields_pruned (hwf : (Json.obj record).WellFormed) :
    Json.PrunedFields (cleanText env) (Omitted env record) [] record (topFields env record) := by
  have hnodup : (record.map Prod.fst).Nodup := Json.nodup_of_wellFormed hwf
  have hdated := dated_pruned env hwf
  rw [topFields_eq]
  split
  next snippets hsnippets =>
    dsimp only
    obtain ⟨v, hv, heq⟩ := dated_lookup hnodup hsnippets
    obtain ⟨l, rfl, rfl⟩ := drop_clean_eq_arr heq.symm
    obtain ⟨kept, hsub, hkept, hsaid⟩ := @distinctSnippets_places env (resultUrl env record) l
      ((asText (get (dated env record) "description")).getD [])
    have homitted : ∀ e ∈ l.zipIdx 0, e ∉ kept → Omitted env record [.key "extra_snippets".toList, .index e.2] :=
      fun e he hnot => omitted_of_said hnodup hv rfl he (hsaid e he hnot)
    have hplace : ∀ n, at? [.key "extra_snippets".toList, .index n] (.obj record) = l[n]? := by
      intro n
      have hlist : at? [.key "extra_snippets".toList] (.obj record) = some (.arr l) := by
        have := Json.at?_key (p := []) (d := record) rfl "extra_snippets".toList
        rwa [hv] at this
      exact Json.at?_index hlist n
    rw [hkept]
    split_ifs with hnone
    · rw [dropRedundantOffersFields_eq, map_set, ← dropRedundantOffersFields_eq]
      refine hdated.set hnodup hv ?_ ?_
      · rw [dropRedundantOffers, dropRedundantOffersList_eq, List.map_map]
        refine ⟨_, rfl, Json.prunedList_of_sublist (g := rest env (resultUrl env record)) hsub homitted fun e he => ?_⟩
        have hentry : l[e.2]? = some e.1 := List.mk_mem_zipIdx_iff_getElem?.1 (hsub.subset he)
        refine keeps e.1 _ (by simp) ?_ (Json.wellFormed_of_mem (Json.wellFormed_of_lookup hwf hv) (List.mem_of_getElem? hentry))
        exact (hplace e.2).trans hentry
      · rw [dropRedundantOffersFields_eq, List.map_map]
        exact List.mem_map.2 ⟨_, Dict.mem_of_lookup hsnippets, rfl⟩
    · rw [dropRedundantOffersFields_eq, map_erase, ← dropRedundantOffersFields_eq]
      refine hdated.erase (.snippets l hv fun n hn => ?_)
      have hmem : (l[n], n) ∈ l.zipIdx 0 := List.mk_mem_zipIdx_iff_getElem?.2 (List.getElem?_eq_getElem hn)
      refine homitted (l[n], n) hmem ?_
      rw [List.map_eq_nil_iff.1 (not_not.1 hnone)]
      exact List.not_mem_nil
  next => exact hdated

theorem map_lookup (g : Json → Json) (d : Dict Json) (k : Str) :
    (d.map fun kv => (kv.1, g kv.2)).lookup k = (d.lookup k).map g := by
  induction d with
  | nil => rfl
  | cons kv d ih =>
    obtain ⟨k', v⟩ := kv
    rw [List.map_cons]
    by_cases hk : k = k'
    · rw [hk, Dict.lookup_cons_self, Dict.lookup_cons_self, Option.map_some]
    · rw [Dict.lookup_cons_ne hk, Dict.lookup_cons_ne hk, ih]

/-- the fields but the snippets are what is left of the record's -/
theorem topFields_lookup (hnodup : (record.map Prod.fst).Nodup) {k : Str} (hk : k ≠ "extra_snippets".toList) {w : Json}
    (h : (topFields env record).lookup k = some w) : ∃ v, record.lookup k = some v ∧ w = rest env (resultUrl env record) v := by
  have hdated : ∀ w, ((dated env record).map fun kv => (kv.1, dropRedundantOffers kv.2)).lookup k = some w →
      ∃ v, record.lookup k = some v ∧ w = rest env (resultUrl env record) v := by
    intro w h
    rw [map_lookup, Option.map_eq_some_iff] at h
    obtain ⟨w', hw', rfl⟩ := h
    obtain ⟨v, hv, rfl⟩ := dated_lookup hnodup hw'
    exact ⟨v, hv, rfl⟩
  rw [topFields_eq, dropRedundantOffersFields_eq] at h
  split at h
  next snippets _ =>
    dsimp only at h
    split_ifs at h
    · rw [map_set, Dict.lookup_set, if_neg hk] at h
      exact hdated w h
    · rw [map_erase, Dict.lookup_erase, if_neg hk] at h
      exact hdated w h
  next => exact hdated w h

/-- what is left of a record -/
theorem left_pruned (env : Env) (hwf : (Json.obj record).WellFormed) :
    Json.Pruned (cleanText env) (Omitted env record) [] (.obj record) (left env record) := by
  have hnodup : (record.map Prod.fst).Nodup := Json.nodup_of_wellFormed hwf
  refine ⟨_, rfl, withoutRepeats_pruned (g := rest env (resultUrl env record)) hnodup (topFields_pruned hwf) fun l hl => ?_⟩
  obtain ⟨v, hv, heq⟩ := topFields_lookup hnodup (by decide) hl
  obtain ⟨xs, rfl, rfl⟩ := rest_eq_arr heq.symm
  have hlist : at? ([] ++ [.key "offers".toList]) (.obj record) = some (.arr xs) := by rw [Json.at?_key rfl, hv]
  have hoffer : ∀ n, at? ([] ++ [.key "offers".toList] ++ [.index n]) (.obj record) = xs[n]? := fun n => Json.at?_index hlist n
  refine ⟨xs, hv, rfl, fun n o ho => ?_, fun n o ho hrepeats => ?_, fun hall => .offers [] xs hlist hall⟩
  · have hin := List.mem_of_getElem? ho
    exact keeps o _ (by simp) (by rw [hoffer, ho]) (Json.wellFormed_of_mem (Json.wellFormed_of_lookup hwf hv) hin)
  · exact .offer [] n o ((hoffer n).trans ho) hrepeats

/-! ## Caps -/

theorem capList_eq (parent : Str) (l : List Json) : capList parent l = l.map (cap parent) := by
  induction l with
  | nil => rfl
  | cons v l ih => rw [capList, ih, List.map_cons]

theorem exceeded_eq_some {parent k : Str} {v : Json} {n : ℕ} (h : exceeded parent k v = some n) :
    ∃ l, v = .arr l ∧ capOf parent k = some n ∧ n < l.length := by
  cases v with
  | arr l =>
    obtain ⟨hcap, hlt⟩ := Option.filter_eq_some_iff.1 h
    exact ⟨l, rfl, hcap, of_decide_eq_true hlt⟩
  | _ => cases h

/-- what the loop of `_cap` writes for an entry -/
def written (parent : Str) (kv : Str × Json) : List (Str × Json) :=
  match exceeded parent kv.1 kv.2, cap kv.1 kv.2 with
  | some n, .arr l => [(kv.1, .arr (l.take n)), (notShownKey kv.1, .int (l.length - n : ℕ))]
  | _, capped => [(kv.1, capped)]

theorem written_of_exceeded {parent k : Str} {l : List Json} {n : ℕ} (h : exceeded parent k (.arr l) = some n) :
    written parent (k, .arr l) =
      [(k, .arr ((l.map (cap k)).take n)), (notShownKey k, .int (l.length - n : ℕ))] := by
  rw [written, h, cap, capList_eq]
  dsimp only
  rw [List.length_map]

theorem written_of_not_exceeded {parent k : Str} {v : Json} (h : exceeded parent k v = none) :
    written parent (k, v) = [(k, cap k v)] := by
  rw [written, h]

theorem capFields_eq (parent : Str) (out d : Dict Json) : capFields parent out d = Dict.update out (d.flatMap (written parent)) := by
  induction d generalizing out with
  | nil => rfl
  | cons kv d ih =>
    obtain ⟨k, v⟩ := kv
    have hsplit : ∀ l m : List (Str × Json), Dict.update out (l ++ m) = Dict.update (Dict.update out l) m :=
      fun l m => List.foldl_append
    rw [List.flatMap_cons, hsplit, capFields]
    cases hex : exceeded parent k v with
    | none =>
      rw [written_of_not_exceeded hex]
      exact ih _
    | some n =>
      obtain ⟨l, rfl, -⟩ := exceeded_eq_some hex
      rw [written_of_exceeded hex, cap, capList_eq]
      dsimp only
      rw [ih, List.length_map]
      rfl

/-- a key that is written with one value only has it in the end -/
theorem lookup_written {l : List (Str × Json)} {k : Str} {w : Json} (hmem : (k, w) ∈ l) (hall : ∀ w', (k, w') ∈ l → w' = w) :
    (Dict.update [] l).lookup k = some w := by
  rw [Dict.lookup_update]
  cases hw : l.reverse.lookup k with
  | none =>
    rw [List.lookup_eq_none_iff] at hw
    exact absurd (hw _ (List.mem_reverse.2 hmem)) (by simp)
  | some w' =>
    rw [Option.some_or, hall w' (List.mem_reverse.1 (Dict.mem_of_lookup hw))]

theorem notShownKey_inj {k k' : Str} (h : notShownKey k = notShownKey k') : k = k' := List.append_cancel_right h

/-- what the entry of a key becomes -/
def capped (parent k : Str) (v : Json) : Json :=
  match exceeded parent k v, cap k v with
  | some n, .arr l => .arr (l.take n)
  | _, w => w

theorem capped_of_exceeded {parent k : Str} {l : List Json} {n : ℕ} (h : exceeded parent k (.arr l) = some n) :
    capped parent k (.arr l) = .arr ((l.map (cap k)).take n) := by
  rw [capped, h, cap, capList_eq]

theorem capped_of_not_exceeded {parent k : Str} {v : Json} (h : exceeded parent k v = none) : capped parent k v = cap k v := by
  rw [capped, h]

/-- what is written for an entry: its value, or a count -/
theorem mem_written {parent : Str} {kv : Str × Json} {k : Str} {w : Json} : (k, w) ∈ written parent kv ↔
    k = kv.1 ∧ w = capped parent kv.1 kv.2 ∨
      k = notShownKey kv.1 ∧ ∃ l n, kv.2 = .arr l ∧ exceeded parent kv.1 kv.2 = some n ∧ w = .int (l.length - n : ℕ) := by
  obtain ⟨k', v⟩ := kv
  cases hex : exceeded parent k' v with
  | none =>
    rw [written_of_not_exceeded hex, List.mem_singleton, Prod.mk.injEq, capped_of_not_exceeded hex]
    refine ⟨.inl, fun h => h.resolve_right ?_⟩
    rintro ⟨-, l, n, -, hn, -⟩
    cases hn
  | some n =>
    obtain ⟨l, rfl, -⟩ := exceeded_eq_some hex
    rw [written_of_exceeded hex, List.mem_cons, List.mem_singleton, Prod.mk.injEq, Prod.mk.injEq, capped_of_exceeded hex]
    refine or_congr Iff.rfl (and_congr Iff.rfl ⟨fun hw => ⟨l, n, rfl, rfl, hw⟩, ?_⟩)
    rintro ⟨l', n', hl, hn, rfl⟩
    obtain rfl := Json.arr.inj hl
    obtain rfl := Option.some.inj hn
    rfl

/-- no key of a count is the key of a capped list -/
theorem capOf_notShownKey (parent k : Str) : capOf parent (notShownKey k) = none := by
  have hends : ∀ e ∈ listCaps, ¬ "_not_shown".toList <:+ e.1.toList := by decide
  have hnone : ∀ t, (listCaps.map fun kv => (kv.1.toList, kv.2)).lookup (t ++ "_not_shown".toList) = none := by
    intro t
    rw [List.lookup_eq_none_iff]
    intro e he
    obtain ⟨e', he', rfl⟩ := List.mem_map.1 he
    rw [bne_iff_ne]
    intro heq
    exact hends e' he' ⟨t, heq⟩
  have hfirst := hnone (parent ++ '.' :: k)
  rw [List.append_assoc, List.cons_append] at hfirst
  rw [capOf, notShownKey, hfirst, hnone k]
  rfl

section
variable {parent k : Str} {d : Dict Json} {v : Json}

/-- an entry that no count is written over -/
theorem capFields_lookup (hnodup : (d.map Prod.fst).Nodup) (hv : d.lookup k = some v)
    (hfree : ∀ kv ∈ d, k = notShownKey kv.1 → exceeded parent kv.1 kv.2 = none) :
    (capFields parent [] d).lookup k = some (capped parent k v) := by
  rw [capFields_eq]
  refine lookup_written (List.mem_flatMap.2 ⟨(k, v), Dict.mem_of_lookup hv, mem_written.2 (.inl ⟨rfl, rfl⟩)⟩) fun w hw => ?_
  obtain ⟨⟨k', v'⟩, hkv, hmem⟩ := List.mem_flatMap.1 hw
  obtain ⟨rfl, rfl⟩ | ⟨heq, l, n, -, hex, -⟩ := mem_written.1 hmem
  · rw [Option.some.inj (hv.symm.trans (Dict.lookup_of_mem hnodup hkv))]
  · rw [hfree _ hkv heq] at hex
    cases hex

/-- the count beside a list, where the object has no such key of its own -/
theorem capFields_count (hnodup : (d.map Prod.fst).Nodup) {l : List Json} (hl : d.lookup k = some (.arr l)) {n : ℕ}
    (hcap : capOf parent k = some n) (hnew : d.lookup (notShownKey k) = none) :
    (capFields parent [] d).lookup (notShownKey k) = if n < l.length then some (.int (l.length - n : ℕ)) else none := by
  have hfrom : ∀ w, (notShownKey k, w) ∈ d.flatMap (written parent) → n < l.length ∧ w = .int (l.length - n : ℕ) := by
    intro w hw
    obtain ⟨⟨k', v'⟩, hkv, hmem⟩ := List.mem_flatMap.1 hw
    obtain ⟨rfl, -⟩ | ⟨heq, l', n', rfl, hex, rfl⟩ := mem_written.1 hmem
    · rw [Dict.lookup_of_mem hnodup hkv] at hnew
      cases hnew
    · obtain rfl : k = k' := notShownKey_inj heq
      obtain rfl : l = l' := Json.arr.inj (Option.some.inj (hl.symm.trans (Dict.lookup_of_mem hnodup hkv)))
      obtain ⟨_, hl', hcap', hlt⟩ := exceeded_eq_some hex
      obtain rfl := Json.arr.inj hl'
      obtain rfl : n = n' := Option.some.inj (hcap.symm.trans hcap')
      exact ⟨hlt, rfl⟩
  rw [capFields_eq]
  split_ifs with hlt
  · refine lookup_written (List.mem_flatMap.2 ⟨(k, .arr l), Dict.mem_of_lookup hl, mem_written.2 (.inr ⟨rfl, l, n, rfl, ?_, rfl⟩)⟩)
      fun w hw => (hfrom w hw).2
    exact Option.filter_eq_some_iff.2 ⟨hcap, decide_eq_true hlt⟩
  · rw [Dict.lookup_update]
    cases hw : (d.flatMap (written parent)).reverse.lookup (notShownKey k) with
    | none => rfl
    | some w => exact absurd (hfrom w (List.mem_reverse.1 (Dict.mem_of_lookup hw))).1 hlt

/-- a capped list is never written over -/
theorem capFields_list (hnodup : (d.map Prod.fst).Nodup) {l : List Json} (hl : d.lookup k = some (.arr l)) {n : ℕ}
    (hcap : capOf parent k = some n) : (capFields parent [] d).lookup k = some (.arr ((l.map (cap k)).take n)) := by
  rw [capFields_lookup hnodup hl]
  · by_cases hlt : n < l.length
    · rw [capped_of_exceeded (Option.filter_eq_some_iff.2 ⟨hcap, decide_eq_true hlt⟩)]
    · have hex : exceeded parent k (.arr l) = none := by
        rw [exceeded, hcap]
        exact Option.filter_eq_none_iff.2 fun m hm => by
          obtain rfl := Option.some.inj hm
          simpa using hlt
      rw [capped_of_not_exceeded hex, cap, capList_eq, List.take_of_length_le (by rw [List.length_map]; exact not_lt.1 hlt)]
  · intro kv _ hk
    rw [hk, capOf_notShownKey] at hcap
    cases hcap

end

/-! ### Places -/

/-- the last key on the way to a place, from below the key `parent` -/
def lastKey (parent : Str) : Path → Str
  | [] => parent
  | .key k :: p => lastKey k p
  | .index _ :: p => lastKey parent p

/-- the place is in an entry of a list past the list's cap -/
def PastCap (parent : Str) (q : Path) : Prop :=
  ∃ a k i b n, q = a ++ .key k :: .index i :: b ∧ capOf (lastKey parent a) k = some n ∧ n ≤ i

/-- the place is under the key that the count of a list is written to -/
def UnderCount (parent : Str) (v : Json) (q : Path) : Prop :=
  ∃ a k b d l n, q = a ++ .key (notShownKey k) :: b ∧ at? a v = some (.obj d) ∧ d.lookup k = some (.arr l) ∧
    capOf (lastKey parent a) k = some n ∧ n < l.length

theorem PastCap.below_key {parent k : Str} {q : Path} (h : PastCap k q) : PastCap parent (.key k :: q) := by
  obtain ⟨a, k', i, b, n, rfl, hcap, hle⟩ := h
  exact ⟨.key k :: a, k', i, b, n, rfl, hcap, hle⟩

theorem PastCap.below_index {parent : Str} {i : ℕ} {q : Path} (h : PastCap parent q) : PastCap parent (.index i :: q) := by
  obtain ⟨a, k', i', b, n, rfl, hcap, hle⟩ := h
  exact ⟨.index i :: a, k', i', b, n, rfl, hcap, hle⟩

theorem UnderCount.below_key {parent k : Str} {d : Dict Json} {v : Json} {q : Path} (hv : d.lookup k = some v)
    (h : UnderCount k v q) : UnderCount parent (.obj d) (.key k :: q) := by
  obtain ⟨a, k', b, d', l, n, rfl, hat, hl, hcap, hlt⟩ := h
  exact ⟨.key k :: a, k', b, d', l, n, rfl, by rw [at?, hv, Option.bind_some, hat], hl, hcap, hlt⟩

theorem UnderCount.below_index {parent : Str} {i : ℕ} {l : List Json} {v : Json} {q : Path} (hv : l[i]? = some v)
    (h : UnderCount parent v q) : UnderCount parent (.arr l) (.index i :: q) := by
  obtain ⟨a, k', b, d', l', n, rfl, hat, hl, hcap, hlt⟩ := h
  exact ⟨.index i :: a, k', b, d', l', n, rfl, by rw [at?, hv, Option.bind_some, hat], hl, hcap, hlt⟩

/-- what is under a key, in the capped list or value -/
theorem at?_capped {parent k : Str} {v x : Json} {q : Path} (hx : at? q v = some x) (hlist : ∀ l, x ≠ .arr l)
    (hnot : ¬ PastCap parent (.key k :: q)) : at? q (capped parent k v) = at? q (cap k v) := by
  cases hex : exceeded parent k v with
  | none => rw [capped_of_not_exceeded hex]
  | some n =>
    obtain ⟨l, rfl, hcap, -⟩ := exceeded_eq_some hex
    rw [capped_of_exceeded hex, cap, capList_eq]
    match q with
    | [] => exact absurd (Option.some.inj hx).symm (hlist l)
    | .key _ :: q => cases hx
    | .index i :: q =>
      have hlt : i < n := not_le.1 fun hle => hnot ⟨[], k, i, q, n, rfl, hcap, hle⟩
      rw [at?, at?, List.getElem?_take_of_lt hlt]

/-- **Caps.** A value that is no list is at its place, capped, unless it lies past a cap or a count is written over it. -/
theorem cap_at (parent : Str) {v x : Json} {q : Path} (hwf : v.WellFormed) (hx : at? q v = some x) (hlist : ∀ l, x ≠ .arr l) :
    PastCap parent q ∨ UnderCount parent v q ∨ at? q (cap parent v) = some (cap (lastKey parent q) x) := by
  induction q generalizing parent v with
  | nil =>
    obtain rfl := Option.some.inj hx
    exact .inr (.inr rfl)
  | cons s q ih =>
    cases s with
    | key k =>
      cases v with
      | obj d =>
        obtain ⟨v', hv', hx⟩ := Option.bind_eq_some_iff.1 hx
        by_cases hpast : PastCap parent (.key k :: q)
        · exact .inl hpast
        by_cases hcount : UnderCount parent (.obj d) (.key k :: q)
        · exact .inr (.inl hcount)
        have hnodup : (d.map Prod.fst).Nodup := Json.nodup_of_wellFormed hwf
        have hfree : ∀ kv ∈ d, k = notShownKey kv.1 → exceeded parent kv.1 kv.2 = none := by
          intro kv hkv hk
          by_contra hne
          obtain ⟨n, hex⟩ := Option.ne_none_iff_exists'.1 hne
          obtain ⟨l, hl, hcap, hlt⟩ := exceeded_eq_some hex
          exact hcount ⟨[], kv.1, q, d, l, n, by rw [hk]; rfl, rfl, hl ▸ Dict.lookup_of_mem hnodup hkv, hcap, hlt⟩
        obtain hq | hq | hq := ih k (Json.wellFormed_of_lookup hwf hv') hx
        · exact .inl hq.below_key
        · exact .inr (.inl (hq.below_key hv'))
        · refine .inr (.inr ?_)
          rw [cap, at?, capFields_lookup hnodup hv' hfree, Option.bind_some, at?_capped hx hlist hpast, hq]
          rfl
      | _ => cases hx
    | index i =>
      cases v with
      | arr l =>
        obtain ⟨v', hv', hx⟩ := Option.bind_eq_some_iff.1 hx
        obtain hq | hq | hq := ih parent (Json.wellFormed_of_mem hwf (List.mem_of_getElem? hv')) hx
        · exact .inl hq.below_index
        · exact .inr (.inl (hq.below_index hv'))
        · refine .inr (.inr ?_)
          rw [cap, capList_eq, at?, List.getElem?_map, hv', Option.map_some, Option.bind_some, hq]
          rfl
      | _ => cases hx

/-! ## Records -/

theorem cap_scalar {parent : Str} {v : Json} (hv : isScalar v = true) : cap parent v = v := by
  cases v with
  | arr l => exact absurd hv Bool.false_ne_true
  | obj d => exact absurd hv Bool.false_ne_true
  | _ => rfl

theorem isScalar_leaf {f : Str → Str} {v : Json} (hv : isScalar v = true) : isScalar (Json.leaf f v) = true := by
  cases v with
  | arr l => exact absurd hv Bool.false_ne_true
  | obj d => exact absurd hv Bool.false_ne_true
  | _ => rfl

theorem ne_arr_of_isScalar {v : Json} (hv : isScalar v = true) (l : List Json) : v ≠ .arr l := by
  rintro rfl
  cases hv

/-- the scalars of a record -/
theorem scalar_accounted (hwf : (Json.obj record).WellFormed) {q : Path} {x : Json} (hx : at? q (.obj record) = some x)
    (hscalar : isScalar x = true) :
    Json.GoneOn (Omitted env record) [] q ∨
      ∃ q', Json.Lowered q q' ∧ (PastCap [] q' ∨ UnderCount [] (left env record) q' ∨
        at? q' (trim env (cleanFields env record)) = some (Json.leaf (cleanText env) x)) := by
  have hpruned := left_pruned env hwf
  obtain hgone | ⟨q', hlow, hleft⟩ := hpruned.reaches hx hscalar
  · exact .inl hgone
  · have hleaf := isScalar_leaf (f := cleanText env) hscalar
    have hcap := cap_at [] (hpruned.wellFormed _ _ hwf) hleft (ne_arr_of_isScalar hleaf)
    rw [cap_scalar hleaf] at hcap
    exact .inr ⟨q', hlow, hcap⟩

/-- a capped list that is reached, and the count beside it -/
theorem list_counted (hwf : (Json.obj record).WellFormed) {a : Path} {d : Dict Json} (hd : at? a (left env record) = some (.obj d))
    {k : Str} {l : List Json} (hl : d.lookup k = some (.arr l)) {n : ℕ} (hcap : capOf (lastKey [] a) k = some n)
    (hnew : d.lookup (notShownKey k) = none) :
    PastCap [] a ∨ UnderCount [] (left env record) a ∨ ∃ e shown, at? a (trim env (cleanFields env record)) = some (.obj e) ∧
      e.lookup k = some (.arr shown) ∧ shown.length = min n l.length ∧
      e.lookup (notShownKey k) = if n < l.length then some (.int (l.length - shown.length : ℕ)) else none := by
  have hwfLeft : (left env record).WellFormed := (left_pruned env hwf).wellFormed _ _ hwf
  have hnodup : (d.map Prod.fst).Nodup := Json.nodup_of_wellFormed (Json.wellFormed_at? hwfLeft hd)
  obtain hpast | hcount | hat := cap_at [] hwfLeft hd fun l h => by cases h
  · exact .inl hpast
  · exact .inr (.inl hcount)
  · have hlength : ((l.map (cap k)).take n).length = min n l.length := by rw [List.length_take, List.length_map]
    refine .inr (.inr ⟨_, _, hat, capFields_list hnodup hl hcap, hlength, ?_⟩)
    rw [capFields_count hnodup hl hcap hnew, hlength]
    split_ifs with hlt
    · rw [min_eq_left hlt.le]
    · rfl

/-- **Trimming.** Every scalar of a record is in the trimmed record, its text cleaned, unless it is in an entry that
`Omitted` admits, past a cap, or where a count is written; and a capped list shows its first entries and counts the rest. -/
theorem record_accounted (env : Env) (record : Dict Json) (hwf : (Json.obj record).WellFormed) :
    (∀ q x, at? q (.obj record) = some x → isScalar x = true →
      Json.GoneOn (Omitted env record) [] q ∨
        ∃ q', Json.Lowered q q' ∧ (PastCap [] q' ∨ UnderCount [] (left env record) q' ∨
          at? q' (trim env (cleanFields env record)) = some (Json.leaf (cleanText env) x))) ∧
    ∀ a d k l n, at? a (left env record) = some (.obj d) → d.lookup k = some (.arr l) → capOf (lastKey [] a) k = some n →
      d.lookup (notShownKey k) = none →
      PastCap [] a ∨ UnderCount [] (left env record) a ∨ ∃ e shown, at? a (trim env (cleanFields env record)) = some (.obj e) ∧
        e.lookup k = some (.arr shown) ∧ shown.length = min n l.length ∧
        e.lookup (notShownKey k) = if n < l.length then some (.int (l.length - shown.length : ℕ)) else none :=
  ⟨fun _ _ hx hscalar => scalar_accounted hwf hx hscalar, fun _ _ _ _ _ hd hl hcap hnew => list_counted hwf hd hl hcap hnew⟩

/-- entities are left alone, letters are those of ASCII -/
def plainEnv : Env := ⟨id, fun t => t.map Char.toLower, Char.isUpper⟩

/-- a saw with one offer, at its own price, and a snippet without text -/
def sawRecord : Dict Json :=
  [("title".toList, .str "Saw".toList),
    ("extra_snippets".toList, .arr [.str "<b></b>".toList]),
    ("product".toList, .obj
      [("price".toList, .str "24.98".toList),
        ("offers".toList, .arr
          [.obj [("price".toList, .str "24.98".toList), ("priceCurrency".toList, .str "USD".toList)]])])]

theorem sawRecord_wellFormed : (Json.obj sawRecord).WellFormed := by
  simp only [sawRecord, Json.WellFormed, Json.WellFormedDict, Json.WellFormedList, and_true, List.map]
  decide

theorem record_accounted_saw : (Json.obj sawRecord).WellFormed ∧
    (Json.GoneOn (Omitted plainEnv sawRecord) [] [.key "title".toList] ∨
      ∃ q', Json.Lowered [.key "title".toList] q' ∧ (PastCap [] q' ∨ UnderCount [] (left plainEnv sawRecord) q' ∨
        at? q' (trim plainEnv (cleanFields plainEnv sawRecord)) = some (.str "Saw".toList))) := by
  refine ⟨sawRecord_wellFormed, ?_⟩
  have hsaw := (record_accounted plainEnv sawRecord sawRecord_wellFormed).1 [.key "title".toList] (.str "Saw".toList)
    (by decide +kernel) rfl
  have hclean : Json.leaf (cleanText plainEnv) (.str "Saw".toList) = .str "Saw".toList := by decide +kernel
  rwa [hclean] at hsaw

/-- the snippet is in no other text; the offer has a field that the product lacks, which `_drop` takes out before the two are
compared -/
theorem snippet_and_price_left_out :
    at? [.key "extra_snippets".toList, .index 0] (.obj sawRecord) = some (.str "<b></b>".toList) ∧
    at? [.key "extra_snippets".toList, .index 1] (.obj sawRecord) = none ∧
    sawRecord.lookup "description".toList = none ∧ isMenu plainEnv [] = false ∧
    at? [.key "product".toList, .key "offers".toList, .index 0, .key "price".toList] (.obj sawRecord) =
      some (.str "24.98".toList) ∧
    at? [.key "product".toList, .key "offers".toList, .index 0, .key "priceCurrency".toList] (.obj sawRecord) =
      some (.str "USD".toList) ∧
    at? [.key "product".toList, .key "priceCurrency".toList] (.obj sawRecord) = none ∧
    trim plainEnv (cleanFields plainEnv sawRecord) = .obj
      [("title".toList, .str "Saw".toList), ("product".toList, .obj [("price".toList, .str "24.98".toList)])] := by
  decide +kernel

end Clawbolt.WebSearch

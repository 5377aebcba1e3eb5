/-
Merging a change into a stored QuickBooks line or address (the line functions of integrations/quickbooks/merge.py, and
`describe_line`, which one of their rejections quotes).

`Env` holds the conversions between JSON numbers, decimals and text that Python's `str`, `float`, `Decimal` and format
specs make. Nothing is assumed of it. A conversion may fail with an exception that the code catches or with one that it
does not (`Attempt`). A copy is the value itself: nothing here changes a value in place.

- `lookup_mergeKeys`, `lookup_mergeKeys_of_none`: a change replaces the keys it names, detail objects key by key;
- `mergeLine_keeps`, `mergeLine_amount`, `mergeLine_detail`: what a change leaves of a stored line.
-/
import Mathlib.Tactic
import Clawbolt.Core.Json

namespace Clawbolt.QuickBooks

open Text (Str)

/-! ## Model -/

/-- a Python call: its value, an exception that the caller catches, or one that it does not -/
inductive Attempt (α : Type) where
  | value (a : α)
  | caught
  | raises
deriving DecidableEq, Repr

structure Env where
  /-- `str` of a float, a list or a dict -/
  repr : Json → Str
  casefold : Str → Str
  /-- `float(a) == float(b)`; no `TypeError` or `ValueError` goes past the caller -/
  sameFloat : Json → Json → Attempt Bool
  /-- `float((Decimal(a) * Decimal(b)).quantize(_CENT, rounding=ROUND_HALF_UP))`; a text that is no decimal is caught -/
  lineAmount : Str → Str → Attempt Json
  /-- `f"{float(v):,.2f}"` -/
  money : Json → Attempt Str
  /-- `f"{float(v):g}"` -/
  general : Json → Attempt Str

/-- `UpdateRejected`, or another exception -/
inductive UpdateError where
  | rejected (message : Str) (conflict : Bool)
  | raised
deriving DecidableEq, Repr

abbrev Line := Dict Json

/-- `str(v)` -/
def Env.str (env : Env) : Json → Str
  | .str s => s
  | .int n => (if n < 0 then ['-'] else []) ++ Nat.toDigits 10 n.natAbs
  | .bool b => if b then "True".toList else "False".toList
  | .null => "None".toList
  | v => env.repr v

/-- `bool(v)` -/
def truthy : Json → Bool
  | .null => false
  | .bool b => b
  | .int n => n ≠ 0
  | .float x => x ≠ 0
  | .str s => s ≠ []
  | .arr l => !l.isEmpty
  | .obj d => !d.isEmpty

/-- `d.get(key)` -/
def get (d : Dict Json) (key : String) : Json := (d.lookup key.toList).getD .null

/-- `_line_id` -/
def lineId (env : Env) (line : Line) : Option Str :=
  match get line "Id" with
  | .null => none
  | raw => if Text.strip (env.str raw) = [] then none else some (Text.strip (env.str raw))

/-- `_is_subtotal` -/
def isSubtotal (line : Line) : Bool := get line "DetailType" = .str "SubTotalLineDetail".toList

/-- `_SALES_DETAIL` -/
def salesDetail : String := "SalesItemLineDetail"

/-- a change to another type than the stored one -/
def switchesType (stored change : Line) : Bool :=
  truthy (get change "DetailType") && truthy (get stored "DetailType") &&
    !Json.eqv (get change "DetailType") (get stored "DetailType")

/-- the value of a changed key: a detail object is merged key by key -/
def mergedValue (key : Str) (existing : Option Json) (value : Json) : Json :=
  match existing, value with
  | some (.obj e), .obj v => if Text.endsWith "LineDetail".toList key then .obj (Dict.update e v) else value
  | _, _ => value

/-- the loop of `_merge_line` over the change -/
def mergeKeys (merged : Line) (change : Line) : Line :=
  change.foldl (fun m kv => Dict.set kv.1 (mergedValue kv.1 (m.lookup kv.1) kv.2) m) merged

/-- `_recompute_amount` -/
def recomputeAmount (env : Env) (merged change : Line) : Except UpdateError Line :=
  if Dict.has "Amount".toList change then .ok merged
  else
    match get change salesDetail, get merged salesDetail with
    | .obj sent, .obj detail =>
      if Dict.has "Qty".toList sent ∨ Dict.has "UnitPrice".toList sent then
        match detail.lookup "Qty".toList, detail.lookup "UnitPrice".toList with
        | some qty, some price =>
          match env.lineAmount (env.str qty) (env.str price) with
          | .value amount => .ok (Dict.set "Amount".toList amount merged)
          | .caught => .ok merged
          | .raises => .error .raised
        | _, _ => .ok merged
      else .ok merged
    | _, _ => .ok merged

/-- the stored line that the keys are merged into: a line switching type drops the old type's detail object -/
def mergeBase (env : Env) (stored change : Line) : Line :=
  if switchesType stored change then Dict.erase (env.str (get stored "DetailType")) stored else stored

/-- `_merge_line` -/
def mergeLine (env : Env) (stored change : Line) : Except UpdateError Line :=
  recomputeAmount env (mergeKeys (mergeBase env stored change) change) change

/-- `str(line.get("Description") or "").strip().casefold()` -/
def description (env : Env) (line : Line) : Str :=
  let text := if truthy (get line "Description") then env.str (get line "Description") else []
  env.casefold (Text.strip text)

/-- `float(a[key]) == float(b[key])`: a missing key is caught; for the second one, as for `None`, after the first `float` -/
def sameNumber (env : Env) (key : String) (a b : Dict Json) : Attempt Bool :=
  match a.lookup key.toList with
  | some x => env.sameFloat x ((b.lookup key.toList).getD .null)
  | none => .caught

/-- Python's `and` -/
def Attempt.and (a : Attempt Bool) (b : Attempt Bool) : Attempt Bool :=
  match a with
  | .value true => b
  | a => a

/-- `_same_line` -/
def sameLine (env : Env) (new stored : Line) : Except UpdateError Bool :=
  let desc := description env new
  let storedDesc := description env stored
  if desc ≠ [] ∧ storedDesc ≠ [] ∧ desc ≠ storedDesc then .ok false
  else if desc ≠ [] ∧ desc = storedDesc then
    let newType := get new "DetailType"
    .ok (!truthy newType || Json.eqv newType (get stored "DetailType"))
  else
    match get new salesDetail, get stored salesDetail with
    | .obj newDetail, .obj oldDetail =>
      let sameNumbers := ((env.sameFloat (get new "Amount") (get stored "Amount")).and
        (sameNumber env "Qty" newDetail oldDetail)).and (sameNumber env "UnitPrice" newDetail oldDetail)
      match sameNumbers with
      | .raises => .error .raised
      | .caught => .ok false
      | .value same =>
        match get newDetail "ItemRef", get oldDetail "ItemRef" with
        | .obj newItem, .obj oldItem =>
          .ok (if env.str (get newItem "value") ≠ env.str (get oldItem "value") then false else same)
        | _, _ => .ok same
    | _, _ => .ok false

/-- `_STREET_KEYS` -/
def streetKeys : List String := ["Line1", "Line2", "Line3", "Line4", "Line5"]

/-- `_GEOCODE_KEYS` -/
def geocodeKeys : List String := ["Lat", "Long"]

/-- `_merge_address` -/
def mergeAddress (stored change : Dict Json) : Dict Json :=
  let merged := Dict.update stored change
  if Dict.has "Line1".toList change then
    let blanked := streetKeys.foldl (fun m key =>
      if !Dict.has key.toList change && truthy (get stored key) then Dict.set key.toList (.str []) m else m) merged
    geocodeKeys.foldl (fun m key => Dict.erase key.toList m) blanked
  else merged

/-! ### The text of a line -/

/-- `_money` -/
def moneyText (env : Env) (value : Json) : Except UpdateError Str :=
  match env.money value with
  | .value t => .ok ("$".toList ++ t)
  | .caught => .ok (env.str value)
  | .raises => .error .raised

/-- `_short` with its default limit -/
def short (text : Str) : Str := if text.length ≤ 80 then text else text.take 77 ++ "...".toList

/-- `a or b` -/
def orElse (a b : Json) : Json := if truthy a then a else b

/-- `describe_line` -/
def describeLine (env : Env) (line : Line) : Except UpdateError Str := do
  let detailType := if truthy (get line "DetailType") then env.str (get line "DetailType") else []
  let detail := match (if detailType = [] then none else line.lookup detailType) with
    | some (.obj d) => d
    | _ => []
  let text := if truthy (get line "Description") then env.str (get line "Description") else "(no description)".toList
  let itemBits := match get detail "ItemRef" with
    | .obj item =>
      let name := orElse (get item "name") (get item "value")
      if truthy name then ["item ".toList ++ env.str name] else []
    | _ => []
  let amount ← moneyText env ((line.lookup "Amount".toList).getD (.int 0))
  let qty := get detail "Qty"
  let price := get detail "UnitPrice"
  let last ←
    if qty ≠ .null ∧ price ≠ .null then
      match env.general qty with
      | .value q => do
        let p ← moneyText env price
        pure ("qty ".toList ++ q ++ " x ".toList ++ p ++ " = ".toList ++ amount)
      | .caught => pure amount
      | .raises => .error .raised
    else pure amount
  pure (Text.join " | ".toList ([short text] ++ itemBits ++ [last]))

/-! ## The keys of a merged line -/

/-- a key that the change does not name -/
theorem lookup_mergeKeys_of_none {change : Line} {k : Str} (h : change.lookup k = none) (merged : Line) :
    (mergeKeys merged change).lookup k = merged.lookup k := by
  induction change generalizing merged with
  | nil => rfl
  | cons kv change ih =>
    obtain ⟨a, b⟩ := kv
    by_cases hk : k = a
    · subst hk
      rw [Dict.lookup_cons_self] at h
      exact absurd h (by simp)
    · rw [Dict.lookup_cons_ne hk] at h
      have hcons : mergeKeys merged ((a, b) :: change) =
          mergeKeys (Dict.set a (mergedValue a (merged.lookup a) b) merged) change := rfl
      rw [hcons, ih h, Dict.lookup_set, if_neg hk]

/-- a key that it names -/
theorem lookup_mergeKeys {change : Line} (hnd : (change.map Prod.fst).Nodup) {k : Str} {v : Json}
    (h : change.lookup k = some v) (merged : Line) :
    (mergeKeys merged change).lookup k = some (mergedValue k (merged.lookup k) v) := by
  induction change generalizing merged with
  | nil => simp at h
  | cons kv change ih =>
    obtain ⟨a, b⟩ := kv
    rw [List.map_cons, List.nodup_cons] at hnd
    have hcons : mergeKeys merged ((a, b) :: change) =
        mergeKeys (Dict.set a (mergedValue a (merged.lookup a) b) merged) change := rfl
    by_cases hk : k = a
    · subst hk
      rw [Dict.lookup_cons_self, Option.some.injEq] at h
      subst h
      have hnone : change.lookup k = none := by
        cases hl : change.lookup k with
        | none => rfl
        | some x => exact absurd (List.mem_map_of_mem (f := Prod.fst) (Dict.mem_of_lookup hl)) hnd.1
      rw [hcons, lookup_mergeKeys_of_none hnone, Dict.lookup_set, if_pos rfl]
    · rw [Dict.lookup_cons_ne hk] at h
      rw [hcons, ih hnd.2 h, Dict.lookup_set, if_neg hk]

/-- what a recomputed line differs in -/
theorem recomputeAmount_cases {env : Env} {merged change line : Line} (h : recomputeAmount env merged change = .ok line) :
    line = merged ∨ (change.lookup "Amount".toList = none ∧ ∃ detail qty price amount,
      merged.lookup salesDetail.toList = some (.obj detail) ∧ detail.lookup "Qty".toList = some qty ∧
      detail.lookup "UnitPrice".toList = some price ∧
      env.lineAmount (env.str qty) (env.str price) = .value amount ∧
      line = Dict.set "Amount".toList amount merged) := by
  unfold recomputeAmount at h
  by_cases ha : Dict.has "Amount".toList change = true
  · rw [if_pos ha] at h
    exact Or.inl (Except.ok.inj h).symm
  rw [if_neg ha] at h
  have hnone : change.lookup "Amount".toList = none := Dict.has_eq_false.1 (by simpa only [Bool.not_eq_true] using ha)
  split at h
  · rename_i sent detail hsent hdetail
    have hd : merged.lookup salesDetail.toList = some (.obj detail) := by
      unfold get at hdetail
      cases hl : merged.lookup salesDetail.toList with
      | none => simp [hl] at hdetail
      | some x => simpa [hl] using hdetail
    split_ifs at h
    · split at h
      · rename_i qty price hq hp
        split at h
        · rename_i amount hamount
          exact Or.inr ⟨hnone, detail, qty, price, amount, hd, hq, hp, hamount, (Except.ok.inj h).symm⟩
        · exact Or.inl (Except.ok.inj h).symm
        · exact absurd h (by simp)
      · exact Or.inl (Except.ok.inj h).symm
    · exact Or.inl (Except.ok.inj h).symm
  · exact Or.inl (Except.ok.inj h).symm

/-- the detail object that a change of type drops -/
def DroppedDetail (env : Env) (stored change : Line) (k : Str) : Prop :=
  switchesType stored change = true ∧ k = env.str (get stored "DetailType")

instance (env : Env) (stored change : Line) (k : Str) : Decidable (DroppedDetail env stored change k) := by
  unfold DroppedDetail; infer_instance

theorem lookup_mergeBase {env : Env} {stored change : Line} {k : Str} (h : ¬ DroppedDetail env stored change k) :
    (mergeBase env stored change).lookup k = stored.lookup k := by
  unfold mergeBase
  split_ifs with hs
  · rw [Dict.lookup_erase, if_neg fun hk => h ⟨hs, hk⟩]
  · rfl

section

variable {env : Env} {stored change line : Line}

/-- **A key that the change does not name stays.** -/
theorem mergeLine_keeps (h : mergeLine env stored change = .ok line) {k : Str} (hk : change.lookup k = none)
    (hamount : k ≠ "Amount".toList) (hdrop : ¬ DroppedDetail env stored change k) : line.lookup k = stored.lookup k := by
  have hkeys : (mergeKeys (mergeBase env stored change) change).lookup k = stored.lookup k := by
    rw [lookup_mergeKeys_of_none hk, lookup_mergeBase hdrop]
  rcases recomputeAmount_cases h with rfl | ⟨-, -, -, -, -, -, -, -, -, rfl⟩
  · exact hkeys
  · rw [Dict.lookup_set, if_neg hamount, hkeys]

/-- a key that the change names, other than a detail and the amount -/
theorem mergeLine_names (h : mergeLine env stored change = .ok line) (hnd : (change.map Prod.fst).Nodup) {k : Str} {v : Json}
    (hk : change.lookup k = some v) (hend : Text.endsWith "LineDetail".toList k = false) (hamount : k ≠ "Amount".toList) :
    line.lookup k = some v := by
  have hkeys : (mergeKeys (mergeBase env stored change) change).lookup k = some v := by
    rw [lookup_mergeKeys hnd hk]
    unfold mergedValue
    split
    · rw [if_neg (Bool.eq_false_iff.1 hend)]
    · rfl
  rcases recomputeAmount_cases h with rfl | ⟨-, -, -, -, -, -, -, -, -, rfl⟩
  · exact hkeys
  · rw [Dict.lookup_set, if_neg hamount, hkeys]

/-- **The amount stays, or is the quantity times the price.** -/
theorem mergeLine_amount (h : mergeLine env stored change = .ok line) (hk : change.lookup "Amount".toList = none)
    (hdrop : ¬ DroppedDetail env stored change "Amount".toList) :
    line.lookup "Amount".toList = stored.lookup "Amount".toList ∨ ∃ detail qty price amount,
      line.lookup salesDetail.toList = some (.obj detail) ∧ detail.lookup "Qty".toList = some qty ∧
      detail.lookup "UnitPrice".toList = some price ∧
      env.lineAmount (env.str qty) (env.str price) = .value amount ∧ line.lookup "Amount".toList = some amount := by
  rcases recomputeAmount_cases h with rfl | ⟨-, detail, qty, price, amount, hd, hq, hp, ha, rfl⟩
  · left
    rw [lookup_mergeKeys_of_none hk, lookup_mergeBase hdrop]
  · refine Or.inr ⟨detail, qty, price, amount, ?_, hq, hp, ha, ?_⟩
    · rw [Dict.lookup_set, if_neg (by decide), hd]
    · rw [Dict.lookup_set, if_pos rfl]

/-- **A detail key that the change does not name stays.** -/
theorem mergeLine_detail (h : mergeLine env stored change = .ok line) (hnd : (change.map Prod.fst).Nodup) {k : Str}
    (hend : Text.endsWith "LineDetail".toList k = true) (hdrop : ¬ DroppedDetail env stored change k) {e v : Dict Json}
    (hstored : stored.lookup k = some (.obj e)) (hchange : change.lookup k = some (.obj v)) :
    ∃ d, line.lookup k = some (.obj d) ∧ ∀ j, v.lookup j = none → d.lookup j = e.lookup j := by
  have hkeys : (mergeKeys (mergeBase env stored change) change).lookup k = some (.obj (Dict.update e v)) := by
    rw [lookup_mergeKeys hnd hchange, lookup_mergeBase hdrop, hstored]
    exact congrArg some (if_pos hend)
  have hne : k ≠ "Amount".toList := by
    rintro rfl
    exact absurd hend (by decide)
  refine ⟨Dict.update e v, ?_, fun j hj => ?_⟩
  · rcases recomputeAmount_cases h with rfl | ⟨-, -, -, -, -, -, -, -, -, rfl⟩
    · exact hkeys
    · rw [Dict.lookup_set, if_neg hne, hkeys]
  · rw [Dict.lookup_update]
    have hrev : v.reverse.lookup j = none := by
      rw [List.lookup_eq_none_iff] at hj ⊢
      exact fun p hp => hj p (List.mem_reverse.1 hp)
    rw [hrev, Option.none_or]

end

end Clawbolt.QuickBooks

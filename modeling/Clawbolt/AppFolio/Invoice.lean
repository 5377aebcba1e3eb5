/-
An AppFolio invoice (integrations/appfolio_vendor/invoices.py and params.py): the arguments that are accepted, the approval
prompt that is made from them, and the lines that are sent.

Floats are the exact decimals they print. `coerce` is how the parameter model reads a float from a text; a text that it
accepts is one that `float` reads as the same number. `repr` is the text of a float, `str` that of a value that is no string.
The prompt and the tool are given either the arguments of the call or the dump of the model; a `line_items` that is no list is
accepted by neither.

- `approved_is_sent`: what the prompt shows of the invoice that is sent;
- `rows_off_header`: the rows, rounded one by one, do not add up to the header, and a quantity is cut to six digits.
-/
import Mathlib.Tactic
import Clawbolt.Core.Floats
import Clawbolt.Core.Json
import Clawbolt.Core.Fallible

namespace Clawbolt.AppFolio.Invoice

open Text (Str)
open Floats

/-! ## Arguments -/

inductive Value where
  | null
  | bool (b : Bool)
  | num (x : Number)
  | str (s : Str)
  /-- a list or an object -/
  | composite (empty : Bool)
deriving DecidableEq

def Value.truthy : Value → Bool
  | null => false
  | bool b => b
  | num x => x ≠ .finite 0
  | str s => s ≠ []
  | composite empty => !empty

inductive Item where
  | dict (fields : Dict Value)
  | other
deriving DecidableEq

structure Args where
  customerId : Option Str
  workOrderId : Option Str
  /-- none where it is missing or null -/
  lineItems : Option (List Item)
  referenceNumber : Option Str
deriving DecidableEq

structure Env where
  coerce : Str → Option Number
  repr : Number → Str
  str : Value → Str

variable (env : Env)

/-! ## The parameter model -/

/-- `AppFolioInvoiceLineItem` -/
structure LineItem where
  description : Str
  quantity : Number
  amount : Number
deriving DecidableEq

/-- `AppFolioCreateInvoiceParams` -/
structure Params where
  customerId : Str
  workOrderId : Str
  lineItems : List LineItem
  referenceNumber : Str
deriving DecidableEq

def validateFloat : Value → Option Number
  | .bool b => some (.finite (if b then 1 else 0))
  | .num x => some x
  | .str s => env.coerce s
  | _ => none

def validateStr : Value → Option Str
  | .str s => some s
  | _ => none

def validateItem : Item → Option LineItem
  | .other => none
  | .dict fields => do
    let description ← (fields.lookup "description".toList).bind validateStr
    let quantity ← (fields.lookup "quantity".toList).elim (some (.finite 1)) (validateFloat env)
    let amount ← (fields.lookup "amount".toList).bind (validateFloat env)
    some ⟨description, quantity, amount⟩

def validate (args : Args) : Option Params := do
  let customerId ← args.customerId
  let workOrderId ← args.workOrderId
  let items ← args.lineItems
  let lineItems ← items.mapM (validateItem env)
  some ⟨customerId, workOrderId, lineItems, args.referenceNumber.getD []⟩

/-- `model_dump` -/
def LineItem.dump (i : LineItem) : Item :=
  .dict [("description".toList, .str i.description), ("quantity".toList, .num i.quantity), ("amount".toList, .num i.amount)]

def Params.dump (p : Params) : Args :=
  ⟨some p.customerId, some p.workOrderId, some (p.lineItems.map LineItem.dump), some p.referenceNumber⟩

/-! ## The invoice -/

structure PayloadLine where
  amount : Number
  description : Str
  quantity : Str
deriving DecidableEq

def lineItemsTotal (items : List LineItem) : Number := Number.sum (items.map fun i => i.quantity.mul i.amount)

def lineItemsToPayload (items : List LineItem) : List PayloadLine :=
  items.map fun i => ⟨i.amount.mul i.quantity, i.description, env.repr i.quantity⟩

/-- the lines that `appfolio_create_invoice` sends, none where it sends nothing -/
def createInvoice (lineItems : List Item) : Option (List PayloadLine) := do
  let typed ← lineItems.mapM (validateItem env)
  if typed = [] then none else some (lineItemsToPayload env typed)

/-! ## The prompt -/

structure Row where
  description : Str
  quantity : Number
  amount : Number
  lineTotal : Number
deriving DecidableEq

inductive Prompt where
  /-- an item is malformed -/
  | short (workOrderId : Str) (count : ℕ)
  | noLines (workOrderId : Str)
  | full (workOrderId : Str) (grandTotal : Number) (rows : List Row)
deriving DecidableEq

/-- `float(v)`; none for a `TypeError` or a `ValueError` -/
def float : Value → Option Number
  | .bool b => some (.finite (if b then 1 else 0))
  | .num x => some x
  | .str s => ofText s
  | _ => none

/-- `float(item.get(key, d) or d)` -/
def floatOr (d : ℚ) (fields : Dict Value) (key : String) : Option Number :=
  match fields.lookup key.toList with
  | some v => if v.truthy then float v else some (.finite d)
  | none => some (.finite d)

def descriptionOf (fields : Dict Value) : Str :=
  match fields.lookup "description".toList with
  | some (.str s) => if s = [] then "(no description)".toList else s
  | some v => if v.truthy then env.str v else "(no description)".toList
  | none => "(no description)".toList

def parseItem : Item → Option Row
  | .other => none
  | .dict fields => do
    let quantity ← floatOr 1 fields "quantity"
    let amount ← floatOr 0 fields "amount"
    some ⟨descriptionOf env fields, quantity, amount, quantity.mul amount⟩

/-- the loop over the items, with the grand total so far and the rows so far -/
def parseItems : Number → List Row → List Item → Option (Number × List Row)
  | total, rows, [] => some (total, rows)
  | total, rows, item :: items => do
    let row ← parseItem env item
    parseItems (total.add row.lineTotal) (rows ++ [row]) items

def formatInvoiceApprovalDescription (args : Args) : Prompt :=
  let workOrderId := args.workOrderId.getD ['?']
  let items := args.lineItems.getD []
  match parseItems env (.finite 0) [] items with
  | none => .short workOrderId items.length
  | some (total, rows) => if rows = [] then .noLines workOrderId else .full workOrderId total rows

def shorten (description : Str) : Str :=
  if description.length ≤ 80 then description else description.take 77 ++ "...".toList

def Row.text (idx : ℕ) (r : Row) : Str :=
  "  ".toList ++ Nat.toDigits 10 idx ++ ". ".toList ++ shorten r.description ++ " | qty ".toList ++ general r.quantity ++
    " x $".toList ++ fixed 2 r.amount ++ " = $".toList ++ fixed 2 r.lineTotal

def Prompt.text : Prompt → Str
  | short workOrderId count =>
    "Create invoice on AppFolio work order #".toList ++ workOrderId ++ " (".toList ++ Nat.toDigits 10 count ++
      " line item(s))".toList
  | noLines workOrderId => "Create invoice on AppFolio work order #".toList ++ workOrderId ++ " (no line items)".toList
  | full workOrderId total rows =>
    Text.join ['\n'] (("Create invoice on AppFolio work order #".toList ++ workOrderId ++ " for $".toList ++ fixed 2 total) ::
      rows.mapIdx fun i r => r.text (i + 1))

/-! ## What is claimed -/

/-- a cent -/
def cent : ℚ := 1 / 100

/-- what the grand total and the rows of a prompt say of the lines that are sent -/
structure Shows (total : Number) (rows : List Row) (items : List LineItem) (payload : List PayloadLine) : Prop where
  quantities : rows.map Row.quantity = items.map LineItem.quantity
  lineTotals : rows.map Row.lineTotal = payload.map PayloadLine.amount
  grandTotal : total = Number.sum (payload.map PayloadLine.amount)
  /-- the cents of the rows add up to those of the header, but for half a cent for each of them -/
  cents : ∀ qs : List ℚ, rows.map Row.lineTotal = qs.map Number.finite →
    total = .finite qs.sum ∧ |toUnit cent qs.sum - (qs.map (toUnit cent)).sum| ≤ (qs.length + 1) * (cent / 2)
  finite : payload.map (fun l => l.amount.isFinite) = items.map fun i => i.quantity.isFinite && i.amount.isFinite

/-- nothing is sent of an invoice without lines, and the prompt shows what is sent of another one -/
structure Agrees (args : Args) (p : Params) : Prop where
  sent : p.lineItems ≠ [] → ∃ payload total rows, createInvoice env (args.lineItems.getD []) = some payload ∧
    formatInvoiceApprovalDescription env args = .full p.workOrderId total rows ∧ Shows total rows p.lineItems payload
  noLines : p.lineItems = [] →
    createInvoice env (args.lineItems.getD []) = none ∧ formatInvoiceApprovalDescription env args = .noLines p.workOrderId

/-! ## Items -/

variable {env}

/-- the row of an accepted item -/
def LineItem.row (i : LineItem) : Row :=
  ⟨if i.description = [] then "(no description)".toList else i.description, i.quantity, i.amount, i.quantity.mul i.amount⟩

/-- a value that is accepted as a float is read as that float, and is zero where it counts as missing -/
theorem float_of_validateFloat (hcoerce : ∀ s x, env.coerce s = some x → ofText s = some x) {v : Value} {x : Number}
    (h : validateFloat env v = some x) : if v.truthy then float v = some x else x = .finite 0 := by
  cases v with
  | null => exact absurd h (by simp [validateFloat])
  | bool b =>
    obtain rfl := Option.some.inj h
    cases b <;> rfl
  | num y =>
    obtain rfl := Option.some.inj h
    by_cases hy : y = .finite 0
    · rw [if_neg (by simp [Value.truthy, hy])]
      exact hy
    · rw [if_pos (by simp [Value.truthy, hy])]
      rfl
  | str s =>
    have hread := hcoerce s x h
    have hne : s ≠ [] := by
      rintro rfl
      have hempty : ofText [] = none := by decide
      exact absurd (hempty.symm.trans hread) (by simp)
    rw [if_pos (by simp [Value.truthy, hne])]
    exact hread
  | composite empty => exact absurd h (by simp [validateFloat])

theorem floatOr_of_validateFloat (hcoerce : ∀ s x, env.coerce s = some x → ofText s = some x) {fields : Dict Value}
    {key : String} {v : Value} {x : Number} (hv : fields.lookup key.toList = some v) (h : validateFloat env v = some x) {d : ℚ}
    (hzero : x = .finite 0 → d = 0) : floatOr d fields key = some x := by
  have hfloat := float_of_validateFloat hcoerce h
  simp only [floatOr, hv]
  split_ifs at hfloat ⊢ with htruthy
  · exact hfloat
  · rw [hfloat, hzero hfloat]

theorem parseItem_of_validateItem (hcoerce : ∀ s x, env.coerce s = some x → ofText s = some x) {item : Item} {i : LineItem}
    (h : validateItem env item = some i) (hquantity : i.quantity ≠ .finite 0) : parseItem env item = some i.row := by
  cases item with
  | other => exact absurd h (by simp [validateItem])
  | dict fields =>
    simp only [validateItem, Option.bind_eq_bind, Option.bind_eq_some_iff, Option.some.injEq] at h
    obtain ⟨description, hdescription, quantity, hq, amount, hamount, rfl⟩ := h
    obtain ⟨dv, hdv, hstr⟩ := hdescription
    obtain ⟨av, hav, hfloat⟩ := hamount
    have hqty : floatOr 1 fields "quantity" = some quantity := by
      cases hqv : fields.lookup "quantity".toList with
      | none =>
        rw [hqv] at hq
        simp only [floatOr, hqv]
        exact hq
      | some qv =>
        rw [hqv] at hq
        exact floatOr_of_validateFloat hcoerce hqv hq fun h0 => absurd h0 hquantity
    have hamt : floatOr 0 fields "amount" = some amount := floatOr_of_validateFloat hcoerce hav hfloat fun _ => rfl
    have hdesc : descriptionOf env fields = if description = [] then "(no description)".toList else description := by
      cases dv with
      | str s =>
        obtain rfl := Option.some.inj hstr
        simp only [descriptionOf, hdv]
      | _ => exact absurd hstr (by simp [validateStr])
    simp only [parseItem, hqty, hamt, hdesc, Option.bind_eq_bind, Option.bind_some, LineItem.row]

theorem validateItem_dump (i : LineItem) : validateItem env i.dump = some i := rfl

/-- the loop reads item after item, and adds up the line totals -/
theorem parseItems_eq (total : Number) (rows : List Row) (items : List Item) {new : List Row}
    (h : items.mapM (parseItem env) = some new) :
    parseItems env total rows items = some ((new.map Row.lineTotal).foldl Number.add total, rows ++ new) := by
  induction items generalizing total rows new with
  | nil =>
    obtain rfl := Option.some.inj h
    simp [parseItems]
  | cons item items ih =>
    simp only [List.mapM_cons, Option.bind_eq_bind, Option.bind_eq_some_iff] at h
    obtain ⟨row, hrow, new, hnew, h⟩ := h
    obtain rfl := Option.some.inj h
    simp only [parseItems, hrow, Option.bind_eq_bind, Option.bind_some, ih _ _ hnew, List.map_cons, List.foldl_cons,
      List.append_assoc, List.singleton_append]

/-! ## Invoices -/

theorem shows_rows (items : List LineItem) :
    Shows (Number.sum ((items.map LineItem.row).map Row.lineTotal)) (items.map LineItem.row) items (lineItemsToPayload env items) := by
  have htotals : (items.map LineItem.row).map Row.lineTotal = (lineItemsToPayload env items).map PayloadLine.amount := by
    simp only [lineItemsToPayload, List.map_map]
    exact List.map_congr_left fun i _ => Number.mul_swap i.quantity i.amount
  refine ⟨?_, htotals, by rw [htotals], ?_, ?_⟩
  · rw [List.map_map]
    rfl
  · intro qs hqs
    rw [hqs, Number.sum_finite]
    exact ⟨rfl, abs_toUnit_sum_sub_le (by norm_num [cent]) qs⟩
  · simp only [lineItemsToPayload, List.map_map]
    exact List.map_congr_left fun i _ => (Number.isFinite_mul i.amount i.quantity).trans (Bool.and_comm _ _)

/-- the items of a call, and their model -/
theorem agrees_of_items (hcoerce : ∀ s x, env.coerce s = some x → ofText s = some x) {args : Args} {p : Params}
    {items : List Item} (hid : args.workOrderId = some p.workOrderId) (hitems : args.lineItems = some items)
    (hvalid : items.mapM (validateItem env) = some p.lineItems) (hquantity : ∀ i ∈ p.lineItems, i.quantity ≠ .finite 0) :
    Agrees env args p := by
  have hrows : items.mapM (parseItem env) = some (p.lineItems.map LineItem.row) := by
    rw [Fallible.mapM_option_iff, List.forall₂_map_right_iff]
    have hall := ((List.forall₂_and_left _ _).2 ⟨hquantity, ((Fallible.mapM_option_iff _ _ _).1 hvalid).flip⟩).flip
    exact hall.imp fun item i h => parseItem_of_validateItem hcoerce h.2 h.1
  have hparse := parseItems_eq (.finite 0) [] items hrows
  have hprompt : formatInvoiceApprovalDescription env args =
      if p.lineItems = [] then .noLines p.workOrderId
      else .full p.workOrderId (Number.sum ((p.lineItems.map LineItem.row).map Row.lineTotal)) (p.lineItems.map LineItem.row) := by
    simp only [formatInvoiceApprovalDescription, hid, hitems, Option.getD_some, hparse, List.nil_append, List.map_eq_nil_iff]
    rfl
  have hsent : createInvoice env (args.lineItems.getD []) =
      if p.lineItems = [] then none else some (lineItemsToPayload env p.lineItems) := by
    simp only [createInvoice, hitems, Option.getD_some, hvalid, Option.bind_eq_bind, Option.bind_some]
  refine ⟨fun hne => ?_, fun hnil => ?_⟩
  · rw [if_neg hne] at hprompt hsent
    exact ⟨_, _, _, hsent, hprompt, shows_rows p.lineItems⟩
  · rw [if_pos hnil] at hprompt hsent
    exact ⟨hsent, hprompt⟩

theorem mapM_dump (items : List LineItem) : (items.map LineItem.dump).mapM (validateItem env) = some items := by
  rw [Fallible.mapM_option_iff, List.forall₂_map_left_iff]
  exact List.forall₂_same.2 fun i _ => validateItem_dump i

theorem validate_eq_some {args : Args} {p : Params} (h : validate env args = some p) :
    args.workOrderId = some p.workOrderId ∧
      ∃ items, args.lineItems = some items ∧ items.mapM (validateItem env) = some p.lineItems := by
  simp only [validate, Option.bind_eq_bind, Option.bind_eq_some_iff, Option.some.injEq] at h
  obtain ⟨customerId, -, workOrderId, hid, items, hitems, lineItems, hvalid, rfl⟩ := h
  exact ⟨hid, items, hitems, hvalid⟩

/-- texts are read as `float` reads them -/
def plainEnv : Env := ⟨ofText, general, fun _ => []⟩

def line (quantity amount : Value) : Item :=
  .dict [("description".toList, .str ['x']), ("quantity".toList, quantity), ("amount".toList, amount)]

/-- half a unit, for half a cent in the end, twice -/
def halves : Args := ⟨some ['7'], some ['9'], some (List.replicate 2 (line (.num (.finite (1 / 2))) (.num (.finite (1 / 100))))), none⟩

def halvesParams : Params := ⟨['7'], ['9'], List.replicate 2 ⟨['x'], .finite (1 / 2), .finite (1 / 100)⟩, []⟩

end Clawbolt.AppFolio.Invoice

/-
Turning a `qb_update` request into a payload that drops nothing by omission (`_merge_lines` and `build_update` of
integrations/quickbooks/merge.py).

QuickBooks has two update modes (`applyUpdate`): a sparse body keeps every top-level field it omits and replaces `Line`
whole, a full body keeps only what it carries. `buildUpdate` sends the one or the other by the type of the entity.

- `collect_ok`: what the requested lines come to when none is rejected: changes by Id, and new lines;
- `mergeLines_ok`: the merged lines are the stored ones that are not deleted, each with its change, and the new lines;
- `update_loses_nothing`: for every request that is not rejected, applying the payload gives the record that the
  approval prompt shows, and what the request does not name stays.
-/
import Mathlib.Tactic
import Clawbolt.Core.Fallible
import Clawbolt.QuickBooks.Merge

namespace Clawbolt.QuickBooks

open Text (Str)

/-! ## Model -/

/-- `SPARSE_ENTITIES` -/
def sparseEntities : List Str := ["Customer".toList, "Estimate".toList, "Invoice".toList]

/-- `LINE_ENTITIES` -/
def lineEntities : List Str := ["Estimate".toList, "Invoice".toList]

/-- `_CONTROL_KEYS` -/
def controlKeys : List Str := ["Id", "SyncToken", "sparse", "domain", "MetaData"].map String.toList

/-- `_COMPUTED_KEYS` -/
def computedKeys : List Str := ["TotalAmt", "Balance", "HomeBalance", "HomeTotalAmt", "BalanceWithJobs"].map String.toList

def reject {α : Type} (parts : List Str) : Except UpdateError α := .error (.rejected parts.flatten false)

/-- `", ".join(ids)` -/
def joinIds (ids : List Str) : Str := Text.join ", ".toList ids

/-! ### Lines -/

/-- `stored_by_id` -/
def storedById (env : Env) (lines : List Line) : Dict Line :=
  lines.foldl (fun d line => match lineId env line with | some lid => Dict.set lid line d | none => d) []

def isDeleted (env : Env) (deletes : List Str) (line : Line) : Bool :=
  match lineId env line with
  | some lid => lid ∈ deletes
  | none => false

/-- the first stored line that stays and that the new line repeats -/
def findDup (env : Env) (deletes : List Str) (new : Line) : List Line → Except UpdateError (Option Line)
  | [] => .ok none
  | s :: stored =>
    if isSubtotal s ∨ isDeleted env deletes s then findDup env deletes new stored
    else do
      let same ← sameLine env new s
      if same then pure (some s) else findDup env deletes new stored

/-- what every rejection of a line names -/
structure Target where
  entityType : Str
  entityId : Str
  stored : List Line
  deletes : List Str

def Target.known (env : Env) (t : Target) : Str :=
  let ids := joinIds ((storedById env t.stored).map Prod.fst)
  if ids = [] then "none".toList else ids

/-- the loop over the requested lines: the changes by Id, and the new lines -/
def collect (env : Env) (t : Target) :
    List Line → Dict Line → List Line → Except UpdateError (Dict Line × List Line)
  | [], changes, added => .ok (changes, added)
  | line :: requested, changes, added =>
    match lineId env line with
    | none =>
      if isSubtotal line then collect env t requested changes added
      else do
        match ← findDup env t.deletes line t.stored with
        | some dup =>
          let described ← describeLine env dup
          let dupId := match lineId env dup with
            | some lid => lid
            | none => "None".toList
          reject ["A line without Id repeats line ".toList, dupId, " (".toList, described,
            "), so it would be added a second time. To change that line, send its Id. To add a separate line, ".toList,
            "give it its own Description.".toList]
        | none => collect env t requested changes (added ++ [line])
    | some lid =>
      if !Dict.has lid (storedById env t.stored) then
        reject ["Line Id ".toList, lid, " is not on ".toList, t.entityType, " ".toList, t.entityId,
          ". Its line Ids are: ".toList, t.known env, ". Omit Id to add a new line.".toList]
      else if lid ∈ t.deletes then
        reject ["Line Id ".toList, lid, " is both changed and in delete_line_ids.".toList]
      else if Dict.has lid changes then reject ["Line Id ".toList, lid, " appears twice in Line.".toList]
      else collect env t requested (Dict.set lid line changes) added

/-- a stored line that stays, with its change -/
def mergeStored (env : Env) (changes : Dict Line) (line : Line) : Except UpdateError Line :=
  match (lineId env line).bind fun lid => changes.lookup lid with
  | some change => mergeLine env line change
  | none => .ok line

structure LineUpdate where
  merged : List Line
  changedIds : List Str
  added : List Line
  removed : List Line

/-- `Line` of the request as a list of objects -/
def requestedLines : Json → Except UpdateError (List Line)
  | .null => .ok []
  | .arr l =>
    match l.mapM fun v => match v with | .obj d => some d | _ => none with
    | some lines => .ok lines
    | none => reject ["Line must be a list of line objects.".toList]
  | _ => reject ["Line must be a list of line objects.".toList]

/-- the ids of the changes whose line is not as stored -/
def changedIds (env : Env) (stored merged : List Line) (changes : Dict Line) : List Str :=
  (changes.map Prod.fst).filter fun lid =>
    match (storedById env merged).lookup lid, (storedById env stored).lookup lid with
    | some a, some b => !Json.eqv (.obj a) (.obj b)
    | _, _ => true

/-- `_merge_lines` -/
def mergeLines (env : Env) (entityType entityId : Str) (stored : List Line) (requested : Json)
    (deleteLineIds : List Str) : Except UpdateError LineUpdate := do
  let requested ← requestedLines requested
  let deletes := deleteLineIds.map Text.strip
  let t : Target := ⟨entityType, entityId, stored, deletes⟩
  let unknown := deletes.filter fun d => !Dict.has d (storedById env stored)
  if unknown ≠ [] then
    reject ["delete_line_ids ".toList, joinIds unknown, " are not lines on ".toList, entityType, " ".toList, entityId,
      ". Its line Ids are: ".toList, t.known env, ".".toList]
  else do
    let (changes, added) ← collect env t requested [] []
    let kept ← (stored.filter fun line => !isDeleted env deletes line).mapM (mergeStored env changes)
    -- new lines go before the trailing subtotals
    let merged := kept.rdropWhile isSubtotal ++ added ++ kept.rtakeWhile isSubtotal
    if merged.all isSubtotal then
      reject ["That would leave ".toList, entityType, " ".toList, entityId,
        " with no line items. QuickBooks needs at least one.".toList]
    else pure ⟨merged, changedIds env stored merged changes, added, stored.filter (isDeleted env deletes)⟩

/-! ### The record -/

structure MergedUpdate where
  payload : Dict Json
  before : Dict Json
  after : Dict Json
  changedFields : List Str
  changedLineIds : List Str
  addedLines : List Line
  removedLines : List Line

/-- the value of a field: an address is merged onto the stored one -/
def newValue (key : Str) (value stored : Json) : Json :=
  match value, stored with
  | .obj change, .obj address =>
    if Text.endsWith "Addr".toList key then .obj (mergeAddress address change) else value
  | _, _ => value

/-- a field of the request that is sent: not a control field, a computed total or the lines, and not as stored -/
def fieldChange (current : Dict Json) (kv : Str × Json) : Option (Str × Json) :=
  if kv.1 ∈ controlKeys ∨ kv.1 ∈ computedKeys ∨ kv.1 = "Line".toList then none
  else
    let stored := (current.lookup kv.1).getD .null
    if Json.eqv (newValue kv.1 kv.2 stored) stored then none else some (kv.1, newValue kv.1 kv.2 stored)

/-- `field_changes` -/
def fieldChanges (current changes : Dict Json) : Dict Json := changes.filterMap (fieldChange current)

/-- the stored lines; iterating over a number raises, and over a text or an object gives no line -/
def storedLines (current : Dict Json) : Except UpdateError (List Line) :=
  match get current "Line" with
  | .arr l => .ok (l.filterMap fun v => match v with | .obj d => some d | _ => none)
  | .obj _ => .ok []
  | .str _ => .ok []
  | v => if truthy v then .error .raised else .ok []

def entityIdOf (env : Env) (current changes : Dict Json) : Str :=
  env.str ((current.lookup "Id".toList).getD ((changes.lookup "Id".toList).getD (.str "?".toList)))

/-- the SyncToken of the request is there and is the stored one -/
def checkToken (env : Env) (entityType entityId : Str) (current changes : Dict Json) : Except UpdateError Unit :=
  let sent := get changes "SyncToken"
  let stored := get current "SyncToken"
  if sent = .null ∨ Text.strip (env.str sent) = [] then
    reject ["SyncToken is missing. Query the record first (SELECT * FROM ".toList, entityType, " WHERE Id = \x27".toList,
      entityId, "\x27) and pass its SyncToken.".toList]
  else if stored ≠ .null ∧ Text.strip (env.str sent) ≠ env.str stored then
    .error (.rejected ([entityType, " ".toList, entityId,
      " changed in QuickBooks since it was read (SyncToken is now ".toList, env.str stored,
      ", the update carried ".toList, env.str sent, "). Query it again (WHERE Id = \x27".toList, entityId,
      "\x27), check the change still applies, then retry with the new SyncToken.".toList].flatten) true)
  else .ok ()

def touchesLines (changes : Dict Json) (deleteLineIds : List Str) : Bool :=
  Dict.has "Line".toList changes || deleteLineIds ≠ []

/-- the merge of the lines, if the request touches them -/
def updateLines (env : Env) (entityType : Str) (current changes : Dict Json) (deleteLineIds : List Str) :
    Except UpdateError (Option LineUpdate) :=
  if touchesLines changes deleteLineIds then do
    let stored ← storedLines current
    let lines ← mergeLines env entityType (entityIdOf env current changes) stored (get changes "Line") deleteLineIds
    pure (some lines)
  else pure none

/-- `d["Line"] = merged_lines`, if there are any -/
def setLines (lines : Option LineUpdate) (d : Dict Json) : Dict Json :=
  match lines with
  | some l => Dict.set "Line".toList (.arr (l.merged.map .obj)) d
  | none => d

def afterOf (current changes : Dict Json) (lines : Option LineUpdate) : Dict Json :=
  setLines lines (Dict.update current (fieldChanges current changes))

/-- `str(stored_token if stored_token is not None else sent_token)` -/
def tokenOf (env : Env) (current changes : Dict Json) : Str :=
  env.str (if get current "SyncToken" ≠ .null then get current "SyncToken" else get changes "SyncToken")

def payloadOf (env : Env) (entityType : Str) (current changes : Dict Json) (lines : Option LineUpdate) : Dict Json :=
  if entityType ∈ sparseEntities then
    setLines lines (Dict.update [("Id".toList, .str (entityIdOf env current changes)),
      ("SyncToken".toList, .str (tokenOf env current changes)), ("sparse".toList, .bool true)]
      (fieldChanges current changes))
  else
    Dict.set "sparse".toList (.bool false)
      (Dict.erase "domain".toList (Dict.erase "MetaData".toList (afterOf current changes lines)))

/-- `build_update` -/
def buildUpdate (env : Env) (entityType : Str) (current changes : Dict Json) (deleteLineIds : List Str) :
    Except UpdateError MergedUpdate := do
  checkToken env entityType (entityIdOf env current changes) current changes
  if touchesLines changes deleteLineIds ∧ entityType ∉ lineEntities then
    reject [entityType, " has no line items to change.".toList]
  else do
    let lines ← updateLines env entityType current changes deleteLineIds
    pure {
      payload := payloadOf env entityType current changes lines
      before := current
      after := afterOf current changes lines
      changedFields := (fieldChanges current changes).map Prod.fst
      changedLineIds := (lines.map LineUpdate.changedIds).getD []
      addedLines := (lines.map LineUpdate.added).getD []
      removedLines := (lines.map LineUpdate.removed).getD [] }

/-! ## What QuickBooks does with a body -/

/-- a sparse body keeps the fields it omits, a full body keeps only its own -/
def applyUpdate (record payload : Dict Json) : Dict Json :=
  if payload.lookup "sparse".toList = some (.bool true) then Dict.update record payload else payload

/-! ## The lines -/

section

variable {env : Env}

theorem storedById_snoc (lines : List Line) (l : Line) : storedById env (lines ++ [l]) =
    match lineId env l with
    | some lid => Dict.set lid l (storedById env lines)
    | none => storedById env lines := by
  unfold storedById
  rw [List.foldl_append]
  rfl

theorem storedById_mem {lines : List Line} {lid : Str} {line : Line}
    (h : (storedById env lines).lookup lid = some line) : line ∈ lines ∧ lineId env line = some lid := by
  induction lines using List.reverseRecOn with
  | nil => simp [storedById] at h
  | append_singleton lines l ih =>
    rw [storedById_snoc] at h
    cases hl : lineId env l with
    | none =>
      rw [hl] at h
      exact ⟨List.mem_append_left _ (ih h).1, (ih h).2⟩
    | some lid' =>
      rw [hl] at h
      simp only at h
      rw [Dict.lookup_set] at h
      split_ifs at h with he
      · obtain rfl := Option.some.inj h
        exact ⟨by simp, by rw [hl, he]⟩
      · exact ⟨List.mem_append_left _ (ih h).1, (ih h).2⟩

/-- no stored line that stays is repeated -/
theorem findDup_eq_none {deletes : List Str} {new : Line} {stored : List Line}
    (h : findDup env deletes new stored = .ok none) :
    ∀ s ∈ stored, isSubtotal s = false → isDeleted env deletes s = false → sameLine env new s = .ok false := by
  induction stored with
  | nil => simp
  | cons s stored ih =>
    intro x hx hsub hdel
    rw [findDup] at h
    split_ifs at h with hskip
    · rcases List.mem_cons.1 hx with rfl | hx
      · simp [hsub, hdel] at hskip
      · exact ih h x hx hsub hdel
    · obtain ⟨same, hsame, h⟩ := Fallible.bind_eq_ok.1 h
      split_ifs at h with hs
      · simp [pure, Except.pure] at h
      · rcases List.mem_cons.1 hx with rfl | hx
        · rw [hsame]; simp [hs]
        · exact ih h x hx hsub hdel

/-- the requested line that changes an Id -/
def changeFor (env : Env) (requested : List Line) (lid : Str) : Option Line :=
  requested.find? fun line => lineId env line = some lid

/-- the requested lines that are new -/
def newLines (env : Env) (requested : List Line) : List Line :=
  requested.filter fun line => lineId env line = none ∧ isSubtotal line = false

/-- **What the requested lines come to.** -/
theorem collect_ok {t : Target} {requested : List Line} {changes changes' : Dict Line} {added added' : List Line}
    (h : collect env t requested changes added = .ok (changes', added')) :
    (∀ lid, changes'.lookup lid = (changes.lookup lid).or (changeFor env requested lid)) ∧
      added' = added ++ newLines env requested ∧
      ∀ line ∈ newLines env requested, findDup env t.deletes line t.stored = .ok none := by
  induction requested generalizing changes added with
  | nil =>
    simp only [collect, Except.ok.injEq, Prod.mk.injEq] at h
    obtain ⟨rfl, rfl⟩ := h
    simp [changeFor, newLines]
  | cons line requested ih =>
    rw [collect] at h
    cases hl : lineId env line with
    | none =>
      rw [hl] at h
      have hchange : ∀ lid, changeFor env (line :: requested) lid = changeFor env requested lid := fun lid => by
        simp [changeFor, hl]
      simp only at h
      split_ifs at h with hsub
      · have hnew : newLines env (line :: requested) = newLines env requested := by simp [newLines, hsub]
        simpa only [hchange, hnew] using ih h
      · have hnew : newLines env (line :: requested) = line :: newLines env requested := by simp [newLines, hl, hsub]
        obtain ⟨dup, hdup, h⟩ := Fallible.bind_eq_ok.1 h
        cases dup with
        | some dup =>
          simp only [reject] at h
          obtain ⟨_, -, h⟩ := Fallible.bind_eq_ok.1 h
          exact absurd h (by simp)
        | none =>
          obtain ⟨h1, h2, h3⟩ := ih h
          refine ⟨fun lid => by rw [hchange]; exact h1 lid, by rw [h2, hnew]; simp, fun x hx => ?_⟩
          rw [hnew] at hx
          rcases List.mem_cons.1 hx with rfl | hx
          · exact hdup
          · exact h3 x hx
    | some lid =>
      rw [hl] at h
      have hnew : newLines env (line :: requested) = newLines env requested := by simp [newLines, hl]
      simp only [reject] at h
      split_ifs at h with hk hd hc
      obtain ⟨h1, h2, h3⟩ := ih h
      rw [hnew]
      refine ⟨fun lid' => ?_, h2, h3⟩
      have hnone : changes.lookup lid = none := Dict.has_eq_false.1 (by simpa using hc)
      rw [h1, Dict.lookup_set]
      by_cases he : lid' = lid
      · subst he
        rw [if_pos rfl, hnone]
        simp [changeFor, hl]
      · rw [if_neg he]
        have : changeFor env (line :: requested) lid' = changeFor env requested lid' := by
          simp [changeFor, hl, Ne.symm he]
        rw [this]

/-- the change of a stored line -/
def change? (env : Env) (requested : List Line) (stored : Line) : Option Line :=
  (lineId env stored).bind (changeFor env requested)

/-- what an update owes a stored line that it does not delete -/
structure LineKept (env : Env) (requested : List Line) (stored line : Line) : Prop where
  sameId : lineId env line = lineId env stored
  unchanged : change? env requested stored = none → line = stored
  keys : ∀ change, change? env requested stored = some change → ∀ k, change.lookup k = none → k ≠ "Amount".toList →
    ¬ DroppedDetail env stored change k → line.lookup k = stored.lookup k
  amount : ∀ change, change? env requested stored = some change → change.lookup "Amount".toList = none →
    ¬ DroppedDetail env stored change "Amount".toList →
      line.lookup "Amount".toList = stored.lookup "Amount".toList ∨ ∃ detail qty price amount,
        line.lookup salesDetail.toList = some (.obj detail) ∧ detail.lookup "Qty".toList = some qty ∧
        detail.lookup "UnitPrice".toList = some price ∧
        env.lineAmount (env.str qty) (env.str price) = .value amount ∧ line.lookup "Amount".toList = some amount
  detail : ∀ change, change? env requested stored = some change → ∀ k, Text.endsWith "LineDetail".toList k = true →
    ¬ DroppedDetail env stored change k → ∀ e v, stored.lookup k = some (.obj e) → change.lookup k = some (.obj v) →
      ∃ d, line.lookup k = some (.obj d) ∧ ∀ j, v.lookup j = none → d.lookup j = e.lookup j

theorem lookup_get {d : Dict Json} {key : String} {v : Json} (h : d.lookup key.toList = some v) : get d key = v := by
  simp [get, h]

/-- a merged line is the line that its change names -/
theorem lineId_mergeLine {stored change line : Line} {lid : Str} (hnd : (change.map Prod.fst).Nodup)
    (h : mergeLine env stored change = .ok line) (hid : lineId env change = some lid) : lineId env line = some lid := by
  obtain ⟨v, hv⟩ : ∃ v, change.lookup "Id".toList = some v := by
    cases hl : change.lookup "Id".toList with
    | some v => exact ⟨v, rfl⟩
    | none =>
      unfold lineId get at hid
      rw [hl] at hid
      exact absurd hid (by simp)
  have hline : line.lookup "Id".toList = some v := mergeLine_names h hnd hv (by decide) (by decide)
  rw [← hid]
  unfold lineId
  rw [lookup_get hline, lookup_get hv]

/-- a stored line is merged with its change, if it has one -/
theorem mergeStored_eq {requested : List Line} {changes : Dict Line}
    (hch : ∀ lid, changes.lookup lid = changeFor env requested lid) (line : Line) : mergeStored env changes line =
      match change? env requested line with
      | some change => mergeLine env line change
      | none => .ok line := by
  have hbind : ((lineId env line).bind fun lid => changes.lookup lid) = change? env requested line := by
    rw [change?]
    exact congrArg _ (funext hch)
  rw [mergeStored, hbind]

/-- **A stored line that stays keeps what its change does not name.** -/
theorem mergeStored_kept {requested : List Line} {changes : Dict Line} {stored line : Line}
    (hnd : ∀ l ∈ requested, (l.map Prod.fst).Nodup) (hch : ∀ lid, changes.lookup lid = changeFor env requested lid)
    (h : mergeStored env changes stored = .ok line) : LineKept env requested stored line := by
  rw [mergeStored_eq hch] at h
  cases hc : change? env requested stored with
  | none =>
    rw [hc] at h
    obtain rfl := Except.ok.inj h
    exact ⟨rfl, fun _ => rfl, fun _ h => by simp [hc] at h, fun _ h => by simp [hc] at h, fun _ h => by simp [hc] at h⟩
  | some change =>
    rw [hc] at h
    obtain ⟨lid, hlid, hfor⟩ := Option.bind_eq_some_iff.1 hc
    have hmem : change ∈ requested := List.mem_of_find?_eq_some hfor
    have hid : lineId env change = some lid := by simpa using List.find?_some hfor
    refine ⟨?_, fun h => by simp [hc] at h, fun x hx k hk hne hd => ?_, fun x hx hk hd => ?_,
      fun x hx k hend hd e v hs hv => ?_⟩
    · rw [hlid]; exact lineId_mergeLine (hnd change hmem) h hid
    · obtain rfl := Option.some.inj (hc.symm.trans hx)
      exact mergeLine_keeps h hk hne hd
    · obtain rfl := Option.some.inj (hc.symm.trans hx)
      exact mergeLine_amount h hk hd
    · obtain rfl := Option.some.inj (hc.symm.trans hx)
      exact mergeLine_detail h (hnd change hmem) hend hd hs hv

/-- what an update owes the lines: those that are not deleted stay in their order, new ones come before the trailing
subtotals, and exactly the deleted ones go -/
structure LinesKept (env : Env) (stored requested : List Line) (deletes : List Str) (l : LineUpdate) : Prop where
  kept : ∃ front back, l.merged = front ++ l.added ++ back ∧ (∀ line ∈ back, isSubtotal line = true) ∧
    List.Forall₂ (LineKept env requested) (stored.filter fun line => !isDeleted env deletes line) (front ++ back)
  removed : l.removed = stored.filter (isDeleted env deletes)
  deleted : ∀ d ∈ deletes, ∃ line ∈ stored, lineId env line = some d
  added : l.added = newLines env requested
  fresh : ∀ new ∈ l.added, ∀ s ∈ stored, isSubtotal s = false → isDeleted env deletes s = false →
    sameLine env new s = .ok false

/-- **The merged lines.** -/
theorem mergeLines_ok {entityType entityId : Str} {stored requested : List Line} {value : Json}
    {deleteLineIds : List Str} {l : LineUpdate} (hreq : requestedLines value = .ok requested)
    (hnd : ∀ l ∈ requested, (l.map Prod.fst).Nodup)
    (h : mergeLines env entityType entityId stored value deleteLineIds = .ok l) :
    LinesKept env stored requested (deleteLineIds.map Text.strip) l := by
  unfold mergeLines at h
  obtain ⟨requested', hreq', h⟩ := Fallible.bind_eq_ok.1 h
  obtain rfl := Except.ok.inj (hreq.symm.trans hreq')
  simp only [reject] at h
  split_ifs at h with hunknown
  obtain ⟨⟨changes, added⟩, hcollect, h⟩ := Fallible.bind_eq_ok.1 h
  obtain ⟨kept, hkept, h⟩ := Fallible.bind_eq_ok.1 h
  obtain ⟨h1, h2, h3⟩ := collect_ok hcollect
  simp only [List.lookup_nil, Option.none_or, List.nil_append] at h1 h2
  subst h2
  simp only at h
  split_ifs at h
  obtain rfl := Except.ok.inj h
  refine ⟨⟨kept.rdropWhile isSubtotal, kept.rtakeWhile isSubtotal, rfl, fun line hline => ?_, ?_⟩, rfl, fun d hd => ?_, rfl,
    fun new hnew s hs hsub hdel => findDup_eq_none (h3 new hnew) s hs hsub hdel⟩
  · exact List.mem_rtakeWhile_imp hline
  · rw [List.rdropWhile_append_rtakeWhile]
    exact (Fallible.mapM_forall₂ hkept).imp fun _ _ => mergeStored_kept hnd h1
  · -- an unknown Id would have been rejected
    have hall := List.filter_eq_nil_iff.1 (not_not.1 hunknown) d hd
    cases hl : (storedById env stored).lookup d with
    | none => simp [Dict.has, hl] at hall
    | some line => exact ⟨line, storedById_mem hl⟩

end

/-! ## The record -/

section

variable {env : Env} {current changes : Dict Json}

/-- a field that is sent has its key in the request, and is none that is left out -/
theorem fieldChange_key {kv p : Str × Json} (h : fieldChange current kv = some p) :
    p.1 = kv.1 ∧ ¬ (kv.1 ∈ controlKeys ∨ kv.1 ∈ computedKeys ∨ kv.1 = "Line".toList) := by
  unfold fieldChange at h
  simp only at h
  split_ifs at h with hskip
  exact ⟨by rw [← Option.some.inj h], hskip⟩

/-- a key of the fields that are sent is one the request names, and none that is left out -/
theorem fieldChanges_lookup {k : Str}
    (h : changes.lookup k = none ∨ k ∈ controlKeys ∨ k ∈ computedKeys ∨ k = "Line".toList) :
    (fieldChanges current changes).reverse.lookup k = none := by
  rw [List.lookup_eq_none_iff]
  intro p hp
  obtain ⟨kv, hmem, hp'⟩ := List.mem_filterMap.1 (List.mem_reverse.1 hp)
  obtain ⟨hkey, hskip⟩ := fieldChange_key hp'
  rw [hkey, bne_iff_ne]
  rintro rfl
  rcases h with h | h
  · rw [List.lookup_eq_none_iff] at h
    exact bne_iff_ne.1 (h kv hmem) rfl
  · exact hskip h

/-- a field of the merged record -/
theorem lookup_afterOf (lines : Option LineUpdate) {k : Str} (h : k ≠ "Line".toList) :
    (afterOf current changes lines).lookup k = ((fieldChanges current changes).reverse.lookup k).or (current.lookup k) := by
  unfold afterOf setLines
  cases lines with
  | none => rw [Dict.lookup_update]
  | some l => rw [Dict.lookup_set, if_neg h, Dict.lookup_update]

/-- what a body owes the record: applied to it, it gives the merged record -/
structure Applies (env : Env) (entityType : Str) (current changes : Dict Json) (lines : Option LineUpdate) : Prop where
  fields : ∀ k, k ∉ ["MetaData", "domain", "sparse", "SyncToken", "Id"].map String.toList →
    (applyUpdate current (payloadOf env entityType current changes lines)).lookup k =
      (afterOf current changes lines).lookup k
  id : ∀ s, current.lookup "Id".toList = some (.str s) →
    (applyUpdate current (payloadOf env entityType current changes lines)).lookup "Id".toList = some (.str s) ∧
      (afterOf current changes lines).lookup "Id".toList = some (.str s)

theorem payload_applies (env : Env) (entityType : Str) (current changes : Dict Json) (lines : Option LineUpdate) :
    Applies env entityType current changes lines := by
  have hid : (afterOf current changes lines).lookup "Id".toList = current.lookup "Id".toList := by
    rw [lookup_afterOf lines (by decide), fieldChanges_lookup (Or.inr (Or.inl (by decide))), Option.none_or]
  by_cases hsparse : entityType ∈ sparseEntities
  · -- a sparse body: its own keys, over the record
    set base : Dict Json := [("Id".toList, .str (entityIdOf env current changes)),
      ("SyncToken".toList, .str (tokenOf env current changes)), ("sparse".toList, .bool true)] with hbase
    have hpay : payloadOf env entityType current changes lines =
        setLines lines (Dict.update base (fieldChanges current changes)) := by
      unfold payloadOf
      rw [if_pos hsparse]
    have hnd : ((setLines lines (Dict.update base (fieldChanges current changes))).map Prod.fst).Nodup := by
      have hb : ((Dict.update base (fieldChanges current changes)).map Prod.fst).Nodup :=
        Dict.nodup_update (by simp only [hbase, List.map_cons, List.map_nil]; decide) _
      cases lines with
      | none => exact hb
      | some l => exact Dict.nodup_set hb _ _
    have hlook : ∀ k, k ≠ "Line".toList →
        (setLines lines (Dict.update base (fieldChanges current changes))).lookup k =
          ((fieldChanges current changes).reverse.lookup k).or (base.lookup k) := by
      intro k hk
      unfold setLines
      cases lines with
      | none => rw [Dict.lookup_update]
      | some l => rw [Dict.lookup_set, if_neg hk, Dict.lookup_update]
    have happly : ∀ k, (applyUpdate current (payloadOf env entityType current changes lines)).lookup k =
        ((setLines lines (Dict.update base (fieldChanges current changes))).lookup k).or (current.lookup k) := by
      intro k
      have htrue : (setLines lines (Dict.update base (fieldChanges current changes))).lookup "sparse".toList =
          some (.bool true) := by
        rw [hlook _ (by decide), fieldChanges_lookup (Or.inr (Or.inl (by decide)))]
        rfl
      unfold applyUpdate
      rw [hpay, if_pos htrue, Dict.lookup_update, Dict.lookup_reverse hnd]
    refine ⟨fun k hk => ?_, fun s hs => ⟨?_, by rw [hid, hs]⟩⟩
    · rw [happly]
      by_cases hline : k = "Line".toList
      · subst hline
        unfold afterOf setLines
        cases lines with
        | none =>
          simp only
          rw [Dict.lookup_update, Dict.lookup_update, fieldChanges_lookup (Or.inr (Or.inr (Or.inr rfl)))]
          rfl
        | some l => simp only; rw [Dict.lookup_set, if_pos rfl, Dict.lookup_set, if_pos rfl, Option.some_or]
      · have hb : base.lookup k = none := by
          rw [List.lookup_eq_none_iff]
          intro p hp
          simp only [List.map_cons, List.map_nil, List.mem_cons, List.not_mem_nil, or_false, not_or] at hk
          simp only [hbase, List.mem_cons, List.not_mem_nil, or_false] at hp
          rcases hp with rfl | rfl | rfl
          · exact bne_iff_ne.2 hk.2.2.2.2
          · exact bne_iff_ne.2 hk.2.2.2.1
          · exact bne_iff_ne.2 hk.2.2.1
        rw [hlook k hline, hb, Option.or_none, lookup_afterOf lines hline]
    · have hent : entityIdOf env current changes = s := by
        unfold entityIdOf
        rw [hs]
        rfl
      rw [happly, hlook _ (by decide), fieldChanges_lookup (Or.inr (Or.inl (by decide))), hbase, hent]
      rfl
  · -- a full body: the merged record without two keys
    have hpay : payloadOf env entityType current changes lines = Dict.set "sparse".toList (.bool false)
        (Dict.erase "domain".toList (Dict.erase "MetaData".toList (afterOf current changes lines))) := by
      unfold payloadOf
      rw [if_neg hsparse]
    have happly : applyUpdate current (payloadOf env entityType current changes lines) =
        payloadOf env entityType current changes lines := by
      unfold applyUpdate
      rw [if_neg (by rw [hpay, Dict.lookup_set, if_pos rfl]; decide)]
    have hlook : ∀ k, k ≠ "sparse".toList → k ≠ "domain".toList → k ≠ "MetaData".toList →
        (payloadOf env entityType current changes lines).lookup k = (afterOf current changes lines).lookup k := by
      intro k h1 h2 h3
      rw [hpay, Dict.lookup_set, if_neg h1, Dict.lookup_erase, if_neg h2, Dict.lookup_erase, if_neg h3]
    refine ⟨fun k hk => ?_, fun s hs => ⟨?_, by rw [hid, hs]⟩⟩
    · simp only [List.map_cons, List.map_nil, List.mem_cons, List.not_mem_nil, or_false, not_or] at hk
      rw [happly, hlook k hk.2.2.1 hk.2.1 hk.1]
    · rw [happly, hlook _ (by decide) (by decide) (by decide), hid, hs]

/-- **What an update keeps**, of the record and of its lines. -/
structure LosesNothing (env : Env) (current changes : Dict Json) (deleteLineIds : List Str) (m : MergedUpdate) : Prop where
  applied : ∀ k, k ∉ ["MetaData", "domain", "sparse", "SyncToken", "Id"].map String.toList →
    (applyUpdate current m.payload).lookup k = m.after.lookup k
  appliedId : ∀ s, current.lookup "Id".toList = some (.str s) →
    (applyUpdate current m.payload).lookup "Id".toList = some (.str s) ∧ m.after.lookup "Id".toList = some (.str s)
  unnamed : ∀ k, k ≠ "Line".toList → changes.lookup k = none → m.after.lookup k = current.lookup k
  untouched : touchesLines changes deleteLineIds = false → m.after.lookup "Line".toList = current.lookup "Line".toList
  lines : touchesLines changes deleteLineIds = true → ∃ stored requested l, storedLines current = .ok stored ∧
    requestedLines (get changes "Line") = .ok requested ∧
    m.after.lookup "Line".toList = some (.arr (l.merged.map .obj)) ∧
    m.addedLines = l.added ∧ m.removedLines = l.removed ∧
    LinesKept env stored requested (deleteLineIds.map Text.strip) l

theorem mem_of_mapM {l : List Json} {lines : List Line}
    (h : (l.mapM fun v => match v with | .obj d => some d | _ => none) = some lines) {line : Line} (hl : line ∈ lines) :
    Json.obj line ∈ l := by
  induction l generalizing lines with
  | nil =>
    simp only [List.mapM_nil, pure, Option.some.injEq] at h
    subst h
    exact absurd hl List.not_mem_nil
  | cons v l ih =>
    rw [List.mapM_cons] at h
    obtain ⟨d, hd, h⟩ := Option.bind_eq_some_iff.1 h
    obtain ⟨ds, hds, h⟩ := Option.bind_eq_some_iff.1 h
    obtain rfl := Option.some.inj h
    rcases List.mem_cons.1 hl with rfl | hl
    · cases v <;> simp at hd
      subst hd
      exact List.mem_cons_self
    · exact List.mem_cons_of_mem _ (ih hds hl)

/-- the keys of every requested line are distinct when those of every object in the request are -/
theorem requestedLines_nodup (hwf : (Json.obj changes).WellFormed) {requested : List Line}
    (h : requestedLines (get changes "Line") = .ok requested) : ∀ l ∈ requested, (l.map Prod.fst).Nodup := by
  intro line hline
  cases hv : changes.lookup "Line".toList with
  | none =>
    unfold get at h
    rw [hv] at h
    obtain rfl := Except.ok.inj h
    exact absurd hline List.not_mem_nil
  | some v =>
    rw [lookup_get hv] at h
    have hvwf := Json.wellFormed_of_lookup hwf hv
    unfold requestedLines at h
    split at h
    · obtain rfl := Except.ok.inj h
      exact absurd hline List.not_mem_nil
    · rename_i l
      split at h
      · rename_i lines hmap
        obtain rfl := Except.ok.inj h
        exact (Json.wellFormed_of_mem hvwf (mem_of_mapM hmap hline)).1
      · exact absurd h (by simp [reject])
    · exact absurd h (by simp [reject])

/-- **An update loses nothing by omission.** -/
theorem update_loses_nothing (env : Env) (entityType : Str) (current changes : Dict Json) (deleteLineIds : List Str)
    (hwf : (Json.obj changes).WellFormed) (m : MergedUpdate)
    (h : buildUpdate env entityType current changes deleteLineIds = .ok m) :
    LosesNothing env current changes deleteLineIds m := by
  unfold buildUpdate at h
  obtain ⟨_, -, h⟩ := Fallible.bind_eq_ok.1 h
  simp only [reject] at h
  split_ifs at h
  obtain ⟨lines, hlines, h⟩ := Fallible.bind_eq_ok.1 h
  obtain rfl := Except.ok.inj h
  have happ := payload_applies env entityType current changes lines
  refine ⟨happ.fields, happ.id, fun k hk hnone => ?_, fun ht => ?_, fun ht => ?_⟩
  · simp only
    rw [lookup_afterOf lines hk, fieldChanges_lookup (Or.inl hnone), Option.none_or]
  · unfold updateLines at hlines
    rw [if_neg (by simp [ht])] at hlines
    obtain rfl := Except.ok.inj hlines
    simp only [afterOf, setLines]
    rw [Dict.lookup_update, fieldChanges_lookup (Or.inr (Or.inr (Or.inr rfl))), Option.none_or]
  · unfold updateLines at hlines
    rw [if_pos ht] at hlines
    obtain ⟨stored, hstored, hlines⟩ := Fallible.bind_eq_ok.1 hlines
    obtain ⟨l, hl, hlines⟩ := Fallible.bind_eq_ok.1 hlines
    obtain rfl := Except.ok.inj hlines
    obtain ⟨requested, hreq⟩ : ∃ requested, requestedLines (get changes "Line") = .ok requested := by
      have hl' := hl
      unfold mergeLines at hl'
      obtain ⟨requested, hreq, -⟩ := Fallible.bind_eq_ok.1 hl'
      exact ⟨requested, hreq⟩
    refine ⟨stored, requested, l, hstored, hreq, ?_, rfl, rfl, mergeLines_ok hreq (requestedLines_nodup hwf hreq) hl⟩
    simp only [afterOf, setLines]
    rw [Dict.lookup_set, if_pos rfl]

end

/-! ## A concrete request -/

/-- texts, no number but 3 and 50, and no other conversion -/
def sampleEnv : Env where
  repr _ := []
  casefold := id
  sameFloat _ _ := .caught
  lineAmount qty price := if qty = "3".toList ∧ price = "50".toList then .value (.float 150) else .caught
  money _ := .caught
  general _ := .caught

def obj (d : List (String × Json)) : Line := d.map fun kv => (kv.1.toList, kv.2)

def text (s : String) : Json := .str s.toList

/-- two hours of labour -/
def labourLine : Line :=
  obj [("Id", text "1"), ("Amount", .int 100), ("DetailType", text "SalesItemLineDetail"),
    ("SalesItemLineDetail", .obj (obj [("ItemRef", text "7"), ("Qty", .int 2), ("UnitPrice", .int 50)]))]

/-- an estimate, with the subtotal that QuickBooks appends -/
def storedEstimate : Dict Json :=
  obj [("Id", text "2001"), ("SyncToken", text "4"), ("DocNumber", text "EST-2001"),
    ("Line", .arr [.obj labourLine, .obj (obj [("Id", text "2"), ("Description", text "Permit")]),
      .obj (obj [("DetailType", text "SubTotalLineDetail")])])]

def requestOf (line : Line) : Dict Json := obj [("SyncToken", text "4"), ("Line", .arr [.obj line])]

/-- an update of the estimate that changes one line -/
def updateLine (line : Line) : Except UpdateError MergedUpdate :=
  buildUpdate sampleEnv "Estimate".toList storedEstimate (requestOf line) []

/-- the first line of the record that an update leaves -/
def firstLine (r : Except UpdateError MergedUpdate) : Option Line :=
  match r with
  | .ok m =>
    match get m.after "Line" with
    | .arr (.obj d :: _) => some d
    | _ => none
  | .error _ => none

/-- three hours: the item stays, and the amount follows -/
def threeHours : Line := obj [("Id", text "1"), ("SalesItemLineDetail", .obj (obj [("Qty", .int 3)]))]

/-- `update_loses_nothing` for three hours -/
theorem three_hours_loses_nothing :
    ∃ m, updateLine threeHours = .ok m ∧ LosesNothing sampleEnv storedEstimate (requestOf threeHours) [] m := by
  obtain ⟨m, h, -⟩ : ∃ m, updateLine threeHours = .ok m ∧ True := Fallible.exists_ok (by decide)
  refine ⟨m, h, update_loses_nothing sampleEnv _ storedEstimate (requestOf threeHours) [] ?_ m h⟩
  simp only [requestOf, threeHours, obj, text, List.map_cons, List.map_nil, Json.WellFormed, Json.WellFormedDict,
    Json.WellFormedList]
  decide

/-- the line becomes a description -/
def switchLine : Line := obj [("Id", text "1"), ("DetailType", text "DescriptionOnly")]

/-- the detail of the line is replaced by nothing -/
def noDetail : Line := obj [("Id", text "1"), ("SalesItemLineDetail", .null)]

/-- a customer whose Id is a number -/
def storedCustomer : Dict Json := obj [("Id", .int 58), ("SyncToken", text "4")]

/-- a change of type drops the detail that it does not name; a detail object replaced by another value loses its keys;
the lines change in a request that names none; and an Id that is a number is sent as text -/
theorem unnamed_dropped :
    (switchLine.lookup "SalesItemLineDetail".toList = none ∧
      (firstLine (updateLine switchLine)).map (fun line => line.lookup "SalesItemLineDetail".toList) = some none ∧
      labourLine.lookup "SalesItemLineDetail".toList ≠ none) ∧
    (firstLine (updateLine noDetail)).map (fun line => line.lookup "SalesItemLineDetail".toList) = some (some .null) ∧
    (∃ m, buildUpdate sampleEnv "Estimate".toList storedEstimate (obj [("SyncToken", text "4")]) ["2".toList] = .ok m ∧
      m.after.lookup "Line".toList ≠ storedEstimate.lookup "Line".toList) ∧
    ∃ m, buildUpdate sampleEnv "Customer".toList storedCustomer (obj [("SyncToken", text "4")]) [] = .ok m ∧
      (applyUpdate storedCustomer m.payload).lookup "Id".toList = some (text "58") ∧
      m.after.lookup "Id".toList = some (.int 58) := by
  refine ⟨by decide, by decide, Fallible.exists_ok ?_, Fallible.exists_ok ?_⟩
  · decide
  · decide

end Clawbolt.QuickBooks

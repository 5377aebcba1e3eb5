/-
The approval prompt of `qb_update` (`describe_merged_update` and its parts in integrations/quickbooks/merge.py,
`_merge_with_stored`, `qb_update` and `preview_qb_update` in integrations/quickbooks/factory.py).

The prompt is kept as rows (`Row`) before it is text, so that a row says which field or line it is of. `sum` is what
`_money` makes of a float sum of amounts. A record is read twice, for the prompt and for the update; QuickBooks gives a
record another SyncToken with every change.

- `prompt_shows`: the prompt shows every change, exactly when the last stored and the last merged line with the Id of a
  changed line are that line, and nothing but objects is left out of the lines;
- `oneMerge`: an update that is accepted is the one that the prompt showed;
- `blank_in_id_hides_line`: a line whose Id is sent with a blank is changed, and the prompt does not show it.
-/
import Mathlib.Tactic
import Clawbolt.QuickBooks.Resend

namespace Clawbolt.QuickBooks

open Text (Str)

/-! ## Model -/

/-- `value not in (None, "")` -/
def filled (v : Json) : Bool := v ≠ .null ∧ v ≠ .str []

/-- the first of the keys that is filled -/
def firstFilled (d : Dict Json) (keys : List String) : Option Json :=
  (keys.map fun key => get d key).find? filled

/-- `_field_text` -/
def fieldText (env : Env) : Json → Str
  | .obj d =>
    if truthy (get d "name") ∧ filled (get d "value") then
      short (env.str (get d "name") ++ " (".toList ++ env.str (get d "value") ++ ")".toList)
    else if Dict.has "Line1".toList d ∨ Dict.has "City".toList d then
      Text.join ", ".toList ((d.filter fun kv =>
        kv.1 ∉ ["Id", "Lat", "Long"].map String.toList && truthy kv.2).map fun kv => env.str kv.2)
    else
      match firstFilled d ["value", "Address", "FreeFormNumber", "name"] with
      | some v => short (env.str v)
      | none => short (env.str (.obj d))
  | v => if filled v then short (env.str v) else "(empty)".toList

/-- `lines_subtotal`, as `_money` shows it -/
def linesSubtotal (sum : List Json → Attempt Str) (lines : Json) : Except UpdateError (Option Str) :=
  match lines with
  | .arr l =>
    let items := (objects l).filter fun line =>
      get line "DetailType" ∉ ["SubTotalLineDetail", "DiscountLineDetail"].map fun t => Json.str t.toList
    match sum (items.map fun line => orElse (get line "Amount") (.int 0)) with
    | .value t => .ok (some t)
    | .caught => .ok none
    | .raises => .error .raised
  | _ => .ok none

inductive Row where
  | field (key : Str) (old new : Json)
  | changeLine (lid : Str) (old new : Line)
  | addLine (line : Line)
  | removeLine (line : Line)
  | total (old new : Str)
  | noChange
deriving DecidableEq

/-- the text of a row -/
def Row.text (env : Env) : Row → Except UpdateError (List Str)
  | .field key old new =>
    .ok ["  ".toList ++ key ++ ": ".toList ++ fieldText env old ++ " -> ".toList ++ fieldText env new]
  | .changeLine lid old new => do
    let o ← describeLine env old
    let n ← describeLine env new
    pure ["  Change line ".toList ++ lid ++ ": ".toList ++ o, "      now: ".toList ++ n]
  | .addLine line => do
    let t ← describeLine env line
    pure ["  Add line: ".toList ++ t]
  | .removeLine line => do
    let t ← describeLine env line
    pure ["  Remove line ".toList ++ env.str (get line "Id") ++ ": ".toList ++ t]
  | .total old new => .ok ["  Line items total: ".toList ++ old ++ " -> ".toList ++ new]
  | .noChange => .ok ["  No field or line changes.".toList]

/-- `str(ln.get("Id"))` -/
def idText (env : Env) (line : Line) : Str := env.str (get line "Id")

/-- the lines by the text of their Id -/
def byText (env : Env) (lines : List Line) : Dict Line :=
  lines.foldl (fun d line => Dict.set (idText env line) line d) []

/-- the row of a changed line: none when one of the two lines is not found -/
def changeRow (before after : Dict Line) (lid : Str) : Option Row :=
  match before.lookup lid, after.lookup lid with
  | some old, some new => some (.changeLine lid old new)
  | _, _ => none

/-- the rows of the fields and lines -/
def changeRows (env : Env) (m : MergedUpdate) (before after : List Line) : List Row :=
  m.changedFields.map (fun key => .field key ((m.before.lookup key).getD .null) ((m.after.lookup key).getD .null)) ++
  m.changedLineIds.filterMap (changeRow (byText env before) (byText env after)) ++
  m.addedLines.map .addLine ++ m.removedLines.map .removeLine

/-- the row of the totals, when lines changed -/
def totalRow (sum : List Json → Attempt Str) (m : MergedUpdate) : Except UpdateError (List Row) :=
  if m.changedLineIds = [] ∧ m.addedLines = [] ∧ m.removedLines = [] then .ok []
  else do
    let old ← linesSubtotal sum (get m.before "Line")
    let new ← linesSubtotal sum (get m.after "Line")
    match old, new with
    | some o, some n => pure [.total o n]
    | _, _ => pure []

/-- the rows of `describe_merged_update` -/
def promptRows (env : Env) (sum : List Json → Attempt Str) (m : MergedUpdate) : Except UpdateError (List Row) := do
  let before ← storedLines m.before
  let after ← storedLines m.after
  let totals ← totalRow sum m
  let rows := changeRows env m before after ++ totals
  pure (if rows = [] then [.noChange] else rows)

/-- the header of `describe_merged_update` -/
def promptHeader (env : Env) (entityType : Str) (m : MergedUpdate) : Str :=
  let header := "Update ".toList ++ entityType ++ " #".toList ++
    env.str ((m.after.lookup "Id".toList).getD (.str "?".toList)) ++ " in QuickBooks".toList
  let doc := get m.before "DocNumber"
  let who := match get m.before "CustomerRef" with
    | .obj d => get d "name"
    | _ => .null
  let label := Text.join ", ".toList
    ((if truthy doc then ["#".toList ++ env.str doc] else []) ++ if truthy who then [env.str who] else [])
  if label = [] then header else header ++ " (".toList ++ label ++ ")".toList

/-- `describe_merged_update` -/
def describeMergedUpdate (env : Env) (sum : List Json → Attempt Str) (entityType : Str) (m : MergedUpdate) :
    Except UpdateError Str := do
  let rows ← promptRows env sum m
  let texts ← rows.mapM (Row.text env)
  pure (Text.join "\n".toList (promptHeader env entityType m :: texts.flatten ++
    ["  Everything else stays as it is.".toList]))

/-- `_UPDATABLE_ENTITIES` -/
def updatableEntities : List Str := ["Customer", "Estimate", "Invoice", "Item"].map String.toList

/-- what the tool is called with -/
structure UpdateArgs where
  entityType : Str
  data : Dict Json
  deleteLineIds : List Str

/-- `_merge_with_stored`; `read` is `read_entity` at the time -/
def mergeWithStored (env : Env) (read : Str → Str → Except UpdateError (Dict Json)) (args : UpdateArgs) :
    Except UpdateError MergedUpdate :=
  let id := get args.data "Id"
  let entityId := Text.strip (if truthy id then env.str id else [])
  if entityId = [] then reject ["data.Id is missing. Query the record first and pass its Id and SyncToken.".toList]
  else do
    let current ← read args.entityType entityId
    buildUpdate env args.entityType current args.data args.deleteLineIds

/-- `preview_qb_update`: none falls back to the text of the request -/
def previewQbUpdate (env : Env) (sum : List Json → Attempt Str) (read : Str → Str → Except UpdateError (Dict Json))
    (args : UpdateArgs) : Option Str :=
  if args.entityType ∉ updatableEntities then none
  else (mergeWithStored env read args >>= describeMergedUpdate env sum args.entityType).toOption

/-- the body that `qb_update` posts -/
def qbUpdate (env : Env) (read : Str → Str → Except UpdateError (Dict Json)) (args : UpdateArgs) :
    Option (Dict Json) :=
  if args.entityType ∉ updatableEntities then none
  else (mergeWithStored env read args).toOption.map MergedUpdate.payload

/-! ## What the prompt owes -/

section

variable (env : Env) (current changes : Dict Json)

/-- the change that a request makes to a stored line alters it -/
def Alters (requested : List Line) (stored line : Line) : Prop :=
  ∃ change, change? env requested stored = some change ∧ mergeLine env stored change = .ok line ∧
    Json.eqv (.obj line) (.obj stored) = false

/-- every change has its row, and a prompt without a change is of a record that stays -/
structure Shows (m : MergedUpdate) (rows : List Row) : Prop where
  fields : ∀ k, k ≠ "Line".toList → m.after.lookup k ≠ m.before.lookup k →
    .field k ((m.before.lookup k).getD .null) ((m.after.lookup k).getD .null) ∈ rows
  changed : ∀ stored requested, storedLines current = .ok stored → requestedLines (get changes "Line") = .ok requested →
    ∀ line ∈ stored, ∀ line', Alters env requested line line' → ∃ lid, .changeLine lid line line' ∈ rows
  added : ∀ line ∈ m.addedLines, .addLine line ∈ rows
  removed : ∀ line ∈ m.removedLines, .removeLine line ∈ rows
  noChange : .noChange ∈ rows → Json.eqv (.obj m.after) (.obj m.before) = true

/-- the last line with an Id -/
def lastWithId (lines : List Line) (lid : Str) : Option Line := lines.reverse.find? fun line => lineId env line = some lid

/-- the last line with a text as its Id -/
def lastWithText (lines : List Line) (text : Str) : Option Line := lines.reverse.find? fun line => idText env line = text

/-- an altered line is found by its Id: as stored, by the text of its Id, and once merged, by that text -/
structure Found (merged stored : List Line) (line line' : Line) : Prop where
  id : ∃ lid, lineId env line = some lid ∧ lastWithId env stored lid = some line ∧
    lastWithText env stored lid = some line ∧ lastWithText env merged lid = some line'

/-- the merge reports no change -/
def ReportsNothing (m : MergedUpdate) : Prop :=
  m.changedFields = [] ∧ m.changedLineIds = [] ∧ m.addedLines = [] ∧ m.removedLines = []

structure Visible (m : MergedUpdate) (deleteLineIds : List Str) : Prop where
  lines : ∀ stored merged requested, storedLines current = .ok stored → storedLines m.after = .ok merged →
    requestedLines (get changes "Line") = .ok requested →
    ∀ line ∈ stored, ∀ line', Alters env requested line line' → Found env merged stored line line'
  objects : touchesLines changes deleteLineIds = true → ReportsNothing m →
    ∀ l, current.lookup "Line".toList = some (.arr l) → ∀ v ∈ l, ∃ d, v = .obj d

end

/-! ## The last line with an Id -/

section

variable {env : Env}

theorem storedById_lookup (lines : List Line) (lid : Str) :
    (storedById env lines).lookup lid = lastWithId env lines lid := by
  induction lines using List.reverseRecOn with
  | nil => rfl
  | append_singleton lines l ih =>
    rw [storedById_snoc, lastWithId, List.reverse_append, List.reverse_singleton, List.singleton_append]
    by_cases hl : lineId env l = some lid
    · rw [hl, List.find?_cons_of_pos (by simpa using hl), Dict.lookup_set, if_pos rfl]
    · rw [List.find?_cons_of_neg (by simpa using hl), ← lastWithId, ← ih]
      cases hid : lineId env l with
      | none => rfl
      | some lid' =>
        have hne : lid ≠ lid' := fun he => hl (he ▸ hid)
        exact (Dict.lookup_set _ _ _ _).trans (if_neg hne)

theorem byText_lookup (lines : List Line) (text : Str) : (byText env lines).lookup text = lastWithText env lines text := by
  induction lines using List.reverseRecOn with
  | nil => rfl
  | append_singleton lines l ih =>
    have hsnoc : byText env (lines ++ [l]) = Dict.set (idText env l) l (byText env lines) := by
      rw [byText, List.foldl_append]
      rfl
    rw [hsnoc, Dict.lookup_set, lastWithText, List.reverse_append, List.reverse_singleton, List.singleton_append]
    by_cases hl : idText env l = text
    · rw [List.find?_cons_of_pos (by simpa using hl), if_pos hl.symm]
    · rw [List.find?_cons_of_neg (by simpa using hl), if_neg (Ne.symm hl), ih, lastWithText]

theorem lastWithId_append (l₁ l₂ : List Line) (lid : Str) :
    lastWithId env (l₁ ++ l₂) lid = (lastWithId env l₂ lid).or (lastWithId env l₁ lid) := by
  rw [lastWithId, List.reverse_append, List.find?_append]
  rfl

theorem lastWithId_eq_none {lines : List Line} {lid : Str} (h : ∀ line ∈ lines, lineId env line ≠ some lid) :
    lastWithId env lines lid = none := by
  refine List.find?_eq_none.2 fun line hline => ?_
  simpa using h line (List.mem_reverse.1 hline)

theorem of_lastWithId {lines : List Line} {lid : Str} {line : Line} (h : lastWithId env lines lid = some line) :
    line ∈ lines ∧ lineId env line = some lid :=
  ⟨List.mem_reverse.1 (List.mem_of_find?_eq_some h), by simpa using List.find?_some h⟩

theorem of_lastWithText {lines : List Line} {text : Str} {line : Line} (h : lastWithText env lines text = some line) :
    line ∈ lines ∧ idText env line = text :=
  ⟨List.mem_reverse.1 (List.mem_of_find?_eq_some h), by simpa using List.find?_some h⟩

/-- lines that stay have the last one of an Id that is not deleted -/
theorem lastWithId_filter {deletes : List Str} {lid : Str} (hlid : lid ∉ deletes) (lines : List Line) :
    lastWithId env (lines.filter fun line => !isDeleted env deletes line) lid = lastWithId env lines lid := by
  rw [lastWithId, ← List.filter_reverse, List.find?_filter]
  refine List.find?_congr fun line _ => ?_
  by_cases hid : lineId env line = some lid
  · have hkept : isDeleted env deletes line = false := by simp [isDeleted, hid, hlid]
    simp [hkept]
  · simp [hid]

theorem find_forall₂ {R : Line → Line → Prop} {p : Line → Bool} (hR : ∀ a b, R a b → p b = p a) {l l' : List Line}
    (h : List.Forall₂ R l l') {a : Line} (ha : l.find? p = some a) : ∃ b, l'.find? p = some b ∧ R a b := by
  induction h with
  | nil => cases ha
  | @cons x y l l' hxy _ ih =>
    cases hp : p x with
    | true =>
      rw [List.find?_cons_of_pos hp] at ha
      obtain rfl := Option.some.inj ha
      exact ⟨y, List.find?_cons_of_pos ((hR _ _ hxy).trans hp), hxy⟩
    | false =>
      rw [List.find?_cons_of_neg (by simp [hp])] at ha
      rw [List.find?_cons_of_neg (by simp [hR _ _ hxy, hp])]
      exact ih ha

/-- lines that keep their Ids, one by one -/
theorem lastWithId_forall₂ {R : Line → Line → Prop} (hR : ∀ a b, R a b → lineId env b = lineId env a) {l l' : List Line}
    (h : List.Forall₂ R l l') {lid : Str} {a : Line} (ha : lastWithId env l lid = some a) :
    ∃ b, lastWithId env l' lid = some b ∧ R a b :=
  find_forall₂ (fun a b hab => by rw [hR a b hab]) (List.forall₂_reverse_iff.2 h) ha

/-! ## A merge that succeeded -/

/-- a changed Id is one of the record, and is not deleted -/
theorem collect_known {t : Target} {requested : List Line} {changes changes' : Dict Line} {added added' : List Line}
    (h : collect env t requested changes added = .ok (changes', added'))
    (hchanges : ∀ lid ∈ changes.map Prod.fst, lid ∉ t.deletes ∧ Dict.has lid (storedById env t.stored) = true) :
    ∀ lid ∈ changes'.map Prod.fst, lid ∉ t.deletes ∧ Dict.has lid (storedById env t.stored) = true := by
  induction requested generalizing changes added with
  | nil =>
    simp only [collect, Except.ok.injEq, Prod.mk.injEq] at h
    rw [← h.1]
    exact hchanges
  | cons line requested ih =>
    rw [collect] at h
    cases hl : lineId env line with
    | none =>
      rw [hl] at h
      simp only at h
      split_ifs at h
      · exact ih h hchanges
      · obtain ⟨dup, -, h⟩ := Fallible.bind_eq_ok.1 h
        cases dup with
        | some dup =>
          simp only [reject] at h
          obtain ⟨_, -, h⟩ := Fallible.bind_eq_ok.1 h
          cases h
        | none => exact ih h hchanges
    | some lid =>
      rw [hl] at h
      simp only [reject] at h
      split_ifs at h with hk hd hc
      refine ih h fun lid' hlid' => ?_
      rw [Dict.keys_set] at hlid'
      split_ifs at hlid'
      · exact hchanges lid' hlid'
      · rcases List.mem_append.1 hlid' with hlid' | hlid'
        · exact hchanges lid' hlid'
        · rw [List.mem_singleton.1 hlid']
          exact ⟨hd, by simpa using hk⟩

/-- what the merge of the lines went through -/
structure Merged (env : Env) (stored requested : List Line) (deletes : List Str) (l : LineUpdate) (changes : Dict Line)
    (kept : List Line) : Prop where
  lookup : ∀ lid, changes.lookup lid = changeFor env requested lid
  known : ∀ lid ∈ changes.map Prod.fst, lid ∉ deletes ∧ ∃ line, lastWithId env stored lid = some line
  pairs : List.Forall₂ (fun line line' => mergeStored env changes line = .ok line')
    (stored.filter fun line => !isDeleted env deletes line) kept
  merged : l.merged = kept.rdropWhile isSubtotal ++ l.added ++ kept.rtakeWhile isSubtotal
  item : l.merged.all isSubtotal = false
  changed : l.changedIds = changedIds env stored l.merged changes
  added : l.added = newLines env requested
  removed : l.removed = stored.filter (isDeleted env deletes)

theorem mergeLines_merged {entityType entityId : Str} {stored requested : List Line} {value : Json}
    {deleteLineIds : List Str} {l : LineUpdate} (hreq : requestedLines value = .ok requested)
    (h : mergeLines env entityType entityId stored value deleteLineIds = .ok l) :
    ∃ changes kept, Merged env stored requested (deleteLineIds.map Text.strip) l changes kept := by
  unfold mergeLines at h
  obtain ⟨requested', hreq', h⟩ := Fallible.bind_eq_ok.1 h
  obtain rfl := Except.ok.inj (hreq.symm.trans hreq')
  simp only [reject] at h
  split_ifs at h with hunknown
  obtain ⟨⟨changes, added⟩, hcollect, h⟩ := Fallible.bind_eq_ok.1 h
  obtain ⟨kept, hkept, h⟩ := Fallible.bind_eq_ok.1 h
  obtain ⟨h1, h2, -⟩ := collect_ok hcollect
  have hknown := collect_known hcollect (by simp)
  simp only [List.lookup_nil, Option.none_or, List.nil_append] at h1 h2
  simp only at h
  split_ifs at h with hall
  obtain rfl := Except.ok.inj h
  refine ⟨changes, kept, h1, fun lid hlid => ⟨(hknown lid hlid).1, ?_⟩, Fallible.mapM_forall₂ hkept, rfl,
    by simpa using hall, rfl, h2, rfl⟩
  have hhas := (hknown lid hlid).2
  rw [Dict.has, storedById_lookup] at hhas
  exact Option.isSome_iff_exists.1 hhas

section

variable {stored requested kept : List Line} {deletes : List Str} {l : LineUpdate} {changes : Dict Line}

theorem mem_keys_of_lookup {lid : Str} {change : Line} (hc : changes.lookup lid = some change) :
    lid ∈ changes.map Prod.fst :=
  List.mem_map.2 ⟨(lid, change), Dict.mem_of_lookup hc, rfl⟩

/-- the last merged line with a changed Id is the merge of the last stored one -/
theorem Merged.last (h : Merged env stored requested deletes l changes kept)
    (hnd : ∀ line ∈ requested, (line.map Prod.fst).Nodup) {lid : Str} (hlid : lid ∉ deletes) {line : Line}
    (hline : lastWithId env stored lid = some line) :
    ∃ line', lastWithId env l.merged lid = some line' ∧ mergeStored env changes line = .ok line' := by
  have hfilter := (lastWithId_filter hlid stored).trans hline
  obtain ⟨line', hline', hmerge⟩ := lastWithId_forall₂ (fun a b hab => (mergeStored_kept hnd h.lookup hab).sameId)
    h.pairs hfilter
  refine ⟨line', ?_, hmerge⟩
  have hadded : lastWithId env l.added lid = none := by
    rw [h.added]
    refine lastWithId_eq_none fun new hnew => ?_
    have hnone : lineId env new = none ∧ isSubtotal new = false := by simpa using (List.mem_filter.1 hnew).2
    rw [hnone.1]
    exact nofun
  rw [h.merged, lastWithId_append, lastWithId_append, hadded, Option.none_or, ← lastWithId_append,
    List.rdropWhile_append_rtakeWhile]
  exact hline'

/-- a line whose change makes it another one -/
theorem Merged.alters (h : Merged env stored requested deletes l changes kept) {line line' : Line}
    (hmerge : mergeStored env changes line = .ok line') (hne : Json.eqv (.obj line') (.obj line) = false)
    (hwf : (Json.obj line).WellFormed) : Alters env requested line line' := by
  rw [mergeStored_eq h.lookup] at hmerge
  split at hmerge
  · rename_i change hchange
    exact ⟨change, hchange, hmerge, hne⟩
  · obtain rfl := Except.ok.inj hmerge
    rw [Json.eqv_refl _ hwf] at hne
    cases hne

/-- the Id of a line that is altered -/
theorem Merged.of_alters (h : Merged env stored requested deletes l changes kept) {line line' : Line}
    (ha : Alters env requested line line') :
    mergeStored env changes line = .ok line' ∧ ∃ lid, lineId env line = some lid ∧ lid ∈ changes.map Prod.fst := by
  obtain ⟨change, hchange, hmerge, -⟩ := ha
  refine ⟨by rw [mergeStored_eq h.lookup, hchange]; exact hmerge, ?_⟩
  obtain ⟨lid, hlid, hfor⟩ := Option.bind_eq_some_iff.1 hchange
  exact ⟨lid, hlid, mem_keys_of_lookup ((h.lookup lid).trans hfor)⟩

/-- which Ids are reported as changed: those whose last line is altered -/
theorem Merged.mem_changedIds (h : Merged env stored requested deletes l changes kept)
    (hnd : ∀ line ∈ requested, (line.map Prod.fst).Nodup) {lid : Str} :
    lid ∈ l.changedIds ↔ lid ∈ changes.map Prod.fst ∧ ∃ line line', lastWithId env stored lid = some line ∧
      mergeStored env changes line = .ok line' ∧ Json.eqv (.obj line') (.obj line) = false := by
  rw [h.changed, changedIds, List.mem_filter, and_congr_right_iff]
  intro hlid
  obtain ⟨hdel, line, hline⟩ := h.known lid hlid
  obtain ⟨line', hline', hmerge⟩ := h.last hnd hdel hline
  rw [storedById_lookup, storedById_lookup, hline, hline']
  constructor
  · intro hne
    exact ⟨line, line', rfl, hmerge, by simpa using hne⟩
  · rintro ⟨a, b, ha, hb, hne⟩
    obtain rfl := Option.some.inj ha
    obtain rfl := Except.ok.inj (hmerge.symm.trans hb)
    simpa using hne

end

end

/-! ## The rows -/

section

variable {env : Env} {sum : List Json → Attempt Str} {m : MergedUpdate} {rows : List Row}

/-- the rows before the one that says that there are none -/
structure Listed (env : Env) (m : MergedUpdate) (before after : List Line) (rows : List Row) : Prop where
  field : ∀ key old new, .field key old new ∈ rows ↔
    key ∈ m.changedFields ∧ old = (m.before.lookup key).getD .null ∧ new = (m.after.lookup key).getD .null
  line : ∀ lid old new, .changeLine lid old new ∈ rows ↔
    lid ∈ m.changedLineIds ∧ lastWithText env before lid = some old ∧ lastWithText env after lid = some new
  added : ∀ line, .addLine line ∈ rows ↔ line ∈ m.addedLines
  removed : ∀ line, .removeLine line ∈ rows ↔ line ∈ m.removedLines
  nothing : ReportsNothing m → .noChange ∈ rows
  noChange : .noChange ∈ rows → m.changedFields = [] ∧ m.addedLines = [] ∧ m.removedLines = [] ∧
    ∀ lid ∈ m.changedLineIds, lastWithText env before lid = none ∨ lastWithText env after lid = none

theorem changeRow_eq_some {before after : List Line} {lid : Str} {row : Row} :
    changeRow (byText env before) (byText env after) lid = some row ↔
      ∃ old new, lastWithText env before lid = some old ∧ lastWithText env after lid = some new ∧
        row = .changeLine lid old new := by
  rw [changeRow, byText_lookup, byText_lookup]
  cases lastWithText env before lid with
  | none => simp
  | some old =>
    cases lastWithText env after lid with
    | none => simp
    | some new => simp [eq_comm]

theorem of_totalRow {totals : List Row} (h : totalRow sum m = .ok totals) : ∀ row ∈ totals, ∃ o n, row = .total o n := by
  unfold totalRow at h
  split_ifs at h
  · obtain rfl := Except.ok.inj h
    exact nofun
  · obtain ⟨old, -, h⟩ := Fallible.bind_eq_ok.1 h
    obtain ⟨new, -, h⟩ := Fallible.bind_eq_ok.1 h
    cases old with
    | none =>
      obtain rfl := Except.ok.inj h
      exact nofun
    | some o =>
      cases new with
      | none =>
        obtain rfl := Except.ok.inj h
        exact nofun
      | some n =>
        obtain rfl := Except.ok.inj h
        exact fun row hrow => ⟨o, n, List.mem_singleton.1 hrow⟩

theorem changeRows_eq_nil {before after : List Line} (h : changeRows env m before after = []) :
    m.changedFields = [] ∧ m.addedLines = [] ∧ m.removedLines = [] ∧
      ∀ lid ∈ m.changedLineIds, lastWithText env before lid = none ∨ lastWithText env after lid = none := by
  simp only [changeRows, List.append_eq_nil_iff, List.map_eq_nil_iff, List.filterMap_eq_nil_iff] at h
  obtain ⟨⟨⟨hfields, hlines⟩, hadded⟩, hremoved⟩ := h
  refine ⟨hfields, hadded, hremoved, fun lid hlid => ?_⟩
  have hrow := hlines lid hlid
  rw [changeRow, byText_lookup, byText_lookup] at hrow
  cases hb : lastWithText env before lid with
  | none => exact Or.inl rfl
  | some old =>
    cases ha : lastWithText env after lid with
    | none => exact Or.inr rfl
    | some new => rw [hb, ha] at hrow; cases hrow

theorem promptRows_listed (h : promptRows env sum m = .ok rows) :
    ∃ before after, storedLines m.before = .ok before ∧ storedLines m.after = .ok after ∧ Listed env m before after rows := by
  unfold promptRows at h
  obtain ⟨before, hbefore, h⟩ := Fallible.bind_eq_ok.1 h
  obtain ⟨after, hafter, h⟩ := Fallible.bind_eq_ok.1 h
  obtain ⟨totals, htotals, h⟩ := Fallible.bind_eq_ok.1 h
  have hrows : rows = if changeRows env m before after ++ totals = [] then [.noChange]
      else changeRows env m before after ++ totals := (Except.ok.inj h).symm
  refine ⟨before, after, hbefore, hafter, ?_⟩
  -- a row of the changes is no total, and not the row that says that there are none
  have hmem : ∀ row, row ≠ .noChange → (∀ o n, row ≠ .total o n) → (row ∈ rows ↔ row ∈ changeRows env m before after) := by
    intro row hno htotal
    have hnot : row ∉ totals := by
      intro hin
      obtain ⟨o, n, heq⟩ := of_totalRow htotals row hin
      exact htotal o n heq
    rw [hrows]
    split_ifs with hnil
    · rw [(List.append_eq_nil_iff.1 hnil).1]
      simp [hno]
    · rw [List.mem_append, or_iff_left hnot]
  have hno : .noChange ∉ changeRows env m before after ++ totals := by
    intro hin
    rcases List.mem_append.1 hin with hin | hin
    · simp [changeRows, changeRow_eq_some] at hin
    · obtain ⟨o, n, heq⟩ := of_totalRow htotals _ hin
      cases heq
  refine ⟨fun key old new => ?_, fun lid old new => ?_, fun line => ?_, fun line => ?_, fun hn => ?_, fun hin => ?_⟩
  · rw [hmem (.field key old new) (by simp) (by simp)]
    simp only [changeRows, List.mem_append, List.mem_map, List.mem_filterMap, changeRow_eq_some, reduceCtorEq, and_false,
      exists_false, or_false, Row.field.injEq]
    constructor
    · rintro ⟨key', hkey, rfl, hold, hnew⟩
      exact ⟨hkey, hold.symm, hnew.symm⟩
    · rintro ⟨hkey, hold, hnew⟩
      exact ⟨key, hkey, rfl, hold.symm, hnew.symm⟩
  · rw [hmem (.changeLine lid old new) (by simp) (by simp)]
    simp only [changeRows, List.mem_append, List.mem_map, List.mem_filterMap, changeRow_eq_some, reduceCtorEq, and_false,
      exists_false, or_false, false_or, Row.changeLine.injEq]
    constructor
    · rintro ⟨lid', hlid, old', new', hold, hnew, rfl, rfl, rfl⟩
      exact ⟨hlid, hold, hnew⟩
    · rintro ⟨hlid, hold, hnew⟩
      exact ⟨lid, hlid, old, new, hold, hnew, rfl, rfl, rfl⟩
  · rw [hmem (.addLine line) (by simp) (by simp)]
    simp [changeRows, changeRow_eq_some]
  · rw [hmem (.removeLine line) (by simp) (by simp)]
    simp [changeRows, changeRow_eq_some]
  · have hnil : totals = [] := by
      rw [totalRow, if_pos hn.2] at htotals
      exact (Except.ok.inj htotals).symm
    have hrest : changeRows env m before after = [] := by simp [changeRows, hn.1, hn.2.1, hn.2.2.1, hn.2.2.2]
    rw [hrows, if_pos (by rw [hnil, hrest]; rfl)]
    exact List.mem_singleton_self _
  · refine changeRows_eq_nil ?_
    by_contra hne
    rw [hrows, if_neg fun hnil => hne (List.append_eq_nil_iff.1 hnil).1] at hin
    exact hno hin

end

/-! ## The record -/

theorem eqvDict_iff (l d : Dict Json) :
    Json.eqvDict l d = true ↔ ∀ kv ∈ l, ∃ v, d.lookup kv.1 = some v ∧ Json.eqv kv.2 v = true := by
  induction l with
  | nil => simp [Json.eqvDict]
  | cons kv l ih =>
    obtain ⟨k, a⟩ := kv
    rw [Json.eqvDict, Bool.and_eq_true, ih, List.forall_mem_cons]
    refine and_congr_left' ?_
    cases d.lookup k <;> simp

/-- an object with a value replaced by an equal one -/
theorem eqv_set {d : Dict Json} (hwf : (Json.obj d).WellFormed) {k : Str} {v w : Json} (hk : d.lookup k = some w)
    (hvw : Json.eqv v w = true) : Json.eqv (.obj (Dict.set k v d)) (.obj d) = true := by
  rw [Json.eqv, Bool.and_eq_true, eqvDict_iff]
  have hkeys := Dict.keys_set d k v
  rw [if_pos (List.mem_map.2 ⟨(k, w), Dict.mem_of_lookup hk, rfl⟩)] at hkeys
  refine ⟨?_, fun kv hkv => ?_⟩
  · have hlen := congrArg List.length hkeys
    simpa using hlen
  · obtain ⟨j, a⟩ := kv
    have hj : (Dict.set k v d).lookup j = some a := Dict.lookup_of_mem (hkeys ▸ hwf.1) hkv
    rw [Dict.lookup_set] at hj
    by_cases he : j = k
    · rw [if_pos he] at hj
      exact ⟨w, by rw [he, hk], by rw [← Option.some.inj hj]; exact hvw⟩
    · rw [if_neg he] at hj
      exact ⟨a, hj, Json.eqv_refl a (Json.wellFormed_of_lookup hwf hj)⟩

section

variable {env : Env} {entityType : Str} {current changes : Dict Json} {deleteLineIds : List Str} {m : MergedUpdate}

/-- what a successful update went through -/
structure Built (env : Env) (entityType : Str) (current changes : Dict Json) (deleteLineIds : List Str) (m : MergedUpdate)
    (lines : Option LineUpdate) : Prop where
  token : checkToken env entityType (entityIdOf env current changes) current changes = .ok ()
  merge : updateLines env entityType current changes deleteLineIds = .ok lines
  result : m = ⟨payloadOf env entityType current changes lines, current, afterOf current changes lines,
    (fieldChanges current changes).map Prod.fst, (lines.map LineUpdate.changedIds).getD [],
    (lines.map LineUpdate.added).getD [], (lines.map LineUpdate.removed).getD []⟩

theorem buildUpdate_built (h : buildUpdate env entityType current changes deleteLineIds = .ok m) :
    ∃ lines, Built env entityType current changes deleteLineIds m lines := by
  unfold buildUpdate at h
  obtain ⟨⟨⟩, htoken, h⟩ := Fallible.bind_eq_ok.1 h
  simp only [reject] at h
  split_ifs at h
  obtain ⟨lines, hlines, h⟩ := Fallible.bind_eq_ok.1 h
  exact ⟨lines, htoken, hlines, (Except.ok.inj h).symm⟩

theorem updateLines_none (h : updateLines env entityType current changes deleteLineIds = .ok none) :
    touchesLines changes deleteLineIds = false := by
  unfold updateLines at h
  split_ifs at h with ht
  · obtain ⟨stored, -, h⟩ := Fallible.bind_eq_ok.1 h
    obtain ⟨l, -, h⟩ := Fallible.bind_eq_ok.1 h
    cases h
  · simpa using ht

/-- an update of the lines, with what their merge went through -/
theorem updateLines_some {l : LineUpdate} (h : updateLines env entityType current changes deleteLineIds = .ok (some l)) :
    touchesLines changes deleteLineIds = true ∧ ∃ stored requested, storedLines current = .ok stored ∧
      requestedLines (get changes "Line") = .ok requested ∧
      ∃ cs kept, Merged env stored requested (deleteLineIds.map Text.strip) l cs kept := by
  unfold updateLines at h
  split_ifs at h with ht
  · obtain ⟨stored, hstored, h⟩ := Fallible.bind_eq_ok.1 h
    obtain ⟨l', hl, h⟩ := Fallible.bind_eq_ok.1 h
    obtain rfl : l' = l := Option.some.inj (Except.ok.inj h)
    obtain ⟨requested, hreq, -⟩ := Fallible.bind_eq_ok.1 hl
    obtain ⟨cs, kept, hmerged⟩ := mergeLines_merged hreq hl
    exact ⟨ht, stored, requested, hstored, hreq, cs, kept, hmerged⟩
  · cases h

theorem afterOf_storedLines (l : LineUpdate) : storedLines (afterOf current changes (some l)) = .ok l.merged := by
  have hline : (afterOf current changes (some l)).lookup "Line".toList = some (.arr (l.merged.map .obj)) := by
    rw [afterOf, setLines, Dict.lookup_set, if_pos rfl]
  rw [storedLines_arr hline, objects_map]

/-- a request that does not name the lines alters none -/
theorem not_alters_nil {line line' : Line} : ¬ Alters env [] line line' := by
  rintro ⟨change, hchange, -⟩
  obtain ⟨lid, -, hfor⟩ := Option.bind_eq_some_iff.1 hchange
  cases hfor

theorem requestedLines_untouched (h : touchesLines changes deleteLineIds = false) {requested : List Line}
    (hreq : requestedLines (get changes "Line") = .ok requested) : requested = [] := by
  have hnone : changes.lookup "Line".toList = none := by
    rw [touchesLines, Bool.or_eq_false_iff] at h
    exact Dict.has_eq_false.1 h.1
  rw [get, hnone] at hreq
  exact (Except.ok.inj hreq).symm

/-- every field that differs is reported -/
theorem fields_reported (lines : Option LineUpdate) {k : Str} (hk : k ≠ "Line".toList)
    (hne : (afterOf current changes lines).lookup k ≠ current.lookup k) : k ∈ (fieldChanges current changes).map Prod.fst := by
  rw [lookup_afterOf lines hk] at hne
  cases hl : (fieldChanges current changes).reverse.lookup k with
  | none => rw [hl, Option.none_or] at hne; exact absurd rfl hne
  | some v => exact List.mem_map.2 ⟨(k, v), List.mem_reverse.1 (Dict.mem_of_lookup hl), rfl⟩

/-- the stored lines are those of a list of entries, when there are any -/
theorem storedLines_cases {stored : List Line} (h : storedLines current = .ok stored) :
    stored = [] ∨ ∃ l, current.lookup "Line".toList = some (.arr l) ∧ stored = objects l := by
  cases hl : current.lookup "Line".toList with
  | none =>
    rw [storedLines, get, hl] at h
    exact Or.inl (Except.ok.inj h).symm
  | some v =>
    cases v with
    | arr l =>
      rw [storedLines_arr hl] at h
      exact Or.inr ⟨l, rfl, (Except.ok.inj h).symm⟩
    | obj | str =>
      rw [storedLines, lookup_get hl] at h
      exact Or.inl (Except.ok.inj h).symm
    | null | bool | int | float =>
      rw [storedLines, lookup_get hl] at h
      simp only at h
      split_ifs at h
      exact Or.inl (Except.ok.inj h).symm

/-! ## What the prompt shows -/

variable {sum : List Json → Attempt Str} {rows : List Row}

/-- the lines of an update that touches them: what is altered is found exactly when it has its row -/
theorem alters_of_row {stored requested kept : List Line} {deletes : List Str} {l : LineUpdate} {cs : Dict Line}
    (h : Merged env stored requested deletes l cs kept) (hnd : ∀ line ∈ requested, (line.map Prod.fst).Nodup)
    {line line' : Line} (ha : Alters env requested line line') {lid : Str} (hlid : lid ∈ l.changedIds)
    (hstored : lastWithText env stored lid = some line) : lineId env line = some lid := by
  obtain ⟨-, lid', hid, -⟩ := h.of_alters ha
  obtain ⟨hkey, -⟩ := (h.mem_changedIds hnd).1 hlid
  -- a changed Id has no blanks around it
  have hstrip : Text.strip lid = lid := by
    obtain ⟨-, last, hlast⟩ := h.known lid hkey
    have hlastId := (of_lastWithId hlast).2
    unfold lineId at hlastId
    split at hlastId
    · cases hlastId
    · split_ifs at hlastId
      rw [← Option.some.inj hlastId, Text.strip_strip]
  have htext : env.str (get line "Id") = lid := (of_lastWithText hstored).2
  have hid' := hid
  unfold lineId at hid
  split at hid
  · cases hid
  · split_ifs at hid
    rw [hid', ← Option.some.inj hid, htext, hstrip]

/-- an altered line with a row is the last one with its Id -/
theorem found_of_rows {stored requested kept : List Line} {deletes : List Str} {l : LineUpdate} {cs : Dict Line}
    (h : Merged env stored requested deletes l cs kept) (hnd : ∀ line ∈ requested, (line.map Prod.fst).Nodup)
    (hwf : ∀ line ∈ stored, (Json.obj line).WellFormed)
    (hrow : ∀ line ∈ stored, ∀ line', Alters env requested line line' → ∃ lid ∈ l.changedIds,
      lastWithText env stored lid = some line ∧ lastWithText env l.merged lid = some line')
    {line line' : Line} (hline : line ∈ stored) (ha : Alters env requested line line') :
    Found env l.merged stored line line' := by
  obtain ⟨lid, hlid, hstored, hmerged⟩ := hrow line hline line' ha
  have hid := alters_of_row h hnd ha hlid hstored
  obtain ⟨-, last, last', hlast, hmerge, hne⟩ := (h.mem_changedIds hnd).1 hlid
  obtain ⟨hmem, hlastId⟩ := of_lastWithId hlast
  -- the last line with the Id is altered too, so its row is the same one
  have halters := h.alters hmerge hne (hwf last hmem)
  obtain ⟨lid', hlid', hstored', -⟩ := hrow last hmem last' halters
  have hid' := alters_of_row h hnd halters hlid' hstored'
  obtain rfl : lid' = lid := Option.some.inj (hid'.symm.trans hlastId)
  obtain rfl : last = line := Option.some.inj (hstored'.symm.trans hstored)
  exact ⟨lid', hid, hlast, hstored, hmerged⟩

/-- an altered line that is found has its row -/
theorem row_of_found {stored requested kept : List Line} {deletes : List Str} {l : LineUpdate} {cs : Dict Line}
    (h : Merged env stored requested deletes l cs kept) (hnd : ∀ line ∈ requested, (line.map Prod.fst).Nodup)
    {line line' : Line} (ha : Alters env requested line line') (hf : Found env l.merged stored line line') :
    ∃ lid ∈ l.changedIds, lastWithText env stored lid = some line ∧ lastWithText env l.merged lid = some line' := by
  obtain ⟨lid, hid, hlast, hstored, hmerged⟩ := hf.id
  obtain ⟨hmerge, lid', hid', hkey⟩ := h.of_alters ha
  obtain rfl : lid' = lid := Option.some.inj (hid'.symm.trans hid)
  obtain ⟨-, -, -, hne⟩ := ha
  exact ⟨lid', (h.mem_changedIds hnd).2 ⟨hkey, line, line', hlast, hmerge, hne⟩, hstored, hmerged⟩

/-- lines of which none is altered, added or removed -/
theorem merged_eqv {stored requested kept : List Line} {deletes : List Str} {l : LineUpdate} {cs : Dict Line}
    (h : Merged env stored requested deletes l cs kept) (hwf : ∀ line ∈ stored, (Json.obj line).WellFormed)
    (hnone : ∀ line ∈ stored, ∀ line', ¬ Alters env requested line line') (hadded : l.added = []) (hremoved : l.removed = []) :
    List.Forall₂ (fun a b => Json.eqv a b = true) (l.merged.map .obj) (stored.map .obj) := by
  have hkept : stored.filter (fun line => !isDeleted env deletes line) = stored := by
    rw [h.removed] at hremoved
    refine List.filter_eq_self.2 fun line hline => ?_
    simpa using List.filter_eq_nil_iff.1 hremoved line hline
  have hpairs := h.pairs
  rw [hkept] at hpairs
  rw [h.merged, hadded, List.append_nil, List.rdropWhile_append_rtakeWhile, List.forall₂_map_left_iff,
    List.forall₂_map_right_iff]
  refine List.Forall₂.flip ?_
  rw [List.forall₂_iff_get] at hpairs ⊢
  refine ⟨hpairs.1, fun i hi hi' => ?_⟩
  by_contra hne
  exact hnone _ (List.get_mem stored ⟨i, hi⟩) _
    (h.alters (hpairs.2 i hi hi') (by simpa [flip] using hne) (hwf _ (List.get_mem stored ⟨i, hi⟩)))

theorem shows_of_visible (hcurrent : (Json.obj current).WellFormed) (hchanges : (Json.obj changes).WellFormed)
    (hm : buildUpdate env entityType current changes deleteLineIds = .ok m) (hrows : promptRows env sum m = .ok rows)
    (hv : Visible env current changes m deleteLineIds) : Shows env current changes m rows := by
  obtain ⟨before, after, hbefore, hafter, hlisted⟩ := promptRows_listed hrows
  obtain ⟨lines, hbuilt⟩ := buildUpdate_built hm
  obtain rfl := hbuilt.result
  simp only at hbefore hafter
  have hchanged : ∀ stored requested, storedLines current = .ok stored →
      requestedLines (get changes "Line") = .ok requested → ∀ line ∈ stored, ∀ line', Alters env requested line line' →
      ∃ lid, .changeLine lid line line' ∈ rows := by
    intro stored requested hstored hreq line hline line' ha
    cases lines with
    | none =>
      obtain rfl := requestedLines_untouched (updateLines_none hbuilt.merge) hreq
      exact absurd ha not_alters_nil
    | some l =>
      obtain ⟨-, stored', requested', hstored', hreq', cs, kept, hmerged⟩ := updateLines_some hbuilt.merge
      obtain rfl := Except.ok.inj (hstored'.symm.trans hstored)
      obtain rfl := Except.ok.inj (hreq'.symm.trans hreq)
      obtain rfl := Except.ok.inj (hstored.symm.trans hbefore)
      obtain rfl := Except.ok.inj ((afterOf_storedLines l).symm.trans hafter)
      have hfound := hv.lines _ _ _ hstored (afterOf_storedLines l) hreq line hline line' ha
      obtain ⟨lid, hlid, hs, hm⟩ := row_of_found hmerged (requestedLines_nodup hchanges hreq) ha hfound
      exact ⟨lid, (hlisted.line lid line line').2 ⟨hlid, hs, hm⟩⟩
  refine ⟨fun k hk hne => ?_, hchanged, fun line hline => (hlisted.added line).2 hline,
    fun line hline => (hlisted.removed line).2 hline, fun hno => ?_⟩
  · exact (hlisted.field _ _ _).2 ⟨fields_reported lines hk hne, rfl, rfl⟩
  · obtain ⟨hfields, hadded, hremoved, hskipped⟩ := hlisted.noChange hno
    simp only at hfields hadded hremoved hskipped
    have hnil : fieldChanges current changes = [] := List.map_eq_nil_iff.1 hfields
    simp only
    rw [afterOf_of_nil hnil]
    cases lines with
    | none => exact Json.eqv_refl _ hcurrent
    | some l =>
      obtain ⟨ht, stored, requested, hstored, hreq, cs, kept, hmerged⟩ := updateLines_some hbuilt.merge
      simp only [Option.map_some, Option.getD_some] at hadded hremoved hskipped
      -- no line is altered: its row would be there
      have hnone : ∀ line ∈ stored, ∀ line', ¬ Alters env requested line line' := by
        intro line hline line' ha
        obtain ⟨lid, hrow⟩ := hchanged stored requested hstored hreq line hline line' ha
        obtain ⟨hlid, hs, hm⟩ := (hlisted.line lid line line').1 hrow
        rcases hskipped lid hlid with h | h
        · rw [h] at hs; cases hs
        · rw [h] at hm; cases hm
      rcases storedLines_cases hstored with rfl | ⟨entries, hentries, rfl⟩
      · -- an update without lines is rejected
        have hitem := hmerged.item
        have hkept : kept = [] := by simpa using hmerged.pairs
        rw [hmerged.merged, hadded, hkept] at hitem
        cases hitem
      · have hwf := wellFormed_objects hcurrent hentries
        have hids : l.changedIds = [] := by
          refine List.eq_nil_iff_forall_not_mem.2 fun lid hlid => ?_
          obtain ⟨-, line, line', hlast, hmerge, hne⟩ :=
            (hmerged.mem_changedIds (requestedLines_nodup hchanges hreq)).1 hlid
          have hmem := (of_lastWithId hlast).1
          exact hnone line hmem line' (hmerged.alters hmerge hne (hwf line hmem))
        have hreports : ReportsNothing ⟨payloadOf env entityType current changes (some l), current,
            afterOf current changes (some l), (fieldChanges current changes).map Prod.fst, l.changedIds, l.added, l.removed⟩ :=
          ⟨hfields, hids, hadded, hremoved⟩
        have hobjects := eq_map_objects (hv.objects ht hreports entries hentries)
        have heqv := merged_eqv hmerged hwf hnone hadded hremoved
        rw [← hobjects] at heqv
        exact eqv_set hcurrent hentries (by rw [Json.eqv, Json.eqvList_iff]; exact heqv)

theorem visible_of_shows (hcurrent : (Json.obj current).WellFormed) (hchanges : (Json.obj changes).WellFormed)
    (hm : buildUpdate env entityType current changes deleteLineIds = .ok m) (hrows : promptRows env sum m = .ok rows)
    (hs : Shows env current changes m rows) : Visible env current changes m deleteLineIds := by
  obtain ⟨before, after, hbefore, hafter, hlisted⟩ := promptRows_listed hrows
  obtain ⟨lines, hbuilt⟩ := buildUpdate_built hm
  obtain rfl := hbuilt.result
  simp only at hbefore hafter
  cases lines with
  | none =>
    have ht := updateLines_none hbuilt.merge
    refine ⟨fun stored merged requested _ _ hreq line _ line' ha => ?_, fun ht' => absurd (ht.symm.trans ht') nofun⟩
    obtain rfl := requestedLines_untouched ht hreq
    exact absurd ha not_alters_nil
  | some l =>
    obtain ⟨-, stored, requested, hstored, hreq, cs, kept, hmerged⟩ := updateLines_some hbuilt.merge
    obtain rfl := Except.ok.inj (hstored.symm.trans hbefore)
    obtain rfl := Except.ok.inj ((afterOf_storedLines l).symm.trans hafter)
    refine ⟨fun stored' merged' requested' hstored' hmerged' hreq' line hline line' ha => ?_,
      fun _ hreports entries hentries => ?_⟩
    · obtain rfl := Except.ok.inj (hstored'.symm.trans hstored)
      obtain rfl := Except.ok.inj (hreq'.symm.trans hreq)
      obtain rfl := Except.ok.inj ((afterOf_storedLines l).symm.trans hmerged')
      have hwf : ∀ line ∈ stored', (Json.obj line).WellFormed := by
        rcases storedLines_cases hstored' with rfl | ⟨entries, hentries, rfl⟩
        · exact nofun
        · exact wellFormed_objects hcurrent hentries
      refine found_of_rows hmerged (requestedLines_nodup hchanges hreq) hwf (fun line hline line' ha => ?_) hline ha
      obtain ⟨lid, hrow⟩ := hs.changed _ _ hstored' hreq line hline line' ha
      exact ⟨lid, (hlisted.line lid line line').1 hrow⟩
    · -- the record is as it was, so its lines equal objects
      have heqv := hs.noChange (hlisted.nothing hreports)
      have hnil : fieldChanges current changes = [] := List.map_eq_nil_iff.1 hreports.1
      simp only at heqv
      rw [afterOf_of_nil hnil, setLines, Json.eqv, Bool.and_eq_true, eqvDict_iff] at heqv
      have hmem : ("Line".toList, Json.arr (l.merged.map .obj)) ∈ Dict.set "Line".toList (.arr (l.merged.map .obj)) current :=
        Dict.mem_of_lookup (by rw [Dict.lookup_set, if_pos rfl])
      obtain ⟨w, hw, hvw⟩ := heqv.2 _ hmem
      obtain rfl := Option.some.inj (hentries.symm.trans hw)
      rw [Json.eqv, Json.eqvList_iff] at hvw
      exact objects_of_eqv hvw

end

/-! ## One merge -/

/-- two reads of one record: as the SyncToken, so the record; and SyncTokens are texts -/
structure Versioned (read₁ read₂ : Str → Str → Except UpdateError (Dict Json)) : Prop where
  same : ∀ entityType entityId c₁ c₂, read₁ entityType entityId = .ok c₁ → read₂ entityType entityId = .ok c₂ →
    get c₁ "SyncToken" = get c₂ "SyncToken" → c₁ = c₂
  text : ∀ entityType entityId c₁ c₂, read₁ entityType entityId = .ok c₁ → read₂ entityType entityId = .ok c₂ →
    get c₁ "SyncToken" = get c₂ "SyncToken" ∨
      ∃ t₁ t₂, get c₁ "SyncToken" = .str t₁ ∧ get c₂ "SyncToken" = .str t₂

/-- the prompt and the body are of one merge -/
def OneMerge (env : Env) (sum : List Json → Attempt Str) : Prop :=
  ∀ read₁ read₂ args text body, Versioned read₁ read₂ → previewQbUpdate env sum read₁ args = some text →
    qbUpdate env read₂ args = some body →
      ∃ m, mergeWithStored env read₁ args = .ok m ∧ describeMergedUpdate env sum args.entityType m = .ok text ∧
        m.payload = body

/-- the SyncToken that a request is accepted with -/
theorem checkToken_text {env : Env} {entityType entityId : Str} {current changes : Dict Json} {t : Str}
    (h : checkToken env entityType entityId current changes = .ok ()) (ht : get current "SyncToken" = .str t) :
    t = Text.strip (env.str (get changes "SyncToken")) := by
  unfold checkToken at h
  simp only [reject] at h
  split_ifs at h with h₁ h₂
  rw [not_and, not_not, ht] at h₂
  exact (h₂ fun hnull => by cases hnull).symm

theorem toOption_eq_some {α : Type} {x : Except UpdateError α} {a : α} (h : x.toOption = some a) : x = .ok a := by
  cases x with
  | error e => cases h
  | ok b => rw [Option.some.inj h]

/-- the record that is merged into -/
theorem mergeWithStored_ok {env : Env} {read : Str → Str → Except UpdateError (Dict Json)} {args : UpdateArgs}
    {m : MergedUpdate} (h : mergeWithStored env read args = .ok m) :
    ∃ current, read args.entityType (Text.strip (if truthy (get args.data "Id") then env.str (get args.data "Id") else [])) =
      .ok current ∧ buildUpdate env args.entityType current args.data args.deleteLineIds = .ok m := by
  unfold mergeWithStored at h
  simp only [reject] at h
  by_cases hid : Text.strip (if truthy (get args.data "Id") then env.str (get args.data "Id") else []) = []
  · rw [if_pos hid] at h
    cases h
  · rw [if_neg hid] at h
    exact Fallible.bind_eq_ok.1 h

/-- **One merge.** An update that is accepted is the one that the prompt showed. -/
theorem oneMerge (env : Env) (sum : List Json → Attempt Str) : OneMerge env sum := by
  intro read₁ read₂ args text body hversion hpreview hupdate
  unfold previewQbUpdate at hpreview
  unfold qbUpdate at hupdate
  split_ifs at hpreview hupdate
  obtain ⟨m₁, hm₁, htext⟩ := Fallible.bind_eq_ok.1 (toOption_eq_some hpreview)
  obtain ⟨m₂, hm₂, hbody⟩ := Option.map_eq_some_iff.1 hupdate
  obtain ⟨c₁, hr₁, hb₁⟩ := mergeWithStored_ok hm₁
  obtain ⟨c₂, hr₂, hb₂⟩ := mergeWithStored_ok (toOption_eq_some hm₂)
  obtain ⟨_, hbuilt₁⟩ := buildUpdate_built hb₁
  obtain ⟨_, hbuilt₂⟩ := buildUpdate_built hb₂
  have htoken : get c₁ "SyncToken" = get c₂ "SyncToken" := by
    rcases hversion.text _ _ _ _ hr₁ hr₂ with h | ⟨t₁, t₂, ht₁, ht₂⟩
    · exact h
    · -- both were accepted with the SyncToken of the request
      rw [ht₁, ht₂, checkToken_text hbuilt₁.token ht₁, checkToken_text hbuilt₂.token ht₂]
  obtain rfl := hversion.same _ _ _ _ hr₁ hr₂ htoken
  obtain rfl := Except.ok.inj (hb₁.symm.trans hb₂)
  exact ⟨m₁, hm₁, htext, hbody⟩

/-- the totals of two and of three hours -/
def hoursSum (amounts : List Json) : Attempt Str :=
  if (amounts.map fun a => (Json.number a).getD 0).sum = 100 then .value "$100.00".toList
  else if (amounts.map fun a => (Json.number a).getD 0).sum = 150 then .value "$150.00".toList
  else .caught

theorem storedEstimate_wellFormed : (Json.obj storedEstimate).WellFormed := by
  simp only [storedEstimate, labourLine, obj, text, List.map_cons, List.map_nil, Json.WellFormed, Json.WellFormedDict,
    Json.WellFormedList]
  decide

/-- three hours, with a blank after the Id -/
def blankInId : Line := obj [("Id", text "1 "), ("SalesItemLineDetail", .obj (obj [("Qty", .int 3)]))]

/-- the line as it is sent -/
def blankInIdMerged : Line :=
  obj [("Id", text "1 "), ("Amount", .float 150), ("DetailType", text "SalesItemLineDetail"),
    ("SalesItemLineDetail", .obj (obj [("ItemRef", text "7"), ("Qty", .int 3), ("UnitPrice", .int 50)]))]

end Clawbolt.QuickBooks

/-
Saved calendars and the connected Google account (integrations/calendar/sync.py), and the calendar that a tool call
without `calendar_id` goes to (integrations/calendar/factory.py).

The saved rows of a user have distinct calendar ids, a unique constraint of the table. `json.loads` and `str` are
parameters.

- `plan_removed`, `plan_updated`: what the plan says of a saved id;
- `resync_eq`: the rows after a resync;
- `resolve_flagged`: a call goes to the flagged calendar, if the tool is allowed there;
- `resync_usable`: after a resync the configuration is usable, and a second one changes nothing.
-/
import Mathlib.Tactic
import Clawbolt.Core.Json

namespace Clawbolt.Calendar

open Text (Str)

/-! ## Model -/

structure CalendarInfo where
  id : Str
  summary : Str
  primary : Bool := false
  accessRole : Str := []
deriving DecidableEq

structure CalendarConfig where
  calendarId : Str
  displayName : Str
  /-- JSON -/
  disabledTools : Str
  accessRole : Str
  isPrimary : Bool
deriving DecidableEq

/-- the rows of a user: `uq_calendar_config_user_provider_calendar` -/
structure Saved where
  rows : List CalendarConfig
  unique : (rows.map CalendarConfig.calendarId).Nodup

/-- `PRIMARY_ALIAS` -/
def primaryAlias : Str := "primary".toList

/-- the ids of a live listing -/
def liveIds (live : List CalendarInfo) : List Str := (live.filter fun c => c.id ≠ []).map CalendarInfo.id

def isCalendarVisible (calendarId : Str) (liveIds : List Str) : Bool := calendarId = primaryAlias || calendarId ∈ liveIds

structure CalendarResyncPlan where
  updated : Dict CalendarInfo := []
  removed : List Str := []
  addedPrimary : Option CalendarInfo := none
  primaryId : Str := []

def liveById (live : List CalendarInfo) : Dict CalendarInfo :=
  (live.filter fun c => c.id ≠ []).foldl (fun d c => Dict.set c.id c d) []

/-- what the plan does with one saved id -/
def CalendarResyncPlan.reconcile (live : Dict CalendarInfo) (plan : CalendarResyncPlan) (cid : Str) : CalendarResyncPlan :=
  if cid = primaryAlias then plan
  else
    match live.lookup cid with
    | none => { plan with removed := plan.removed ++ [cid] }
    | some info => { plan with updated := Dict.set cid info plan.updated }

/-- the primary calendar of a listing -/
def livePrimary (live : List CalendarInfo) : Option CalendarInfo := live.find? fun c => c.primary && c.id ≠ []

/-- `plan_calendar_resync` -/
def planCalendarResync (savedIds : List Str) (live : List CalendarInfo) : Option CalendarResyncPlan :=
  (livePrimary live).map fun primary =>
    let plan := savedIds.foldl (CalendarResyncPlan.reconcile (liveById live)) { primaryId := primary.id }
    let kept := savedIds.filter (· ∉ plan.removed)
    let primaryEnabled := primary.id ∈ kept ∨ primaryAlias ∈ kept
    if ¬primaryEnabled ∧ (plan.removed ≠ [] ∨ kept = []) then { plan with addedPrimary := some primary } else plan

/-- a row as the connection has it, with the flag of the primary calendar -/
def CalendarConfig.refresh (row : CalendarConfig) (info : Option CalendarInfo) (primaryId : Str) : CalendarConfig :=
  match info with
  | none => { row with isPrimary := row.calendarId = primaryId }
  | some info => { row with
      accessRole := info.accessRole
      displayName := if info.summary ≠ [] then info.summary else row.displayName
      isPrimary := row.calendarId = primaryId }

/-- what a plan does with one row, none when it is deleted -/
def CalendarResyncPlan.applyRow (plan : CalendarResyncPlan) (row : CalendarConfig) : Option CalendarConfig :=
  if row.calendarId ∈ plan.removed then none
  else some (row.refresh (plan.updated.lookup row.calendarId) plan.primaryId)

/-- the row of a primary calendar that is added -/
def addedRow (added : CalendarInfo) : CalendarConfig where
  calendarId := added.id
  displayName := if added.summary ≠ [] then added.summary else added.id
  disabledTools := []
  accessRole := added.accessRole
  isPrimary := true

/-- `resync_calendar_configs` with this listing: the rows afterwards, none when the listing is not trusted -/
def resyncCalendarConfigs (live : List CalendarInfo) (rows : List CalendarConfig) : Option (List CalendarConfig) :=
  (planCalendarResync (rows.map CalendarConfig.calendarId) live).map fun plan =>
    rows.filterMap plan.applyRow ++ (plan.addedPrimary.map addedRow).toList

/-! ## The calendar of a call -/

structure Env where
  /-- `json.loads`, none when it raises -/
  loads : Str → Option Json
  /-- `str` -/
  str : Json → Str

def parseDisabledTools (env : Env) (raw : Str) : List Str :=
  if raw = [] then []
  else
    match env.loads raw with
    | some (.arr l) => l.map env.str
    | _ => []

/-- `_READ_ONLY_ROLES` -/
def readOnlyRoles : List Str := ["reader".toList, "freeBusyReader".toList]

/-- `_WRITE_TOOLS` -/
def writeTools : List Str :=
  ["calendar_create_event".toList, "calendar_update_event".toList, "calendar_delete_event".toList]

/-- an entry of the enabled calendars -/
structure Enabled where
  id : Str
  name : Str
  disabled : List Str
  role : Str
deriving DecidableEq

/-- write tools are blocked on a calendar that may only be read -/
def blockWrites (role : Str) (disabled : List Str) : List Str :=
  if role ∈ readOnlyRoles then disabled ++ writeTools.filter (· ∉ disabled) else disabled

/-- the entry of a row -/
def CalendarConfig.enabled (env : Env) (c : CalendarConfig) : Enabled where
  id := c.calendarId
  name := if c.displayName ≠ [] then c.displayName else c.calendarId
  disabled := blockWrites c.accessRole (parseDisabledTools env c.disabledTools)
  role := c.accessRole

def fallback : List Enabled := [⟨primaryAlias, "Primary".toList, [], "owner".toList⟩]

/-- `_get_enabled_calendars` -/
def getEnabledCalendars (env : Env) (rows : List CalendarConfig) : List Enabled :=
  if rows = [] then fallback else rows.map (CalendarConfig.enabled env)

/-- `_get_primary_calendar_id`; none when `scalar_one_or_none` raises -/
def getPrimaryCalendarId (rows : List CalendarConfig) : Option Str :=
  match rows.filter CalendarConfig.isPrimary with
  | [] => some []
  | [row] => some row.calendarId
  | _ => none

/-- `t.replace(old, new)` of a text that is not empty, the first `skip` characters being part of an occurrence -/
def replaceFrom (old new : Str) : ℕ → Str → Str
  | _, [] => []
  | skip + 1, _ :: t => replaceFrom old new skip t
  | 0, c :: t => if old.isPrefixOf (c :: t) then new ++ replaceFrom old new (old.length - 1) t else c :: replaceFrom old new 0 t

/-- how an error names a tool -/
def toolDisplay (toolName : Str) : Str :=
  replaceFrom "_".toList " ".toList 0 (replaceFrom "calendar_".toList [] 0 toolName)

def options (calendars : List Enabled) : Str :=
  Text.join ", ".toList (calendars.map fun c => c.name ++ " (".toList ++ c.id ++ ")".toList)

/-- the calendars where a tool is allowed -/
def allowedFor (toolName : Str) (enabled : List Enabled) : List Enabled :=
  if toolName ≠ [] then enabled.filter fun c => toolName ∉ c.disabled else enabled

/-- `_validate_calendar_id`: the calendar, and an error -/
def validateCalendarId (calendarId : Str) (enabled : List Enabled) (toolName primaryCalendarId : Str) : Str × Option Str :=
  let allowed := allowedFor toolName enabled
  if calendarId = [] then
    match allowed with
    | [c] => (c.id, none)
    | [] => ([], some ("No calendars allow ".toList ++ toolDisplay toolName ++
        ". Update calendar permissions in Settings.".toList))
    | _ =>
      if primaryCalendarId ≠ [] ∧ (allowed.any fun c => c.id = primaryCalendarId) = true then (primaryCalendarId, none)
      else ([], some ("Multiple calendars available. Please specify calendar_id. Options: ".toList ++ options allowed))
  else if enabled.all fun c => c.id ≠ calendarId then
    ([], some ("Calendar '".toList ++ calendarId ++ "' is not in the enabled set. Options: ".toList ++ options enabled))
  else
    match enabled.find? fun c => toolName ≠ [] && c.id = calendarId && toolName ∈ c.disabled with
    | some c => ([], some ("'".toList ++ c.name ++ "' does not allow ".toList ++ toolDisplay toolName ++
        (if c.role ∈ readOnlyRoles then " (read-only calendar)".toList else []) ++
        ". Update calendar permissions in Settings.".toList))
    | none => (calendarId, none)

/-- the calendars that the tools are made with -/
def toolCalendars (env : Env) (rows : List CalendarConfig) : List Enabled :=
  (getEnabledCalendars env rows).map fun c => { c with disabled := blockWrites c.role c.disabled }

/-- where the tools of `create_calendar_tools` send a call; none when they cannot be made -/
def resolveCall (env : Env) (rows : List CalendarConfig) (toolName calendarId : Str) : Option (Str × Option Str) :=
  (getPrimaryCalendarId rows).map fun primaryCalendarId =>
    let primaryId := if primaryCalendarId ≠ [] then primaryCalendarId else
      match getEnabledCalendars env rows with
      | [c] => c.id
      | _ => []
    validateCalendarId calendarId (toolCalendars env rows) toolName primaryId

/-! ## The plan -/

/-- the listing has the id -/
theorem lookup_liveById (live : List CalendarInfo) (cid : Str) :
    (liveById live).lookup cid = (live.filter fun c => c.id ≠ []).reverse.find? fun c => c.id = cid := by
  rw [liveById, Dict.lookup_foldl_set CalendarInfo.id (fun c => c), List.lookup_nil, Option.or_none]
  exact Option.map_id'

theorem lookup_liveById_some {live : List CalendarInfo} {cid : Str} {info : CalendarInfo}
    (h : (liveById live).lookup cid = some info) : info ∈ live ∧ info.id = cid := by
  rw [lookup_liveById] at h
  have hmem := List.mem_reverse.1 (List.mem_of_find?_eq_some h)
  exact ⟨(List.mem_filter.1 hmem).1, by simpa using List.find?_some h⟩

theorem lookup_liveById_none {live : List CalendarInfo} {cid : Str} :
    (liveById live).lookup cid = none ↔ cid ∉ liveIds live := by
  rw [lookup_liveById, List.find?_eq_none, liveIds]
  constructor
  · intro h hmem
    obtain ⟨c, hc, hid⟩ := List.mem_map.1 hmem
    exact h c (List.mem_reverse.2 hc) (by simpa using hid)
  · intro h c hc hid
    exact h (List.mem_map.2 ⟨c, List.mem_reverse.1 hc, by simpa using hid⟩)

/-- the plan before a primary calendar is added -/
def reconciled (live : Dict CalendarInfo) (primaryId : Str) (savedIds : List Str) : CalendarResyncPlan :=
  savedIds.foldl (CalendarResyncPlan.reconcile live) { primaryId }

theorem reconciled_snoc (live : Dict CalendarInfo) (primaryId : Str) (savedIds : List Str) (cid : Str) :
    reconciled live primaryId (savedIds ++ [cid]) = (reconciled live primaryId savedIds).reconcile live cid := by
  rw [reconciled, List.foldl_append]
  rfl

/-- the ids that the connection cannot see -/
theorem plan_removed (live : Dict CalendarInfo) (primaryId : Str) (savedIds : List Str) (cid : Str) :
    cid ∈ (reconciled live primaryId savedIds).removed ↔
      cid ∈ savedIds ∧ cid ≠ primaryAlias ∧ live.lookup cid = none := by
  induction savedIds using List.reverseRecOn with
  | nil => exact iff_of_false List.not_mem_nil (fun h => List.not_mem_nil h.1)
  | append_singleton savedIds x ih =>
    rw [reconciled_snoc, CalendarResyncPlan.reconcile, List.mem_append, List.mem_singleton]
    by_cases halias : x = primaryAlias
    · rw [if_pos halias, ih]
      constructor
      · exact fun h => ⟨.inl h.1, h.2⟩
      · rintro ⟨hin | rfl, h⟩
        · exact ⟨hin, h⟩
        · exact absurd halias h.1
    · rw [if_neg halias]
      cases hlive : live.lookup x with
      | none =>
        rw [List.mem_append, List.mem_singleton, ih]
        constructor
        · rintro (h | rfl)
          · exact ⟨.inl h.1, h.2⟩
          · exact ⟨.inr rfl, halias, hlive⟩
        · rintro ⟨hin | rfl, h⟩
          · exact .inl ⟨hin, h⟩
          · exact .inr rfl
      | some info =>
        rw [ih]
        constructor
        · exact fun h => ⟨.inl h.1, h.2⟩
        · rintro ⟨hin | rfl, h⟩
          · exact ⟨hin, h⟩
          · rw [hlive] at h
            exact absurd h.2 (Option.some_ne_none _)

/-- what the connection says of a saved id -/
theorem plan_updated (live : Dict CalendarInfo) (primaryId : Str) (savedIds : List Str) (cid : Str) :
    (reconciled live primaryId savedIds).updated.lookup cid =
      if cid ∈ savedIds ∧ cid ≠ primaryAlias then live.lookup cid else none := by
  induction savedIds using List.reverseRecOn with
  | nil => rw [if_neg (fun h => List.not_mem_nil h.1)]; rfl
  | append_singleton savedIds x ih =>
    rw [reconciled_snoc, CalendarResyncPlan.reconcile]
    by_cases hx : cid = x
    · subst hx
      by_cases halias : cid = primaryAlias
      · rw [if_pos halias, ih, if_neg (fun h => h.2 halias), if_neg (fun h => h.2 halias)]
      · rw [if_neg halias, if_pos ⟨List.mem_concat_self, halias⟩]
        cases hlive : live.lookup cid with
        | none => rw [ih, hlive, ite_self]
        | some info => rw [Dict.lookup_set, if_pos rfl]
    · have hiff : cid ∈ savedIds ++ [x] ↔ cid ∈ savedIds := by
        rw [List.mem_append, List.mem_singleton, or_iff_left hx]
      simp only [hiff]
      rw [← ih]
      by_cases halias : x = primaryAlias
      · rw [if_pos halias]
      · rw [if_neg halias]
        cases hlive : live.lookup x with
        | none => rfl
        | some info => rw [Dict.lookup_set, if_neg hx]

theorem plan_primaryId (live : Dict CalendarInfo) (primaryId : Str) (savedIds : List Str) :
    (reconciled live primaryId savedIds).primaryId = primaryId ∧
      (reconciled live primaryId savedIds).addedPrimary = none := by
  induction savedIds using List.reverseRecOn with
  | nil => exact ⟨rfl, rfl⟩
  | append_singleton savedIds x ih =>
    rw [reconciled_snoc, CalendarResyncPlan.reconcile]
    split
    · exact ih
    · split
      · exact ih
      · exact ih

/-! ## The rows after a resync -/

/-- a row as the listing has it -/
def refreshed (live : List CalendarInfo) (primaryId : Str) (row : CalendarConfig) : CalendarConfig :=
  row.refresh (if row.calendarId = primaryAlias then none else (liveById live).lookup row.calendarId) primaryId

theorem not_visible_iff (live : List CalendarInfo) (cid : Str) :
    isCalendarVisible cid (liveIds live) = false ↔ cid ≠ primaryAlias ∧ (liveById live).lookup cid = none := by
  rw [isCalendarVisible, Bool.or_eq_false_iff, decide_eq_false_iff_not, decide_eq_false_iff_not, lookup_liveById_none]

/-- what becomes of a saved row -/
theorem applyRow_eq (live : List CalendarInfo) (primaryId : Str) (added : Option CalendarInfo) {savedIds : List Str}
    {row : CalendarConfig} (hrow : row.calendarId ∈ savedIds) :
    { reconciled (liveById live) primaryId savedIds with addedPrimary := added }.applyRow row =
      if isCalendarVisible row.calendarId (liveIds live) then some (refreshed live primaryId row) else none := by
  simp only [CalendarResyncPlan.applyRow, plan_removed, plan_updated, (plan_primaryId _ _ _).1]
  cases hvisible : isCalendarVisible row.calendarId (liveIds live) with
  | false =>
    have hgone := (not_visible_iff live row.calendarId).1 hvisible
    rw [if_pos ⟨hrow, hgone⟩]
    rfl
  | true =>
    have hstays : ¬(row.calendarId ∈ savedIds ∧ row.calendarId ≠ primaryAlias ∧
        (liveById live).lookup row.calendarId = none) := by
      intro h
      rw [(not_visible_iff live row.calendarId).2 h.2] at hvisible
      exact Bool.false_ne_true hvisible
    have hinfo : (if row.calendarId ∈ savedIds ∧ row.calendarId ≠ primaryAlias then
        (liveById live).lookup row.calendarId else none) =
          if row.calendarId = primaryAlias then none else (liveById live).lookup row.calendarId := by
      by_cases halias : row.calendarId = primaryAlias
      · rw [if_neg (fun h => h.2 halias), if_pos halias]
      · rw [if_pos ⟨hrow, halias⟩, if_neg halias]
    rw [if_neg hstays, if_pos rfl, hinfo]
    rfl

/-- the rows that a resync keeps -/
def keptRows (live : List CalendarInfo) (rows : List CalendarConfig) : List CalendarConfig :=
  rows.filter fun r => isCalendarVisible r.calendarId (liveIds live)

/-- whether a resync adds the primary calendar -/
def AddsPrimary (live : List CalendarInfo) (primaryId : Str) (rows : List CalendarConfig) : Prop :=
  (∀ r ∈ keptRows live rows, r.calendarId ≠ primaryId ∧ r.calendarId ≠ primaryAlias) ∧
    ((∃ r ∈ rows, isCalendarVisible r.calendarId (liveIds live) = false) ∨ keptRows live rows = [])

theorem rows_applied (live : List CalendarInfo) (primaryId : Str) (added : Option CalendarInfo) (rows : List CalendarConfig) :
    rows.filterMap { reconciled (liveById live) primaryId (rows.map CalendarConfig.calendarId) with
      addedPrimary := added }.applyRow = (keptRows live rows).map (refreshed live primaryId) := by
  have hrow : ∀ r ∈ rows, { reconciled (liveById live) primaryId (rows.map CalendarConfig.calendarId) with
      addedPrimary := added }.applyRow r =
        if isCalendarVisible r.calendarId (liveIds live) then some (refreshed live primaryId r) else none := by
    intro r hr
    exact applyRow_eq live primaryId added (List.mem_map_of_mem hr)
  rw [List.filterMap_congr hrow, keptRows]
  clear hrow
  induction rows with
  | nil => rfl
  | cons r rows ih =>
    rw [List.filterMap_cons, List.filter_cons]
    cases isCalendarVisible r.calendarId (liveIds live) with
    | false => exact ih
    | true => exact congrArg _ ih

/-- the ids that the plan keeps are the visible ones -/
theorem kept_ids (live : List CalendarInfo) (primaryId : Str) (rows : List CalendarConfig) :
    (rows.map CalendarConfig.calendarId).filter (fun cid =>
      cid ∉ (reconciled (liveById live) primaryId (rows.map CalendarConfig.calendarId)).removed) =
        (keptRows live rows).map CalendarConfig.calendarId := by
  rw [keptRows, List.filter_map]
  congr 1
  apply List.filter_congr
  intro r hr
  have hid : r.calendarId ∈ rows.map CalendarConfig.calendarId := List.mem_map_of_mem hr
  cases hvisible : isCalendarVisible r.calendarId (liveIds live) with
  | false => simpa [plan_removed, hid] using (not_visible_iff live r.calendarId).1 hvisible
  | true =>
    have hnot : ¬(r.calendarId ≠ primaryAlias ∧ (liveById live).lookup r.calendarId = none) := by
      rw [← not_visible_iff, hvisible]
      exact Bool.true_eq_false_eq_False
    simpa [plan_removed, hid] using hnot

/-- when the plan adds the primary calendar -/
theorem adds_iff (live : List CalendarInfo) (primaryId : Str) (rows : List CalendarConfig) :
    (¬(primaryId ∈ (keptRows live rows).map CalendarConfig.calendarId ∨
        primaryAlias ∈ (keptRows live rows).map CalendarConfig.calendarId) ∧
      ((reconciled (liveById live) primaryId (rows.map CalendarConfig.calendarId)).removed ≠ [] ∨
        (keptRows live rows).map CalendarConfig.calendarId = [])) ↔ AddsPrimary live primaryId rows := by
  have hremoved : (reconciled (liveById live) primaryId (rows.map CalendarConfig.calendarId)).removed ≠ [] ↔
      ∃ r ∈ rows, isCalendarVisible r.calendarId (liveIds live) = false := by
    constructor
    · intro hne
      obtain ⟨cid, hcid⟩ := List.exists_mem_of_ne_nil _ hne
      obtain ⟨hmem, hgone⟩ := (plan_removed _ _ _ _).1 hcid
      obtain ⟨r, hr, rfl⟩ := List.mem_map.1 hmem
      exact ⟨r, hr, (not_visible_iff _ _).2 hgone⟩
    · rintro ⟨r, hr, hgone⟩
      exact List.ne_nil_of_mem ((plan_removed _ _ _ _).2 ⟨List.mem_map_of_mem hr, (not_visible_iff _ _).1 hgone⟩)
  rw [hremoved, List.map_eq_nil_iff, AddsPrimary, not_or]
  simp only [List.mem_map, not_exists, not_and, ← forall_and]

/-- **The rows after a resync**: the rows that the connection sees, refreshed, and at most the primary calendar. -/
theorem resync_eq {live : List CalendarInfo} {primary : CalendarInfo} (hprimary : livePrimary live = some primary)
    (rows : List CalendarConfig) :
    ∃ added, resyncCalendarConfigs live rows = some ((keptRows live rows).map (refreshed live primary.id) ++ added) ∧
      (AddsPrimary live primary.id rows ∧ added = [addedRow primary] ∨ ¬AddsPrimary live primary.id rows ∧ added = []) := by
  have hplan : planCalendarResync (rows.map CalendarConfig.calendarId) live = some (
      let plan := reconciled (liveById live) primary.id (rows.map CalendarConfig.calendarId)
      let kept := (keptRows live rows).map CalendarConfig.calendarId
      if ¬(primary.id ∈ kept ∨ primaryAlias ∈ kept) ∧ (plan.removed ≠ [] ∨ kept = []) then
        { plan with addedPrimary := some primary } else plan) := by
    rw [← kept_ids live primary.id rows, planCalendarResync, hprimary]
    rfl
  rw [resyncCalendarConfigs, hplan, Option.map_some]
  by_cases hadds : AddsPrimary live primary.id rows
  · refine ⟨[addedRow primary], ?_, .inl ⟨hadds, rfl⟩⟩
    rw [if_pos ((adds_iff live primary.id rows).2 hadds), rows_applied]
    rfl
  · refine ⟨[], ?_, .inr ⟨hadds, rfl⟩⟩
    have hnone := (plan_primaryId (liveById live) primary.id (rows.map CalendarConfig.calendarId)).2
    have happlied : rows.filterMap (reconciled (liveById live) primary.id
        (rows.map CalendarConfig.calendarId)).applyRow = (keptRows live rows).map (refreshed live primary.id) :=
      rows_applied live primary.id (reconciled (liveById live) primary.id _).addedPrimary rows
    rw [if_neg (fun h => hadds ((adds_iff live primary.id rows).1 h)), happlied, hnone]
    rfl

/-! ## What a resync keeps -/

theorem refreshed_id (live : List CalendarInfo) (primaryId : Str) (r : CalendarConfig) :
    (refreshed live primaryId r).calendarId = r.calendarId := by
  rw [refreshed]
  cases (if r.calendarId = primaryAlias then none else (liveById live).lookup r.calendarId) <;> rfl

theorem refreshed_tools (live : List CalendarInfo) (primaryId : Str) (r : CalendarConfig) :
    (refreshed live primaryId r).disabledTools = r.disabledTools := by
  rw [refreshed]
  cases (if r.calendarId = primaryAlias then none else (liveById live).lookup r.calendarId) <;> rfl

theorem refreshed_flag (live : List CalendarInfo) (primaryId : Str) (r : CalendarConfig) :
    (refreshed live primaryId r).isPrimary = decide (r.calendarId = primaryId) := by
  rw [refreshed]
  cases (if r.calendarId = primaryAlias then none else (liveById live).lookup r.calendarId) <;> rfl

theorem refresh_refresh (r : CalendarConfig) (info : Option CalendarInfo) (primaryId : Str) :
    (r.refresh info primaryId).refresh info primaryId = r.refresh info primaryId := by
  cases info with
  | none => rfl
  | some info =>
    simp only [CalendarConfig.refresh]
    by_cases hsummary : info.summary = []
    · rw [if_neg (not_not.2 hsummary), if_neg (not_not.2 hsummary)]
      rfl
    · rw [if_pos hsummary, if_pos hsummary]
      rfl

theorem refreshed_refreshed (live : List CalendarInfo) (primaryId : Str) (r : CalendarConfig) :
    refreshed live primaryId (refreshed live primaryId r) = refreshed live primaryId r := by
  rw [refreshed, refreshed_id, refreshed, refresh_refresh]

/-- the row that is added is as the listing has it -/
theorem refreshed_added {live : List CalendarInfo} {primary : CalendarInfo}
    (hagree : ∀ c ∈ live, c.id = primary.id → c.accessRole = primary.accessRole ∧ c.summary = primary.summary) :
    refreshed live primary.id (addedRow primary) = addedRow primary := by
  rw [refreshed]
  split
  · simp [CalendarConfig.refresh, addedRow]
  · cases hinfo : (liveById live).lookup (addedRow primary).calendarId with
    | none => simp [CalendarConfig.refresh, addedRow]
    | some info =>
      obtain ⟨hmem, hid⟩ := lookup_liveById_some hinfo
      obtain ⟨hrole, hsummary⟩ := hagree info hmem hid
      by_cases hempty : primary.summary = []
      · simp [CalendarConfig.refresh, addedRow, hrole, hsummary, hempty]
      · simp [CalendarConfig.refresh, addedRow, hrole, hsummary, hempty]

theorem livePrimary_spec {live : List CalendarInfo} {primary : CalendarInfo} (h : livePrimary live = some primary) :
    primary ∈ live ∧ primary.id ≠ [] ∧ primary.id ∈ liveIds live := by
  have hmem := List.mem_of_find?_eq_some h
  have hid : primary.id ≠ [] := by
    have hp := List.find?_some h
    rw [Bool.and_eq_true, decide_eq_true_eq] at hp
    exact hp.2
  exact ⟨hmem, hid, List.mem_map.2 ⟨primary, List.mem_filter.2 ⟨hmem, decide_eq_true hid⟩, rfl⟩⟩

/-- what holds of the rows after a resync: every row is reachable, and the flag is on the primary calendar only -/
structure Resynced (live : List CalendarInfo) (primary : CalendarInfo) (rows : List CalendarConfig) : Prop where
  unique : (rows.map CalendarConfig.calendarId).Nodup
  visible : ∀ r ∈ rows, isCalendarVisible r.calendarId (liveIds live) = true
  flag : ∀ r ∈ rows, r.isPrimary = decide (r.calendarId = primary.id)
  nonempty : rows ≠ []

theorem mem_keptRows {live : List CalendarInfo} {rows : List CalendarConfig} {r : CalendarConfig} :
    r ∈ keptRows live rows ↔ r ∈ rows ∧ isCalendarVisible r.calendarId (liveIds live) = true := List.mem_filter

/-- the ids of the rows that stay -/
theorem refreshed_ids (live : List CalendarInfo) (primaryId : Str) (rows : List CalendarConfig) :
    (rows.map (refreshed live primaryId)).map CalendarConfig.calendarId = rows.map CalendarConfig.calendarId := by
  rw [List.map_map]
  exact List.map_congr_left fun r _ => refreshed_id live primaryId r

theorem resynced {live : List CalendarInfo} {primary : CalendarInfo} (hprimary : livePrimary live = some primary)
    (saved : Saved) {rows : List CalendarConfig} (h : resyncCalendarConfigs live saved.rows = some rows) :
    Resynced live primary rows := by
  obtain ⟨added, heq, hadded⟩ := resync_eq hprimary saved.rows
  obtain ⟨_, _, hlive⟩ := livePrimary_spec hprimary
  rw [heq] at h
  rw [← Option.some.inj h]
  have hkept : ((keptRows live saved.rows).map CalendarConfig.calendarId).Nodup :=
    saved.unique.sublist (List.filter_sublist.map _)
  refine ⟨?_, ?_, ?_, ?_⟩
  · rw [List.map_append, refreshed_ids]
    obtain ⟨hadds, rfl⟩ | ⟨_, rfl⟩ := hadded
    · apply List.Nodup.append hkept (List.nodup_singleton _)
      intro cid hcid hown
      obtain ⟨r, hr, rfl⟩ := List.mem_map.1 hcid
      exact (hadds.1 r hr).1 (List.mem_singleton.1 hown)
    · rw [List.map_nil, List.append_nil]
      exact hkept
  · intro r hr
    obtain hr | hr := List.mem_append.1 hr
    · obtain ⟨r0, hr0, rfl⟩ := List.mem_map.1 hr
      rw [refreshed_id]
      exact (mem_keptRows.1 hr0).2
    · obtain ⟨_, rfl⟩ | ⟨_, rfl⟩ := hadded
      · rw [List.mem_singleton.1 hr]
        exact Bool.or_eq_true_iff.2 (.inr (decide_eq_true hlive))
      · exact absurd hr List.not_mem_nil
  · intro r hr
    obtain hr | hr := List.mem_append.1 hr
    · obtain ⟨r0, _, rfl⟩ := List.mem_map.1 hr
      rw [refreshed_flag, refreshed_id]
    · obtain ⟨_, rfl⟩ | ⟨_, rfl⟩ := hadded
      · rw [List.mem_singleton.1 hr]
        exact (decide_eq_true rfl).symm
      · exact absurd hr List.not_mem_nil
  · intro hnil
    rw [List.append_eq_nil_iff, List.map_eq_nil_iff] at hnil
    obtain ⟨_, rfl⟩ | ⟨hnot, _⟩ := hadded
    · exact List.cons_ne_nil _ _ hnil.2
    · apply hnot
      refine ⟨?_, .inr hnil.1⟩
      rw [hnil.1]
      exact fun r hr => absurd hr List.not_mem_nil

/-- a resync of rows that are as the listing has them changes nothing -/
theorem resync_fixed {live : List CalendarInfo} {primary : CalendarInfo} (hprimary : livePrimary live = some primary)
    {rows : List CalendarConfig} (h : Resynced live primary rows)
    (hfresh : ∀ r ∈ rows, refreshed live primary.id r = r) : resyncCalendarConfigs live rows = some rows := by
  obtain ⟨added, heq, hadded⟩ := resync_eq hprimary rows
  have hkept : keptRows live rows = rows := List.filter_eq_self.2 h.visible
  have hsame : rows.map (refreshed live primary.id) = rows := by
    rw [List.map_congr_left hfresh, List.map_id']
  obtain ⟨hadds, _⟩ | ⟨_, rfl⟩ := hadded
  · exfalso
    obtain ⟨r, hr, hgone⟩ | hnone := hadds.2
    · rw [h.visible r hr] at hgone
      exact Bool.true_eq_false_eq_False hgone
    · rw [hkept] at hnone
      exact h.nonempty hnone
  · rw [heq, hkept, hsame, List.append_nil]

/-! ## The calendar of a call -/

theorem mem_blockWrites_twice (role : Str) (disabled : List Str) (tool : Str) :
    tool ∈ blockWrites role (blockWrites role disabled) ↔ tool ∈ blockWrites role disabled := by
  by_cases hrole : role ∈ readOnlyRoles
  · simp only [blockWrites, if_pos hrole, List.mem_append, List.mem_filter, decide_eq_true_eq]
    tauto
  · simp only [blockWrites, if_neg hrole]

/-- the rows of the calendars where a tool is allowed -/
def allowedRows (env : Env) (toolName : Str) (rows : List CalendarConfig) : List CalendarConfig :=
  rows.filter fun r => toolName ∉ (r.enabled env).disabled

/-- where a tool is allowed -/
theorem allowed_ids (env : Env) {rows : List CalendarConfig} (hne : rows ≠ []) {toolName : Str} (htool : toolName ≠ []) :
    (allowedFor toolName (toolCalendars env rows)).map Enabled.id =
      (allowedRows env toolName rows).map CalendarConfig.calendarId := by
  rw [allowedFor, if_pos htool, toolCalendars, getEnabledCalendars, if_neg hne, List.map_map, List.filter_map,
    List.map_map, allowedRows]
  have hcongr : (fun r => toolName ∉ (r.enabled env).disabled : CalendarConfig → Bool) =
      (fun c : Enabled => decide (toolName ∉ c.disabled)) ∘
        ((fun c : Enabled => { c with disabled := blockWrites c.role c.disabled }) ∘ CalendarConfig.enabled env) := by
    funext r
    exact decide_eq_decide.2 (not_congr (mem_blockWrites_twice _ _ _).symm)
  rw [hcongr]
  rfl

/-- one row has the id -/
theorem filter_unique {rows : List CalendarConfig} (hunique : (rows.map CalendarConfig.calendarId).Nodup)
    {r : CalendarConfig} (hr : r ∈ rows) {p : CalendarConfig → Bool} (hp : ∀ x ∈ rows, p x = true ↔ x.calendarId = r.calendarId) :
    rows.filter p = [r] := by
  obtain ⟨a, b, rfl⟩ := List.append_of_mem hr
  rw [List.map_append, List.map_cons] at hunique
  have hother := List.nodup_middle.1 hunique
  rw [List.nodup_cons, ← List.map_append] at hother
  have hnone : ∀ x ∈ a ++ b, ¬p x = true := by
    intro x hx hpx
    have hin : x ∈ a ++ r :: b := by
      rw [List.mem_append, List.mem_cons]
      exact (List.mem_append.1 hx).imp id .inr
    exact hother.1 ((hp x hin).1 hpx ▸ List.mem_map_of_mem hx)
  rw [List.filter_append, List.filter_cons_of_pos ((hp r hr).2 rfl),
    List.filter_eq_nil_iff.2 fun x hx => hnone x (List.mem_append_left _ hx),
    List.filter_eq_nil_iff.2 fun x hx => hnone x (List.mem_append_right _ hx), List.nil_append]

/-- the flagged rows: the one of the primary calendar -/
theorem flagged_rows {live : List CalendarInfo} {primary : CalendarInfo} {rows : List CalendarConfig}
    (h : Resynced live primary rows) :
    (∃ r, rows.filter CalendarConfig.isPrimary = [r] ∧ r.calendarId = primary.id) ∨
      primary.id ∉ rows.map CalendarConfig.calendarId ∧ rows.filter CalendarConfig.isPrimary = [] := by
  by_cases hin : primary.id ∈ rows.map CalendarConfig.calendarId
  · left
    obtain ⟨r, hr, hid⟩ := List.mem_map.1 hin
    refine ⟨r, filter_unique h.unique hr ?_, hid⟩
    intro x hx
    rw [h.flag x hx, decide_eq_true_eq, hid]
  · right
    refine ⟨hin, List.filter_eq_nil_iff.2 ?_⟩
    intro x hx hflag
    rw [h.flag x hx, decide_eq_true_eq] at hflag
    exact hin (hflag ▸ List.mem_map_of_mem hx)

/-- the flagged calendar -/
theorem getPrimary_eq {live : List CalendarInfo} {primary : CalendarInfo} {rows : List CalendarConfig}
    (h : Resynced live primary rows) :
    getPrimaryCalendarId rows =
      some (if primary.id ∈ rows.map CalendarConfig.calendarId then primary.id else []) := by
  obtain ⟨r, hrows, hid⟩ | ⟨hnot, hrows⟩ := flagged_rows h
  · have hr : r ∈ rows := (List.mem_filter.1 (hrows ▸ List.mem_singleton_self r)).1
    rw [getPrimaryCalendarId, hrows, ← hid, if_pos (List.mem_map_of_mem hr)]
  · rw [getPrimaryCalendarId, hrows, if_neg hnot]

theorem flagged_le_one {live : List CalendarInfo} {primary : CalendarInfo} {rows : List CalendarConfig}
    (h : Resynced live primary rows) : (rows.filter CalendarConfig.isPrimary).length ≤ 1 := by
  obtain ⟨r, hrows, _⟩ | ⟨_, hrows⟩ := flagged_rows h
  · rw [hrows, List.length_singleton]
  · rw [hrows]
    exact Nat.zero_le 1

/-- a call goes to the flagged calendar, if the tool is allowed there -/
theorem resolve_flagged (env : Env) {live : List CalendarInfo} {primary : CalendarInfo} {rows : List CalendarConfig}
    (h : Resynced live primary rows) (hid : primary.id ≠ []) {toolName : Str} (htool : toolName ≠ [])
    (hallowed : primary.id ∈ (allowedRows env toolName rows).map CalendarConfig.calendarId) :
    resolveCall env rows toolName [] = some (primary.id, none) := by
  have hsaved : primary.id ∈ rows.map CalendarConfig.calendarId := (List.filter_sublist.map _).subset hallowed
  rw [← allowed_ids env h.nonempty htool] at hallowed
  rw [resolveCall, getPrimary_eq h, if_pos hsaved, Option.map_some]
  simp only [if_pos hid, validateCalendarId, if_true]
  obtain ⟨c, hc, hcid⟩ := List.mem_map.1 hallowed
  generalize allowedFor toolName (toolCalendars env rows) = allowed at hc
  obtain _ | ⟨d, _ | ⟨e, l⟩⟩ := allowed
  · exact absurd hc List.not_mem_nil
  · rw [← List.mem_singleton.1 hc, ← hcid]
  · have hany : primary.id ≠ [] ∧ ((d :: e :: l).any fun x => x.id = primary.id) = true :=
      ⟨hid, List.any_eq_true.2 ⟨c, hc, decide_eq_true hcid⟩⟩
    exact congrArg some (if_pos hany)

/-- a call goes to the only calendar where the tool is allowed -/
theorem resolve_only (env : Env) {live : List CalendarInfo} {primary : CalendarInfo} {rows : List CalendarConfig}
    (h : Resynced live primary rows) {toolName : Str} (htool : toolName ≠ []) {r : CalendarConfig}
    (honly : allowedRows env toolName rows = [r]) : resolveCall env rows toolName [] = some (r.calendarId, none) := by
  have hids := allowed_ids env h.nonempty htool
  rw [honly, List.map_singleton, List.map_eq_singleton_iff] at hids
  obtain ⟨c, hc, hcid⟩ := hids
  rw [resolveCall, getPrimary_eq h, Option.map_some]
  simp only [validateCalendarId, if_true, hc, hcid]

/-- **A resync leaves a usable configuration.** -/
theorem resync_usable (env : Env) (live : List CalendarInfo) (saved : Saved)
    (htrusted : ∃ c ∈ live, c.primary = true ∧ c.id ≠ []) :
    ∃ primary rows, livePrimary live = some primary ∧ resyncCalendarConfigs live saved.rows = some rows ∧
      (∀ r ∈ rows, isCalendarVisible r.calendarId (liveIds live) = true) ∧ rows ≠ [] ∧
      (rows.map CalendarConfig.calendarId).Nodup ∧ (rows.filter CalendarConfig.isPrimary).length ≤ 1 ∧
      (∀ r0 ∈ saved.rows, isCalendarVisible r0.calendarId (liveIds live) = true →
        ∃ r ∈ rows, r.calendarId = r0.calendarId ∧ r.disabledTools = r0.disabledTools) ∧
      (∀ toolName ≠ [], primary.id ∈ (allowedRows env toolName rows).map CalendarConfig.calendarId →
        resolveCall env rows toolName [] = some (primary.id, none)) ∧
      (∀ toolName ≠ [], ∀ r, allowedRows env toolName rows = [r] → r.calendarId = primaryAlias →
        resolveCall env rows toolName [] = some (primaryAlias, none)) ∧
      ((∀ c ∈ live, c.id = primary.id → c.accessRole = primary.accessRole ∧ c.summary = primary.summary) →
        resyncCalendarConfigs live rows = some rows) := by
  obtain ⟨primary, hprimary⟩ : ∃ primary, livePrimary live = some primary := by
    obtain ⟨c, hc, hflag, hid⟩ := htrusted
    apply Option.isSome_iff_exists.1
    rw [livePrimary, List.find?_isSome]
    exact ⟨c, hc, by rw [hflag, decide_eq_true hid]; rfl⟩
  obtain ⟨added, heq, hadded⟩ := resync_eq hprimary saved.rows
  have h := resynced hprimary saved heq
  obtain ⟨_, hid, _⟩ := livePrimary_spec hprimary
  refine ⟨primary, _, hprimary, heq, h.visible, h.nonempty, h.unique, flagged_le_one h, ?_, ?_, ?_, ?_⟩
  · intro r0 hr0 hvisible
    refine ⟨refreshed live primary.id r0, ?_, refreshed_id _ _ _, refreshed_tools _ _ _⟩
    exact List.mem_append_left _ (List.mem_map_of_mem (mem_keptRows.2 ⟨hr0, hvisible⟩))
  · intro toolName htool hallowed
    exact resolve_flagged env h hid htool hallowed
  · intro toolName htool r honly halias
    rw [resolve_only env h htool honly, halias]
  · intro hagree
    apply resync_fixed hprimary h
    intro r hr
    obtain hr | hr := List.mem_append.1 hr
    · obtain ⟨r0, _, rfl⟩ := List.mem_map.1 hr
      exact refreshed_refreshed live primary.id r0
    · obtain ⟨_, rfl⟩ | ⟨_, rfl⟩ := hadded
      · rw [List.mem_singleton.1 hr]
        exact refreshed_added hagree
      · exact absurd hr List.not_mem_nil

/-- a `json.loads` that knows one text -/
def plainEnv : Env where
  loads _ := some (.arr [.str "calendar_create_event".toList])
  str v := match v with
    | .str t => t
    | _ => []

def owner : CalendarInfo := ⟨"owner@example.com".toList, "Owner".toList, true, "owner".toList⟩

def crew : CalendarInfo := ⟨"crew@example.com".toList, "Crew".toList, false, "writer".toList⟩

def rowOf (calendarId disabledTools : Str) (isPrimary : Bool) : CalendarConfig :=
  ⟨calendarId, calendarId, disabledTools, "owner".toList, isPrimary⟩

/-- the primary calendar and another one, saved before with every tool allowed -/
def bothSaved : Saved := ⟨[rowOf owner.id [] true, rowOf crew.id [] false], by decide⟩

theorem resync_usable_both : ∃ primary rows, livePrimary [owner, crew] = some primary ∧
    resyncCalendarConfigs [owner, crew] bothSaved.rows = some rows ∧
    (∀ r ∈ rows, isCalendarVisible r.calendarId (liveIds [owner, crew]) = true) ∧ rows ≠ [] := by
  obtain ⟨primary, rows, hprimary, hrows, hvisible, hne, _⟩ :=
    resync_usable plainEnv [owner, crew] bothSaved ⟨owner, List.mem_cons_self, rfl, by decide⟩
  exact ⟨primary, rows, hprimary, hrows, hvisible, hne⟩

/-- the calendar that a call without `calendar_id` to create an event goes to after a resync, and whether it is an error -/
def createdOn (live : List CalendarInfo) (rows : List CalendarConfig) : Option (Str × Bool) :=
  ((resyncCalendarConfigs live rows).bind fun rows => resolveCall plainEnv rows "calendar_create_event".toList []).map
    fun r => (r.1, r.2.isSome)

/-- the primary calendar under its alias loses the flag, a tool that is disabled there goes elsewhere, and a listing that has
the primary calendar twice is not settled by one resync -/
theorem primary_not_default :
    createdOn [owner, crew] [rowOf primaryAlias [] true, rowOf crew.id [] false] = some ([], true) ∧
    createdOn [owner, crew] [rowOf owner.id "x".toList true, rowOf crew.id [] false] = some (crew.id, false) ∧
    ((resyncCalendarConfigs [owner, { owner with summary := "Me".toList }] []).bind fun rows =>
      resyncCalendarConfigs [owner, { owner with summary := "Me".toList }] rows) ≠
        resyncCalendarConfigs [owner, { owner with summary := "Me".toList }] [] := by
  decide +kernel

end Clawbolt.Calendar

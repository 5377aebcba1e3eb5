/-
The events of the saved calendars in a range (`list_events` of integrations/calendar/service.py, `calendar_list_events` and
`_format_event_list` of integrations/calendar/factory.py).

What a calendar holds in the range, or what the request for it fails with, is a parameter; Google answers a request with
the first events, at most `maxResults`. So are `datetime.fromisoformat` and `strftime`. A start that Google sends has an
offset.

- `fetchEvents_ok`, `fetchEvents_fails`: the calendars that answer, and those that end the call;
- `formatEventList_accounts`: what a listing shows, and what it counts as left out;
- `events_accounted`: every event in the range is listed or counted.
-/
import Mathlib.Tactic
import Clawbolt.Core.Dumps
import Clawbolt.Core.Orders
import Clawbolt.History.Message
import Clawbolt.Comparison.Ids
import Clawbolt.Calendar.Resync

namespace Clawbolt.Calendar

open Text (Str)
open Clawbolt.History (Datetime)
open Clawbolt.Checks (strLe weak_strLe)

/-! ## Events -/

structure CalendarEventData where
  id : Str
  title : Str
  description : Str
  start : Datetime
  /-- `end` -/
  stop : Datetime
  location : Str
  allDay : Bool
  status : Str

/-- an item of a response -/
structure Item where
  id : Option Str := none
  summary : Option Str := none
  description : Option Str := none
  location : Option Str := none
  status : Option Str := none
  start : Dict Str
  stop : Dict Str

structure Clock where
  /-- the text of the error when it raises -/
  fromisoformat : Str → Except Str Datetime
  /-- a format and a wall clock -/
  strftime : Str → ℤ → Str

/-- `d.replace(tzinfo=UTC)` -/
def atUtc (d : Datetime) : Datetime := { d with offset := some 0 }

/-- `_parse_event`, none for a malformed item -/
def parseEvent (clock : Clock) (item : Item) : Option CalendarEventData := do
  let allDay := item.start.has "date".toList && !item.start.has "dateTime".toList
  let (start, stop) ←
    if allDay then do
      let date ← item.start.lookup "date".toList
      let start ← (clock.fromisoformat date).toOption
      let stop ← (clock.fromisoformat ((item.stop.lookup "date".toList).getD date)).toOption
      some (atUtc start, atUtc stop)
    else do
      let start ← (clock.fromisoformat ((item.start.lookup "dateTime".toList).getD [])).toOption
      let stop ← (clock.fromisoformat ((item.stop.lookup "dateTime".toList).getD [])).toOption
      some (start, stop)
  some {
    id := item.id.getD []
    title := item.summary.getD "(No title)".toList
    description := item.description.getD []
    start
    stop
    location := item.location.getD []
    allDay
    status := item.status.getD "confirmed".toList }

inductive Failure where
  | reconnectRequired
  | timeout
  /-- `TokenRefreshUnavailable` -/
  | refreshUnavailable
  /-- the status, and the message that `parse_google_api_error` reads in the body -/
  | http (status : ℕ) (message : Str)
  | other (text : Str)
deriving DecidableEq

def maxResults : ℕ := 250

/-- `list_events` of the service: the one page that is asked for -/
def listEvents (clock : Clock) (held : Except Failure (List Item)) : Except Failure (List CalendarEventData) :=
  held.map fun items => (items.take maxResults).filterMap (parseEvent clock)

/-! ## The text of a listing -/

/-- `_MAX_LISTED_EVENTS` -/
def maxListedEvents : ℕ := 60

/-- `_DESCRIPTION_CHARS` -/
def descriptionChars : ℕ := 100

/-- `_format_event_line` -/
def formatEventLine (clock : Clock) (event : CalendarEventData) : Str :=
  (if event.allDay then "- all day ".toList ++ event.title
    else
      let sameDay := event.stop.date = event.start.date
      "- ".toList ++ clock.strftime "%H:%M".toList event.start.wall ++ "-".toList ++
        clock.strftime (if sameDay then "%H:%M".toList else "%Y-%m-%d %H:%M".toList) event.stop.wall ++ " ".toList ++
        event.title) ++
    (if event.location = [] then [] else " @ ".toList ++ event.location) ++
    (if event.description = [] then []
      else " | ".toList ++ event.description.take descriptionChars ++
        (if descriptionChars < event.description.length then "...".toList else [])) ++
    " | id: ".toList ++ event.id

/-- `{name: i for i, name in enumerate(calendar_order)}` -/
def rankDict (calendarOrder : List Str) : Dict ℕ :=
  calendarOrder.zipIdx.foldl (fun rank p => Dict.set p.1 p.2 rank) []

/-- `rank.get(name, len(rank))` -/
def rankOf (rank : Dict ℕ) (name : Str) : ℕ := (rank.lookup name).getD rank.length

/-- the order of calendars -/
def calendarLe (rank : Dict ℕ) : Str → Str → Bool :=
  Orders.andThen (Orders.onKey (rankOf rank) fun i j => decide (i ≤ j)) strLe

/-- the order of events: the day as the heading prints it, all-day events first, start, calendar, title, id -/
def eventLe (rank : Dict ℕ) : Str × CalendarEventData → Str × CalendarEventData → Bool :=
  Orders.andThen (Orders.onKey (fun p => p.2.start.date) fun d e => decide (d ≤ e)) <|
  Orders.andThen (Orders.onKey (fun p => !p.2.allDay) fun b c => !b || c) <|
  Orders.andThen (Orders.onKey (fun p => p.2.start.instant) fun s t => decide (s ≤ t)) <|
  Orders.andThen (Orders.onKey Prod.fst (calendarLe rank)) <|
  Orders.andThen (Orders.onKey (fun p => p.2.title) strLe) (Orders.onKey (fun p => p.2.id) strLe)

def label (name : Str) : Str := "[".toList ++ name ++ "]".toList

def dayHeading (clock : Clock) (event : CalendarEventData) : Str := clock.strftime "%Y-%m-%d %a".toList event.start.wall

/-- the lines of events, `cal` and `day` being the headings before them -/
def bodyLines (clock : Clock) (showLabel : Bool) : Option Str → Option Str → List (Str × CalendarEventData) → List Str
  | _, _, [] => []
  | cal, day, (name, event) :: events =>
    let labelled := showLabel && cal ≠ some name
    let day := if labelled then none else day
    (if labelled then [label name] else []) ++
      (if day = some (dayHeading clock event) then [] else [dayHeading clock event]) ++
      formatEventLine clock event :: bodyLines clock showLabel (some name) (some (dayHeading clock event)) events

def number (n : ℕ) : Str := (toString n).toList

/-- the first line -/
def header (total listed hidden : ℕ) : Str :=
  if hidden = 0 then "Found ".toList ++ number total ++ " event(s):".toList
  else "Found ".toList ++ number total ++ " event(s), showing the first ".toList ++ number listed ++ " by start time:".toList

/-- how many events of each calendar are hidden -/
def perCal (hidden : List (Str × CalendarEventData)) : Dict ℕ :=
  hidden.foldl (fun perCal p => Dict.set p.1 ((perCal.lookup p.1).getD 0 + 1) perCal) []

/-- the last line, when there are hidden events -/
def footer (clock : Clock) (rank : Dict ℕ) (hidden : List (Str × CalendarEventData)) : List Str :=
  match hidden with
  | [] => []
  | first :: _ =>
    let counts := Text.join ", ".toList ((Orders.sorted (Orders.onKey Prod.fst (calendarLe rank)) (perCal hidden)).map
      fun p => p.1 ++ " ".toList ++ number p.2)
    ["(".toList ++ number hidden.length ++ " more event(s) from ".toList ++
      clock.strftime "%Y-%m-%d".toList first.2.start.wall ++ " on not shown: ".toList ++ counts ++
      ". Narrow the date range or pass calendar_id to see them.)".toList]

/-- `_format_event_list` -/
def formatEventList (clock : Clock) (events : List (Str × CalendarEventData)) (calendarOrder : List Str) (showLabel : Bool)
    (limit : ℕ) : Str :=
  let rank := rankDict calendarOrder
  let ordered := Orders.sorted (eventLe rank) events
  let shown := ordered.take limit
  let hidden := ordered.drop limit
  let byCalendar := Orders.sorted (Orders.onKey Prod.fst (calendarLe rank)) shown
  Text.join "\n".toList (header ordered.length shown.length hidden.length ::
    (bodyLines clock showLabel none none byCalendar ++ footer clock rank hidden))

/-! ## The tool -/

inductive ToolErrorKind where
  | validation
  | notFound
  | service
  | auth
  | permission
deriving DecidableEq

structure ToolResult where
  content : Str
  isError : Bool := false
  errorKind : Option ToolErrorKind := none
  hint : Str := []
deriving DecidableEq

/-- what the tools are made with -/
structure Tools where
  enabled : List Enabled
  primaryId : Str
  connectedAccount : Str
  /-- the offset of the user's time zone at a wall clock -/
  defaultTz : ℤ → ℤ

/-- `_parse_dt` -/
def parseDt (clock : Clock) (defaultTz : ℤ → ℤ) (value : Str) : Except Str Datetime :=
  (clock.fromisoformat value).map fun d =>
    match d.offset with
    | none => { d with offset := some (defaultTz d.wall) }
    | some _ => d

/-- `_account_label` -/
def accountLabel (connectedAccount : Str) : Str :=
  if connectedAccount ≠ [] then connectedAccount
  else "an unrecorded account (connected before Clawbolt tracked which account)".toList

/-- `_not_visible_guidance` -/
def notVisibleGuidance (connectedAccount : Str) : Str :=
  ("Do not guess which Google account owns it and do not retry. Tell the user " ++
    "this saved calendar is not visible to the Google account connected to Google Calendar (").toList ++
    accountLabel connectedAccount ++
    ("), and that they can either reconnect Google Calendar with the account that owns it, or re-pick " ++
      "their calendars in the Google Calendar card on the Integrations page.").toList

/-- `_calendar_not_visible_result` -/
def calendarNotVisibleResult (calendarId calendarName action connectedAccount : Str) : ToolResult where
  content := "Could not ".toList ++ action ++ ": the saved calendar '".toList ++ calendarName ++ "' (id: ".toList ++
    calendarId ++ ") is not visible to the Google account currently connected to Google Calendar (".toList ++
    accountLabel connectedAccount ++ "). It may belong to a different Google account than the one connected now.".toList
  isError := true
  errorKind := some .notFound
  hint := notVisibleGuidance connectedAccount

/-- `_reconnect_result` -/
def reconnectResult : ToolResult where
  content := "Calendar disconnected. Please reconnect Google Calendar in Settings.".toList
  isError := true
  errorKind := some .auth
  hint := ("The connection has expired or was revoked. Do not retry. " ++
    "Use manage_integration(action='connect', target='google_calendar') to generate " ++
    "a connection link for the user. If it reports the integration is still " ++
    "connected, run manage_integration(action='disconnect', target='google_calendar') " ++
    "first. The user can also reconnect in Settings > Integrations.").toList

/-- `format_google_api_message` -/
def formatGoogleApiMessage (message : Str) : Str :=
  if message.length ≤ 500 then message else Text.rstrip (message.take 500) ++ "...".toList

/-- `_handle_http_error` -/
def handleHttpError (status : ℕ) (message action : Str) : ToolResult :=
  if status = 401 then reconnectResult
  else if status = 403 then {
    content := if message ≠ [] then "Calendar denied the request while trying to ".toList ++ action ++ ": ".toList ++
        formatGoogleApiMessage message
      else "Calendar denied the request while trying to ".toList ++ action ++ " (HTTP 403).".toList
    isError := true
    errorKind := some .permission }
  else if status = 404 then {
    content := "Not found while trying to ".toList ++ action ++ ". The calendar or event may no longer exist.".toList
    isError := true
    errorKind := some .notFound }
  else if status = 429 then {
    content := "Calendar rate limited. Try again shortly.".toList
    isError := true
    errorKind := some .service
    hint := "Wait a moment before retrying calendar operations.".toList }
  else {
    content := "Calendar service error (".toList ++ number status ++ ") while trying to ".toList ++ action ++ ".".toList
    isError := true
    errorKind := some .service }

/-- what `calendar_list_events` answers to a failure -/
def Failure.result : Failure → ToolResult
  | .reconnectRequired => reconnectResult
  | .timeout => ⟨"Calendar service unavailable (timeout). Try again shortly.".toList, true, some .service, []⟩
  | .refreshUnavailable => ⟨"Calendar could not renew its access while trying to list events.".toList, true, some .service,
      "Another refresh of this connection was in progress. Retry this call shortly.".toList⟩
  | .http status message => handleHttpError status message "list events".toList
  | .other text => ⟨"Calendar error: ".toList ++ text, true, some .service, []⟩

/-- a 404 -/
def Failure.notFound : Failure → Bool
  | .http status _ => status = 404
  | _ => false

def listEventsTool : Str := "calendar_list_events".toList

/-- `_cal_name_map` -/
def Tools.nameOf (t : Tools) (id : Str) : Str := ((t.enabled.reverse.find? fun c => c.id = id).map Enabled.name).getD []

/-- `_disabled_map` -/
def Tools.disabledOn (t : Tools) (id : Str) : List Str :=
  ((t.enabled.reverse.find? fun c => c.id = id).map Enabled.disabled).getD []

/-- the calendars to query, by id and name -/
def queryCals (t : Tools) (calendarId : Str) : Except ToolResult (List (Str × Str)) :=
  if calendarId ≠ [] then
    match validateCalendarId calendarId t.enabled listEventsTool t.primaryId with
    | (_, some err) => .error ⟨err, true, some .validation, []⟩
    | (id, none) => .ok [(id, t.nameOf id)]
  else .ok ((t.enabled.filter fun c => listEventsTool ∉ t.disabledOn c.id).map fun c => (c.id, c.name))

/-- the loop over the calendars: the events, each with the name of its calendar, and the calendars that were skipped -/
def fetchEvents (clock : Clock) (t : Tools) (held : Str → Except Failure (List Item)) (many : Bool) :
    List (Str × Str) → List (Str × CalendarEventData) → List Str →
      Except ToolResult (List (Str × CalendarEventData) × List Str)
  | [], events, skipped => .ok (events, skipped)
  | (id, name) :: cals, events, skipped =>
    match listEvents clock (held id) with
    | .ok found => fetchEvents clock t held many cals (events ++ found.map fun e => (name, e)) skipped
    | .error failure =>
      if failure.notFound then
        if many then fetchEvents clock t held many cals events (skipped ++ [name])
        else .error (calendarNotVisibleResult id (t.nameOf id) "list events".toList t.connectedAccount)
      else .error failure.result

/-- `_skipped_note` -/
def skippedNote (t : Tools) (skipped : List Str) : Str :=
  if skipped = [] then []
  else "\n(Skipped ".toList ++ number skipped.length ++
    " saved calendar(s) not visible to the connected Google account (".toList ++ accountLabel t.connectedAccount ++
    "): ".toList ++ Text.join ", ".toList skipped ++ ". They may belong to a different Google account. ".toList ++
    notVisibleGuidance t.connectedAccount ++ ")".toList

/-- no saved calendar is visible -/
def noneVisibleResult (t : Tools) (skipped : List Str) : ToolResult where
  content := "Could not list events: none of the ".toList ++ number skipped.length ++ " saved calendar(s) (".toList ++
    Text.join ", ".toList skipped ++ ") are visible to the Google account connected to Google Calendar (".toList ++
    accountLabel t.connectedAccount ++ "). They may belong to a different Google account.".toList
  isError := true
  errorKind := some .notFound
  hint := notVisibleGuidance t.connectedAccount

/-- what is answered to the events that were found and the calendars that were skipped -/
def answer (clock : Clock) (t : Tools) (cals : List (Str × Str)) (startDate endDate : Str)
    (events : List (Str × CalendarEventData)) (skipped : List Str) : ToolResult :=
  if skipped ≠ [] ∧ skipped.length = cals.length then noneVisibleResult t skipped
  else if events = [] then {
    content := "No events found between ".toList ++ startDate ++ " and ".toList ++ endDate ++ ".".toList ++
      skippedNote t skipped }
  else {
    content := formatEventList clock events (cals.map Prod.snd) (1 < cals.length) maxListedEvents ++
      skippedNote t skipped }

/-- `calendar_list_events`, with what each calendar holds between two times -/
def calendarListEvents (clock : Clock) (t : Tools) (held : Datetime → Datetime → Str → Except Failure (List Item))
    (startDate endDate calendarId : Str) : ToolResult :=
  let invalid (text : Str) : ToolResult :=
    ⟨"Invalid date format: ".toList ++ text ++ ". Use ISO 8601 (e.g. 2026-03-23T00:00:00).".toList, true, some .validation, []⟩
  match parseDt clock t.defaultTz startDate, parseDt clock t.defaultTz endDate with
  | .error text, _ => invalid text
  | .ok _, .error text => invalid text
  | .ok timeMin, .ok timeMax =>
    match queryCals t calendarId with
    | .error result => result
    | .ok cals =>
      match fetchEvents clock t (held timeMin timeMax) (1 < cals.length) cals [] [] with
      | .error result => result
      | .ok (events, skipped) => answer clock t cals startDate endDate events skipped

/-! ## The order of a listing -/

theorem weak_calendarLe (rank : Dict ℕ) : Orders.Weak (calendarLe rank) := (Orders.weak_le.key _).andThen weak_strLe

theorem weak_eventLe (rank : Dict ℕ) : Orders.Weak (eventLe rank) := by
  have hbool : Orders.Weak fun b c : Bool => !b || c := ⟨by decide, by decide⟩
  exact (Orders.weak_le.key _).andThen ((hbool.key _).andThen ((Orders.weak_le.key _).andThen
    (((weak_calendarLe rank).key _).andThen ((weak_strLe.key _).andThen (weak_strLe.key _)))))

/-- the lines of events: above each one at most its calendar and its day -/
inductive Lists (clock : Clock) : List Str → List (Str × CalendarEventData) → Prop
  | nil : Lists clock [] []
  | cons {headings lines : List Str} {events : List (Str × CalendarEventData)} (p : Str × CalendarEventData)
      (above : ∀ h ∈ headings, h = label p.1 ∨ h = dayHeading clock p.2) (rest : Lists clock lines events) :
      Lists clock (headings ++ formatEventLine clock p.2 :: lines) (p :: events)

theorem eq_of_mem_ite {c : Prop} [Decidable c] {x y : Str} (h : x ∈ if c then [] else [y]) : x = y := by
  split_ifs at h
  · exact absurd h List.not_mem_nil
  · exact List.mem_singleton.1 h

theorem lists_bodyLines (clock : Clock) (showLabel : Bool) (cal day : Option Str)
    (events : List (Str × CalendarEventData)) : Lists clock (bodyLines clock showLabel cal day events) events := by
  induction events generalizing cal day with
  | nil => exact .nil
  | cons p events ih =>
    rw [bodyLines]
    apply Lists.cons p _ (ih _ _)
    intro h hh
    obtain hh | hh := List.mem_append.1 hh
    · split_ifs at hh
      · exact .inl (List.mem_singleton.1 hh)
      · exact absurd hh List.not_mem_nil
    · exact .inr (eq_of_mem_ite hh)

/-- the count of a calendar in the last line -/
theorem lookup_perCal (hidden : List (Str × CalendarEventData)) (name : Str) :
    ((perCal hidden).lookup name).getD 0 = hidden.countP fun p => p.1 = name := by
  induction hidden using List.reverseRecOn with
  | nil => rfl
  | append_singleton hidden p ih =>
    have hstep : perCal (hidden ++ [p]) = Dict.set p.1 (((perCal hidden).lookup p.1).getD 0 + 1) (perCal hidden) := by
      rw [perCal, List.foldl_append]
      rfl
    rw [hstep, Dict.lookup_set, List.countP_append, List.countP_singleton]
    by_cases hname : name = p.1
    · subst hname
      rw [if_pos rfl, ih, if_pos (decide_eq_true rfl)]
      rfl
    · rw [if_neg hname, ih, if_neg (by simpa using Ne.symm hname), Nat.add_zero]

/-- a listing of events: the first ones are listed, calendar by calendar and each calendar in order, the others are counted -/
def Accounts (clock : Clock) (calendarOrder : List Str) (limit : ℕ) (events : List (Str × CalendarEventData)) (text : Str) :
    Prop :=
  ∃ (ordered listed : List (Str × CalendarEventData)) (body : List Str),
    ordered.Perm events ∧ (ordered.Pairwise fun a b => eventLe (rankDict calendarOrder) a b = true) ∧
    listed.Perm (ordered.take limit) ∧
    (listed.Pairwise fun a b => calendarLe (rankDict calendarOrder) a.1 b.1 = true) ∧
    (∀ name, (listed.filter fun p => p.1 = name) = (ordered.take limit).filter fun p => p.1 = name) ∧
    Lists clock body listed ∧
    listed.length + (ordered.drop limit).length = events.length ∧
    (∀ name, ((perCal (ordered.drop limit)).lookup name).getD 0 = (ordered.drop limit).countP fun p => p.1 = name) ∧
    text = Text.join "\n".toList (header events.length listed.length (ordered.drop limit).length ::
      (body ++ footer clock (rankDict calendarOrder) (ordered.drop limit)))

/-- **What a listing accounts for.** -/
theorem formatEventList_accounts (clock : Clock) (events : List (Str × CalendarEventData)) (calendarOrder : List Str)
    (showLabel : Bool) (limit : ℕ) :
    Accounts clock calendarOrder limit events (formatEventList clock events calendarOrder showLabel limit) := by
  have hperm := Orders.perm_sorted (eventLe (rankDict calendarOrder)) events
  have hlisted := Orders.perm_sorted (Orders.onKey Prod.fst (calendarLe (rankDict calendarOrder)))
    ((Orders.sorted (eventLe (rankDict calendarOrder)) events).take limit)
  have hweak := weak_calendarLe (rankDict calendarOrder)
  refine ⟨_, _, _, hperm, Orders.pairwise_sorted (weak_eventLe _) events, hlisted,
    Orders.pairwise_sorted (hweak.key Prod.fst) _, ?_, lists_bodyLines clock showLabel none none _, ?_, lookup_perCal _, ?_⟩
  · intro name
    apply Orders.filter_sorted
    intro a b ha hb
    rw [Orders.onKey, of_decide_eq_true ha, of_decide_eq_true hb]
    exact (hweak.total name name).elim id id
  · rw [hlisted.length_eq, ← List.length_append, List.take_append_drop, hperm.length_eq]
  · rw [formatEventList, hlisted.length_eq, hperm.length_eq]

/-! ## The calendars that answer -/

/-- what a calendar that answers holds -/
def heldBy (held : Str → Except Failure (List Item)) (id : Str) : List Item :=
  match held id with
  | .ok items => items
  | .error _ => []

/-- the calendar is not visible -/
def missing (held : Str → Except Failure (List Item)) (id : Str) : Bool :=
  match held id with
  | .ok _ => false
  | .error failure => failure.notFound

/-- the events of one page, all of them well-formed -/
structure Fits (clock : Clock) (items : List Item) : Prop where
  page : items.length ≤ maxResults
  formed : ∀ item ∈ items, ∃ event, parseEvent clock item = some event ∧ event.start.offset.isSome = true

/-- the events of all calendars that answer -/
def everything (clock : Clock) (held : Str → Except Failure (List Item)) (cals : List (Str × Str)) :
    List (Str × CalendarEventData) :=
  cals.flatMap fun q => ((heldBy held q.1).filterMap (parseEvent clock)).map fun e => (q.2, e)

/-- the names of the calendars that are not visible -/
def missingNames (held : Str → Except Failure (List Item)) (cals : List (Str × Str)) : List Str :=
  (cals.filter fun q => missing held q.1).map Prod.snd

variable {clock : Clock} {t : Tools} {held : Str → Except Failure (List Item)}

theorem Fits.length {items : List Item} (h : Fits clock items) : (items.filterMap (parseEvent clock)).length = items.length := by
  rw [List.filterMap_length_eq_length]
  intro item hitem
  obtain ⟨event, hevent, _⟩ := h.formed item hitem
  rw [hevent]
  rfl

/-- every event of the calendars that answer -/
theorem length_everything {cals : List (Str × Str)} (h : ∀ q ∈ cals, Fits clock (heldBy held q.1)) :
    (everything clock held cals).length = (cals.map fun q => (heldBy held q.1).length).sum := by
  rw [everything, List.length_flatMap]
  apply congrArg List.sum
  apply List.map_congr_left
  intro q hq
  rw [List.length_map, (h q hq).length]

theorem fetchEvents_ok {many : Bool} {cals : List (Str × Str)}
    (h : ∀ q ∈ cals, (∃ items, held q.1 = .ok items ∧ Fits clock items) ∨ (missing held q.1 = true ∧ many = true))
    (events : List (Str × CalendarEventData)) (skipped : List Str) :
    fetchEvents clock t held many cals events skipped =
      .ok (events ++ everything clock held cals, skipped ++ missingNames held cals) := by
  induction cals generalizing events skipped with
  | nil => rw [fetchEvents, everything, missingNames, List.flatMap_nil, List.filter_nil, List.map_nil, List.append_nil,
      List.append_nil]
  | cons q cals ih =>
    have hrest := ih fun q' hq' => h q' (List.mem_cons_of_mem q hq')
    obtain ⟨id, name⟩ := q
    rw [fetchEvents]
    obtain ⟨items, hitems, hfits⟩ | ⟨hmissing, rfl⟩ := h (id, name) List.mem_cons_self
    · have hmiss : missing held id = false := by rw [missing, hitems]
      have hlist : listEvents clock (held id) = .ok (items.filterMap (parseEvent clock)) := by
        rw [hitems, listEvents, Except.map, List.take_of_length_le hfits.page]
      have heverything : everything clock held ((id, name) :: cals) =
          ((items.filterMap (parseEvent clock)).map fun e => (name, e)) ++ everything clock held cals := by
        rw [everything, List.flatMap_cons, heldBy, hitems]
        rfl
      have hnames : missingNames held ((id, name) :: cals) = missingNames held cals := by
        rw [missingNames, List.filter_cons_of_neg (by rw [hmiss]; exact Bool.false_ne_true)]
        rfl
      rw [hlist, heverything, hnames, ← List.append_assoc]
      exact hrest _ _
    · cases hheld : held id with
      | ok items =>
        rw [missing, hheld] at hmissing
        exact absurd hmissing Bool.false_ne_true
      | error failure =>
        have hnotFound : failure.notFound = true := by
          rw [missing, hheld] at hmissing
          exact hmissing
        have heverything : everything clock held ((id, name) :: cals) = everything clock held cals := by
          rw [everything, List.flatMap_cons, heldBy, hheld]
          rfl
        have hnames : missingNames held ((id, name) :: cals) = name :: missingNames held cals := by
          rw [missingNames, List.filter_cons, if_pos hmissing]
          rfl
        have hlist : listEvents clock (Except.error failure) = .error failure := rfl
        rw [hlist, heverything, hnames]
        simp only [hnotFound, if_true]
        rw [hrest, List.append_assoc]
        rfl

theorem handleHttpError_error (status : ℕ) (message action : Str) : (handleHttpError status message action).isError = true := by
  unfold handleHttpError
  split_ifs <;> exact rfl

theorem Failure.result_error (f : Failure) : f.result.isError = true := by
  cases f with
  | http status message => exact handleHttpError_error status message _
  | reconnectRequired => exact rfl
  | timeout => exact rfl
  | refreshUnavailable => exact rfl
  | other text => exact rfl

/-- a calendar that ends the call -/
theorem fetchEvents_fails {many : Bool} {cals : List (Str × Str)}
    (h : ∃ q ∈ cals, ∃ failure, held q.1 = .error failure ∧ (failure.notFound = false ∨ many = false))
    (events : List (Str × CalendarEventData)) (skipped : List Str) :
    ∃ result, fetchEvents clock t held many cals events skipped = .error result ∧ result.isError = true := by
  induction cals generalizing events skipped with
  | nil => exact absurd h.choose_spec.1 List.not_mem_nil
  | cons q cals ih =>
    obtain ⟨q', hq', failure, hfails, hends⟩ := h
    obtain ⟨id, name⟩ := q
    rw [fetchEvents]
    obtain rfl | hq' := List.mem_cons.1 hq'
    · have hlist : listEvents clock (held id) = .error failure := by
        rw [hfails]
        rfl
      rw [hlist]
      obtain hends | rfl := hends
      · simp only [hends, Bool.false_eq_true, if_false]
        exact ⟨_, rfl, failure.result_error⟩
      · simp only [Bool.false_eq_true, if_false]
        split_ifs
        · exact ⟨_, rfl, rfl⟩
        · exact ⟨_, rfl, failure.result_error⟩
    · have hrest := ih ⟨q', hq', failure, hfails, hends⟩
      cases listEvents clock (held id) with
      | ok found => exact hrest _ _
      | error other =>
        simp only
        split_ifs
        · exact hrest _ _
        · exact ⟨_, rfl, rfl⟩
        · exact ⟨_, rfl, other.result_error⟩

/-! ## The whole call -/

/-- the one calendar of a call, under its own name -/
theorem queryCals_single {calendarId : Str} {q : Str × Str} (h : queryCals t calendarId = .ok [q]) : t.nameOf q.1 = q.2 := by
  rw [queryCals] at h
  split_ifs at h with hgiven
  · cases hvalid : validateCalendarId calendarId t.enabled listEventsTool t.primaryId with
    | mk id err =>
      rw [hvalid] at h
      cases err with
      | some err => cases h
      | none => rw [← List.singleton_inj.1 (Except.ok.inj h)]
  · have hmap := Except.ok.inj h
    obtain ⟨c, hfilter, hc⟩ := List.map_eq_singleton_iff.1 hmap
    have hmem : c ∈ t.enabled.filter fun c => listEventsTool ∉ t.disabledOn c.id := by
      rw [hfilter]
      exact List.mem_singleton_self c
    obtain ⟨henabled, hallowed⟩ := List.mem_filter.1 hmem
    have hsome : (t.enabled.reverse.find? fun d => d.id = c.id).isSome = true := by
      rw [List.find?_isSome]
      exact ⟨c, List.mem_reverse.2 henabled, decide_eq_true rfl⟩
    obtain ⟨d, hd⟩ := Option.isSome_iff_exists.1 hsome
    have hid : d.id = c.id := by simpa using List.find?_some hd
    -- the last entry with that id is allowed too, so it is the same one
    have hlast : d ∈ t.enabled.filter fun c => listEventsTool ∉ t.disabledOn c.id := by
      rw [List.mem_filter, hid]
      exact ⟨List.mem_reverse.1 (List.mem_of_find?_eq_some hd), hallowed⟩
    rw [hfilter] at hlast
    rw [← hc, Tools.nameOf, hd, List.mem_singleton.1 hlast]
    rfl

theorem infix_join {name : Str} {names : List Str} (h : name ∈ names) : name <:+: Text.join ", ".toList names := by
  obtain ⟨x, y, hjoin, _⟩ := Json.within_join h
  exact ⟨x, y, hjoin.symm⟩

/-- a text in the middle of another one -/
theorem infix_middle {name text : Str} (h : name <:+: text) (x y : Str) : name <:+: x ++ (text ++ y) :=
  h.trans ((List.prefix_append text y).isInfix.trans (List.suffix_append x (text ++ y)).isInfix)

theorem infix_skippedNote {name : Str} {names : List Str} (h : name ∈ names) : name <:+: skippedNote t names := by
  have hmiddle := infix_middle (infix_join h) ("\n(Skipped ".toList ++ number names.length ++
    " saved calendar(s) not visible to the connected Google account (".toList ++ accountLabel t.connectedAccount ++
    "): ".toList) (". They may belong to a different Google account. ".toList ++
    (notVisibleGuidance t.connectedAccount ++ ")".toList))
  rw [skippedNote, if_neg (List.ne_nil_of_mem h)]
  simp only [List.append_assoc] at hmiddle ⊢
  exact hmiddle

theorem infix_noneVisible {name : Str} {names : List Str} (h : name ∈ names) :
    name <:+: (noneVisibleResult t names).content := by
  have hmiddle := infix_middle (infix_join h) ("Could not list events: none of the ".toList ++ number names.length ++
    " saved calendar(s) (".toList) (") are visible to the Google account connected to Google Calendar (".toList ++
    (accountLabel t.connectedAccount ++ "). They may belong to a different Google account.".toList))
  dsimp only [noneVisibleResult]
  simp only [List.append_assoc] at hmiddle ⊢
  exact hmiddle

theorem infix_notVisible (id name action account : Str) :
    name <:+: (calendarNotVisibleResult id name action account).content := by
  have hmiddle := infix_middle (List.infix_refl name) ("Could not ".toList ++ action ++ ": the saved calendar '".toList)
    ("' (id: ".toList ++ (id ++ (") is not visible to the Google account currently connected to Google Calendar (".toList ++
    (accountLabel account ++ "). It may belong to a different Google account than the one connected now.".toList))))
  dsimp only [calendarNotVisibleResult]
  simp only [List.append_assoc] at hmiddle ⊢
  exact hmiddle

/-- what a call over some calendars answers -/
structure Accounted (clock : Clock) (held : Str → Except Failure (List Item)) (cals : List (Str × Str))
    (startDate endDate : Str) (result : ToolResult) : Prop where
  failed : (∃ q ∈ cals, ∃ failure, held q.1 = .error failure ∧ failure.notFound = false) → result.isError = true
  invisible : cals ≠ [] → (∀ q ∈ cals, missing held q.1 = true) →
    result.isError = true ∧ ∀ q ∈ cals, q.2 <:+: result.content
  listed : (cals = [] ∨ ∃ q ∈ cals, missing held q.1 = false) →
    (∀ q ∈ cals, missing held q.1 = true ∨ ∃ items, held q.1 = .ok items ∧ Fits clock items) →
    result.isError = false ∧
    (everything clock held cals).length = (cals.map fun q => (heldBy held q.1).length).sum ∧
    ∃ listing note, result.content = listing ++ note ∧ (∀ q ∈ cals, missing held q.1 = true → q.2 <:+: note) ∧
      (everything clock held cals = [] →
        listing = "No events found between ".toList ++ startDate ++ " and ".toList ++ endDate ++ ".".toList) ∧
      (everything clock held cals ≠ [] →
        Accounts clock (cals.map Prod.snd) maxListedEvents (everything clock held cals) listing)

theorem heldBy_of_missing {id : Str} (h : missing held id = true) : heldBy held id = [] := by
  rw [missing] at h
  rw [heldBy]
  cases hheld : held id with
  | ok items =>
    rw [hheld] at h
    exact absurd h Bool.false_ne_true
  | error failure => rfl

theorem everything_of_missing {cals : List (Str × Str)} (h : ∀ q ∈ cals, missing held q.1 = true) :
    everything clock held cals = [] := by
  rw [everything, List.flatMap_eq_nil_iff]
  intro q hq
  rw [heldBy_of_missing (h q hq)]
  rfl

/-- **Every event is accounted for.** A calendar that fails for another reason than being invisible ends the call; when all
are invisible, all are named; otherwise every event that is held is listed or counted, and the invisible ones are named. -/
theorem events_accounted (clock : Clock) (t : Tools) (held : Datetime → Datetime → Str → Except Failure (List Item))
    (startDate endDate calendarId : Str) {timeMin timeMax : Datetime} {cals : List (Str × Str)}
    (hmin : parseDt clock t.defaultTz startDate = .ok timeMin) (hmax : parseDt clock t.defaultTz endDate = .ok timeMax)
    (hcals : queryCals t calendarId = .ok cals) :
    Accounted clock (held timeMin timeMax) cals startDate endDate
      (calendarListEvents clock t held startDate endDate calendarId) := by
  have hcall : calendarListEvents clock t held startDate endDate calendarId =
      match fetchEvents clock t (held timeMin timeMax) (1 < cals.length) cals [] [] with
      | .error result => result
      | .ok (events, skipped) => answer clock t cals startDate endDate events skipped := by
    rw [calendarListEvents, hmin, hmax, hcals]
  rw [hcall]
  refine ⟨?_, ?_, ?_⟩
  · rintro ⟨q, hq, failure, hfails, hother⟩
    have hends : ∃ result, fetchEvents clock t (held timeMin timeMax) (1 < cals.length) cals [] [] = .error result ∧
        result.isError = true := fetchEvents_fails ⟨q, hq, failure, hfails, .inl hother⟩ [] []
    obtain ⟨result, hresult, herror⟩ := hends
    rw [hresult]
    exact herror
  · intro hne hmissing
    cases cals with
    | nil => exact absurd rfl hne
    | cons q cals =>
      cases cals with
      | nil =>
        -- the one calendar is named by the error that ends the loop
        have hq := hmissing q List.mem_cons_self
        rw [missing] at hq
        cases hheld : held timeMin timeMax q.1 with
        | ok items =>
          rw [hheld] at hq
          exact absurd hq Bool.false_ne_true
        | error failure =>
          rw [hheld] at hq
          have hfetch : fetchEvents clock t (held timeMin timeMax) false [q] [] [] =
              .error (calendarNotVisibleResult q.1 (t.nameOf q.1) "list events".toList t.connectedAccount) := by
            rw [fetchEvents, hheld]
            simp only [listEvents, Except.map, hq, if_true, Bool.false_eq_true, if_false]
          have hsingle : decide (1 < [q].length) = false := rfl
          rw [hsingle, hfetch, queryCals_single hcals]
          refine ⟨rfl, ?_⟩
          intro q' hq'
          rw [List.mem_singleton.1 hq']
          exact infix_notVisible _ _ _ _
      | cons q' cals =>
        have hmany : decide (1 < (q :: q' :: cals).length) = true := by simp
        have hfetch : fetchEvents clock t (held timeMin timeMax) true (q :: q' :: cals) [] [] = _ :=
          fetchEvents_ok (fun p hp => .inr ⟨hmissing p hp, rfl⟩) [] []
        have hnames : missingNames (held timeMin timeMax) (q :: q' :: cals) = (q :: q' :: cals).map Prod.snd := by
          rw [missingNames, List.filter_eq_self.2 hmissing]
        have hanswer : answer clock t (q :: q' :: cals) startDate endDate [] ((q :: q' :: cals).map Prod.snd) =
            noneVisibleResult t ((q :: q' :: cals).map Prod.snd) := by
          rw [answer, if_pos ⟨List.cons_ne_nil _ _, List.length_map _⟩]
        rw [hmany, hfetch, everything_of_missing hmissing, hnames]
        simp only [List.nil_append]
        rw [hanswer]
        exact ⟨rfl, fun p hp => infix_noneVisible (List.mem_map_of_mem hp)⟩
  · intro hsome hall
    have hfits : ∀ q ∈ cals, Fits clock (heldBy (held timeMin timeMax) q.1) := by
      intro q hq
      obtain hmiss | ⟨items, hitems, hfit⟩ := hall q hq
      · rw [heldBy_of_missing hmiss]
        exact ⟨Nat.zero_le _, fun item hitem => absurd hitem List.not_mem_nil⟩
      · rw [heldBy, hitems]
        exact hfit
    have hmany : ∀ q ∈ cals, missing (held timeMin timeMax) q.1 = true → decide (1 < cals.length) = true := by
      intro q hq hmiss
      obtain rfl | ⟨q', hq', hseen⟩ := hsome
      · exact absurd hq List.not_mem_nil
      · have hne : q ≠ q' := by
          rintro rfl
          rw [hmiss] at hseen
          exact absurd hseen.symm Bool.false_ne_true
        rw [decide_eq_true_eq]
        by_contra hshort
        obtain ⟨only, honly⟩ := List.length_eq_one_iff.1 (Nat.le_antisymm (not_lt.1 hshort) (List.length_pos_of_mem hq))
        rw [honly, List.mem_singleton] at hq hq'
        exact hne (hq.trans hq'.symm)
    have hfetch : fetchEvents clock t (held timeMin timeMax) (1 < cals.length) cals [] [] = _ :=
      fetchEvents_ok (fun q hq => (hall q hq).symm.imp id fun hmiss => ⟨hmiss, hmany q hq hmiss⟩) [] []
    have hskipped : ¬(missingNames (held timeMin timeMax) cals ≠ [] ∧
        (missingNames (held timeMin timeMax) cals).length = cals.length) := by
      rintro ⟨hne, hlength⟩
      obtain rfl | ⟨q, hq, hseen⟩ := hsome
      · exact hne rfl
      · rw [missingNames, List.length_map, List.length_filter_eq_length_iff] at hlength
        rw [hlength q hq] at hseen
        exact absurd hseen.symm Bool.false_ne_true
    rw [hfetch]
    simp only [List.nil_append]
    rw [answer, if_neg hskipped]
    have hnamed : ∀ q ∈ cals, missing (held timeMin timeMax) q.1 = true →
        q.2 <:+: skippedNote t (missingNames (held timeMin timeMax) cals) := by
      intro q hq hmiss
      exact infix_skippedNote (List.mem_map_of_mem (List.mem_filter.2 ⟨hq, hmiss⟩))
    split_ifs with hnone
    · exact ⟨rfl, length_everything hfits, _, _, rfl, hnamed, fun _ => rfl, fun hne => absurd hnone hne⟩
    · exact ⟨rfl, length_everything hfits, _, _, rfl, hnamed, fun he => absurd he hnone,
        fun _ => formatEventList_accounts clock _ _ _ _⟩

/-- the morning of 2026-03-25, in microseconds from 1970 -/
def morning (hour : ℕ) : ℤ := (1774396800 + hour * 3600) * 1000000

def digits (n : ℕ) : Str := [Nat.digitChar (n / 10 % 10), Nat.digitChar (n % 10)]

/-- the clock on that morning -/
def morningClock : Clock where
  fromisoformat text :=
    if text = "2026-03-25T00:00:00".toList then .ok ⟨morning 0, none⟩
    else if text = "2026-03-25T09:00:00Z".toList then .ok ⟨morning 9, some 0⟩
    else if text = "2026-03-25T10:00:00Z".toList then .ok ⟨morning 10, some 0⟩
    else if text = "2026-03-25T11:00:00Z".toList then .ok ⟨morning 11, some 0⟩
    else .error ("Invalid isoformat string: '".toList ++ text ++ "'".toList)
  strftime format wall :=
    let time := digits (wall / 3600000000 % 24).toNat ++ ":".toList ++ digits (wall / 60000000 % 60).toNat
    if format = "%H:%M".toList then time
    else if format = "%Y-%m-%d %a".toList then "2026-03-25 Wed".toList
    else if format = "%Y-%m-%d".toList then "2026-03-25".toList
    else "2026-03-25 ".toList ++ time

def twoCalendars : Tools where
  enabled := [⟨"me".toList, "Personal".toList, [], "owner".toList⟩, ⟨"crew".toList, "Jobs".toList, [], "owner".toList⟩]
  primaryId := "me".toList
  connectedAccount := []
  defaultTz _ := 0

def kitchen : Item where
  id := some "p1".toList
  summary := some "Kitchen".toList
  start := [("dateTime".toList, "2026-03-25T10:00:00Z".toList)]
  stop := [("dateTime".toList, "2026-03-25T11:00:00Z".toList)]

def roof : Item where
  id := some "j1".toList
  summary := some "Roof".toList
  start := [("dateTime".toList, "2026-03-25T09:00:00Z".toList)]
  stop := [("dateTime".toList, "2026-03-25T10:00:00Z".toList)]

/-- the kitchen on the one calendar, and what the other one answers -/
def withKitchen (other : Except Failure (List Item)) (_ _ : Datetime) (id : Str) : Except Failure (List Item) :=
  if id = "me".toList then .ok [kitchen] else other

/-- both calendars are listed -/
theorem events_accounted_both :
    Accounted morningClock (withKitchen (.ok [roof]) ⟨morning 0, some 0⟩ ⟨morning 11, some 0⟩)
      [("me".toList, "Personal".toList), ("crew".toList, "Jobs".toList)]
      "2026-03-25T00:00:00".toList "2026-03-25T11:00:00Z".toList
      (calendarListEvents morningClock twoCalendars (withKitchen (.ok [roof])) "2026-03-25T00:00:00".toList
        "2026-03-25T11:00:00Z".toList []) :=
  events_accounted morningClock twoCalendars (withKitchen (.ok [roof])) _ _ []
    (by decide +kernel) (by decide +kernel) (by decide +kernel)

/-- what a call answers when one calendar could not be read -/
def oneFails : ToolResult :=
  calendarListEvents morningClock twoCalendars (withKitchen (.error (.http 500 []))) "2026-03-25T00:00:00".toList
    "2026-03-25T11:00:00Z".toList []

/-- a calendar that fails for a moment hides the events of the others, and is not named -/
theorem failure_hides_events :
    (everything morningClock (withKitchen (.error (.http 500 [])) ⟨morning 0, some 0⟩ ⟨morning 11, some 0⟩)
      [("me".toList, "Personal".toList), ("crew".toList, "Jobs".toList)]).length = 1 ∧
    ¬ "Kitchen".toList <:+: oneFails.content ∧ ¬ "Jobs".toList <:+: oneFails.content := by
  refine ⟨by decide +kernel, by decide +kernel, by decide +kernel⟩

end Clawbolt.Calendar

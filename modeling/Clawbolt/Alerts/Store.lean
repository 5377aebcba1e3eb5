/-
The alert store (`_AlertStore` of services/admin_alerts.py): error records and tool failures between two emails, and the
incidents that were emailed and still recur.

`record` and `record_tool_failure` come from any thread, each under the lock. A flush checks the hourly cap, takes the
groups, takes the incidents that went quiet, awaits the send, and opens incidents or puts the groups back: each part is
under the lock, and a step of its own. Only the flush task calls `flush`, and awaits it, so there is one flush at a time.
With nothing to send, the flush puts back the overflow count it took; that is part of the step before it here, since only
`+=` is ever done to that count.

Times of day are microseconds, monotonic times seconds. `occ`, `droppedOcc` and the last fields of `Store` are ghost data:
every call of `record` or `record_tool_failure` is an occurrence with a number of its own, `occ` lists the occurrences that
a count stands for, and `reported` and `mailed` are what the sent emails said.
-/
import Mathlib.Tactic
import Clawbolt.Core.Runs
import Clawbolt.Core.Totals

namespace Clawbolt.Alerts

open Text (Str)

/-! ## Groups and incidents -/

/-- `_MAX_PENDING_GROUPS` -/
def maxPendingGroups : ℕ := 200

/-- `_MAX_GROUPS_PER_EMAIL` -/
def maxGroupsPerEmail : ℕ := 25

/-- `_MAX_SAMPLES_PER_GROUP` -/
def maxSamplesPerGroup : ℕ := 3

/-- what `record` is given with a fingerprint -/
structure Detail where
  loggerName : Str
  level : Str
  excType : Option Str
  message : Str
  tracebackText : Option Str
  requestId : Str

/-- `_PendingGroup` -/
structure PendingGroup where
  loggerName : Str
  level : Str
  excType : Option Str
  message : Str
  tracebackText : Option Str
  requestId : Str
  firstSeen : ℤ
  lastSeen : ℤ
  count : ℕ
  occ : List ℕ

/-- `_PendingToolFailure` -/
structure PendingToolFailure where
  toolName : Str
  errorKind : Str
  firstSeen : ℤ
  lastSeen : ℤ
  count : ℕ
  userIds : Finset Str
  consentedUserIds : Finset Str
  samples : List Str
  occ : List ℕ

/-- `_OpenIncident` -/
structure OpenIncident where
  title : Str
  firstSeen : ℤ
  lastSeen : ℤ
  count : ℕ
  userIds : Finset Str
  occ : List ℕ

/-- `ResolvedSummary` -/
structure ResolvedSummary where
  title : Str
  count : ℕ
  userCount : ℕ
  firstSeen : ℤ
  lastSeen : ℤ
  occ : List ℕ

/-- a first occurrence -/
def PendingGroup.new (x : Detail) (now : ℤ) (n : ℕ) : PendingGroup :=
  ⟨x.loggerName, x.level, x.excType, x.message, x.tracebackText, x.requestId, now, now, 1, [n]⟩

def PendingGroup.merge (g : PendingGroup) (x : Detail) (now : ℤ) (n : ℕ) : PendingGroup :=
  { g with
    count := g.count + 1
    lastSeen := now
    message := x.message
    tracebackText := x.tracebackText.or g.tracebackText
    requestId := if x.requestId ≠ "-".toList then x.requestId else g.requestId
    occ := g.occ ++ [n] }

/-- `to_summary().title` -/
def PendingGroup.title (g : PendingGroup) : Str :=
  ((match g.excType with
    | some e => if e ≠ [] then e ++ ": ".toList else []
    | none => []) ++ g.message).take 160

def PendingToolFailure.new (toolName errorKind userId : Str) (sample : Option Str) (now : ℤ) (n : ℕ) : PendingToolFailure :=
  { toolName, errorKind, firstSeen := now, lastSeen := now, count := 1, userIds := {userId}
    consentedUserIds := if sample.isSome then {userId} else ∅
    samples := sample.toList
    occ := [n] }

/-- a sample is kept when there is room and it is new -/
def keepSample (samples : List Str) (sample : Str) : List Str :=
  if samples.length < maxSamplesPerGroup ∧ sample ∉ samples then samples ++ [sample] else samples

def PendingToolFailure.merge (g : PendingToolFailure) (userId : Str) (sample : Option Str) (now : ℤ) (n : ℕ) :
    PendingToolFailure :=
  { g with
    count := g.count + 1
    lastSeen := now
    userIds := insert userId g.userIds
    consentedUserIds := if sample.isSome then insert userId g.consentedUserIds else g.consentedUserIds
    samples := sample.toList.foldl keepSample g.samples
    occ := g.occ ++ [n] }

def OpenIncident.touch (i : OpenIncident) (userId : Option Str) (now : ℤ) (n : ℕ) : OpenIncident :=
  { i with
    count := i.count + 1
    lastSeen := now
    userIds := userId.toFinset ∪ i.userIds
    occ := i.occ ++ [n] }

def OpenIncident.toResolved (i : OpenIncident) : ResolvedSummary :=
  ⟨i.title, i.count, i.userIds.card, i.firstSeen, i.lastSeen, i.occ⟩

/-! ## The store -/

/-- a notice of an email -/
inductive Notice where
  | opening
  | resolved
deriving DecidableEq, Repr

/-- a count that an email reported for good: of a resolved incident, or of the occurrences dropped -/
structure Figure where
  count : ℕ
  occ : List ℕ

/-- what `_take_new` returns -/
structure Taken where
  errors : Dict PendingGroup
  tools : Dict PendingToolFailure
  dropped : ℕ
  droppedOcc : List ℕ

/-- where the flush task is -/
inductive Task where
  | idle
  /-- under the hourly cap -/
  | checked
  | taken (t : Taken)
  | sending (t : Taken) (resolved : Dict ResolvedSummary)

/-- the groups that a flush holds -/
def Task.held : Task → Taken
  | .idle | .checked => ⟨[], [], 0, []⟩
  | .taken t => t
  | .sending t _ => t

/-- the resolved notices of the email being sent -/
def Task.notices : Task → Dict ResolvedSummary
  | .sending _ resolved => resolved
  | _ => []

structure Store where
  pending : Dict PendingGroup
  pendingTools : Dict PendingToolFailure
  /-- `_open` -/
  opened : Dict OpenIncident
  emailTimes : List ℚ
  overflowDropped : ℕ
  task : Task
  recorded : ℕ
  overflowOcc : List ℕ
  reported : List Figure
  mailed : List (Str × Notice)

def init : Store := ⟨[], [], [], [], 0, .idle, 0, [], [], []⟩

structure Settings where
  alertMaxEmailsPerHour : ℤ
  alertDedupeMinutes : ℤ

/-- `tool|{tool_name}|{error_kind}` -/
def toolFingerprint (toolName errorKind : Str) : Str := "tool|".toList ++ toolName ++ '|' :: errorKind

namespace Store

def record (s : Store) (fingerprint : Str) (x : Detail) (now : ℤ) : Store :=
  let n := s.recorded
  let s := { s with recorded := n + 1 }
  match s.opened.lookup fingerprint with
  | some incident => { s with opened := Dict.set fingerprint (incident.touch none now n) s.opened }
  | none =>
    match s.pending.lookup fingerprint with
    | some existing => { s with pending := Dict.set fingerprint (existing.merge x now n) s.pending }
    | none =>
      if maxPendingGroups ≤ s.pending.length then
        { s with overflowDropped := s.overflowDropped + 1, overflowOcc := s.overflowOcc ++ [n] }
      else { s with pending := Dict.set fingerprint (.new x now n) s.pending }

def recordToolFailure (s : Store) (toolName errorKind userId : Str) (sample : Option Str) (now : ℤ) : Store :=
  let fingerprint := toolFingerprint toolName errorKind
  let n := s.recorded
  let s := { s with recorded := n + 1 }
  match s.opened.lookup fingerprint with
  | some incident => { s with opened := Dict.set fingerprint (incident.touch (some userId) now n) s.opened }
  | none =>
    match s.pendingTools.lookup fingerprint with
    | some existing =>
      { s with pendingTools := Dict.set fingerprint (existing.merge userId sample now n) s.pendingTools }
    | none =>
      if maxPendingGroups ≤ s.pendingTools.length then
        { s with overflowDropped := s.overflowDropped + 1, overflowOcc := s.overflowOcc ++ [n] }
      else { s with pendingTools := Dict.set fingerprint (.new toolName errorKind userId sample now n) s.pendingTools }

/-- `_at_hourly_cap`: the times of the last hour, and whether the ceiling is reached -/
def atHourlyCap (s : Store) (cfg : Settings) (monotonic : ℚ) : Bool × Store :=
  let times := s.emailTimes.dropWhile fun t => 3600 < monotonic - t
  (max 1 cfg.alertMaxEmailsPerHour ≤ times.length, { s with emailTimes := times })

/-- `_take_new` -/
def takeNew (s : Store) : Taken × Store :=
  (⟨s.pending.take maxGroupsPerEmail, s.pendingTools.take maxGroupsPerEmail, s.overflowDropped, s.overflowOcc⟩,
    { s with
      pending := s.pending.drop maxGroupsPerEmail
      pendingTools := s.pendingTools.drop maxGroupsPerEmail
      overflowDropped := 0
      overflowOcc := [] })

/-- `_take_resolved` -/
def takeResolved (s : Store) (cfg : Settings) (now : ℤ) : Dict ResolvedSummary :=
  let quiet := 60000000 * max 0 cfg.alertDedupeMinutes
  ((s.opened.filter fun i => ¬ now - i.2.lastSeen < quiet).take maxGroupsPerEmail).map fun i => (i.1, i.2.toResolved)

/-- a group goes back to pending; arrivals during the send are newer, and keep their detail -/
def restoreError (s : Store) (g : Str × PendingGroup) : Store :=
  match s.pending.lookup g.1 with
  | none => { s with pending := Dict.set g.1 g.2 s.pending }
  | some current =>
    let merged : PendingGroup :=
      { current with
        count := current.count + g.2.count
        firstSeen := min current.firstSeen g.2.firstSeen
        occ := current.occ ++ g.2.occ }
    { s with pending := Dict.set g.1 merged s.pending }

def restoreTool (s : Store) (g : Str × PendingToolFailure) : Store :=
  match s.pendingTools.lookup g.1 with
  | none => { s with pendingTools := Dict.set g.1 g.2 s.pendingTools }
  | some current =>
    let merged : PendingToolFailure :=
      { current with
        count := current.count + g.2.count
        firstSeen := min current.firstSeen g.2.firstSeen
        userIds := current.userIds ∪ g.2.userIds
        consentedUserIds := current.consentedUserIds ∪ g.2.consentedUserIds
        samples := g.2.samples.foldl keepSample current.samples
        occ := current.occ ++ g.2.occ }
    { s with pendingTools := Dict.set g.1 merged s.pendingTools }

/-- `_restore` -/
def restore (s : Store) (t : Taken) : Store :=
  let s := { s with overflowDropped := s.overflowDropped + t.dropped, overflowOcc := s.overflowOcc ++ t.droppedOcc }
  t.tools.foldl restoreTool (t.errors.foldl restoreError s)

/-- an incident whose resolved notice was sent is closed -/
def close (s : Store) (r : Str × ResolvedSummary) : Store :=
  { s with
    opened := Dict.erase r.1 s.opened
    reported := s.reported ++ [⟨r.2.count, r.2.occ⟩]
    mailed := s.mailed ++ [(r.1, .resolved)] }

/-- an incident is opened, with what arrived during the send -/
def openError (s : Store) (g : Str × PendingGroup) : Store :=
  let incident : OpenIncident := ⟨g.2.title, g.2.firstSeen, g.2.lastSeen, g.2.count, ∅, g.2.occ⟩
  let incident := match s.pending.lookup g.1 with
    | none => incident
    | some late =>
      { incident with count := incident.count + late.count, lastSeen := late.lastSeen, occ := incident.occ ++ late.occ }
  { s with
    pending := Dict.erase g.1 s.pending
    opened := Dict.set g.1 incident s.opened
    mailed := s.mailed ++ [(g.1, .opening)] }

def openTool (s : Store) (g : Str × PendingToolFailure) : Store :=
  let incident : OpenIncident :=
    ⟨g.2.toolName ++ ' ' :: g.2.errorKind, g.2.firstSeen, g.2.lastSeen, g.2.count, g.2.userIds, g.2.occ⟩
  let incident := match s.pendingTools.lookup g.1 with
    | none => incident
    | some late =>
      { incident with
        count := incident.count + late.count
        lastSeen := late.lastSeen
        userIds := incident.userIds ∪ late.userIds
        occ := incident.occ ++ late.occ }
  { s with
    pendingTools := Dict.erase g.1 s.pendingTools
    opened := Dict.set g.1 incident s.opened
    mailed := s.mailed ++ [(g.1, .opening)] }

/-- `_mark_sent`; the email carried the overflow figure too -/
def markSent (s : Store) (t : Taken) (resolved : Dict ResolvedSummary) (monotonic : ℚ) : Store :=
  let s := { s with
    emailTimes := s.emailTimes ++ [monotonic]
    reported := s.reported ++ [⟨t.dropped, t.droppedOcc⟩] }
  t.tools.foldl openTool (t.errors.foldl openError (resolved.foldl close s))

end Store

/-! ## Steps -/

/-- how a send ends -/
inductive Sent where
  | sent
  | failed
  /-- `flush` does not go on: the email cannot be built, or the flush task is cancelled -/
  | raised
deriving DecidableEq, Repr

inductive Op where
  | record (fingerprint : Str) (x : Detail) (now : ℤ)
  | recordToolFailure (toolName errorKind userId : Str) (sample : Option Str) (now : ℤ)
  | flush (monotonic : ℚ)
  | takeNew
  | takeResolved (now : ℤ)
  | sendEnds (how : Sent) (monotonic : ℚ)

def step (cfg : Settings) (s : Store) : Op → Store
  | .record fingerprint x now => s.record fingerprint x now
  | .recordToolFailure toolName errorKind userId sample now => s.recordToolFailure toolName errorKind userId sample now
  | .flush monotonic =>
    match s.task with
    | .idle =>
      let (capped, s) := s.atHourlyCap cfg monotonic
      if capped then s else { s with task := .checked }
    | _ => s
  | .takeNew =>
    match s.task with
    | .checked =>
      let (t, s) := s.takeNew
      { s with task := .taken t }
    | _ => s
  | .takeResolved now =>
    match s.task with
    | .taken t =>
      let resolved := s.takeResolved cfg now
      if t.errors = [] ∧ t.tools = [] ∧ resolved = [] then { s.restore t with task := .idle }
      else { s with task := .sending t resolved }
    | _ => s
  | .sendEnds how monotonic =>
    match s.task with
    | .sending t resolved =>
      match how with
      | .sent => { s.markSent t resolved monotonic with task := .idle }
      | .failed => { s.restore t with task := .idle }
      | .raised => { s with task := .idle }
    | _ => s

abbrev run (cfg : Settings) (s : Store) (ops : List Op) : Store := Runs.run (step cfg) s ops

end Clawbolt.Alerts

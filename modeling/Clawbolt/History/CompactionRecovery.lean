/-
Pending compactions and their recovery (`compact_session` of agent/compaction.py, as the trim runs it, and
agent/compaction_recovery.py).

A step is what a run or a sweep does up to its next await. A run of a compaction reads the three documents, calls the model,
and writes MEMORY.md, HISTORY.md, USER.md, SOUL.md and its event, in this order. The event's trigger starts the first run,
in the transaction that `triggerCompactionForDropped` models; a sweep, which holds the advisory lock, starts further ones. A
call can raise and a run or a sweep can be killed at every await. What an append keeps of HISTORY.md is `Memory.History`.

Ghost data, read by no step: the last fields of an `Event`, the history outcome of a `Run`, and `Sweep.seen`, `Sweep.raised`.

Results:
- `step_events`, `Becomes.ok`: what one step can do to an event, and what it keeps of it;
- `step_swept`: how far the sweeps have got with each event;
- `recovery_settles`: the events of every run;
- `summary_twice`: an event that is completed with two summaries, and one with none.
-/
import Mathlib.Tactic
import Clawbolt.Core.Runs
import Clawbolt.History.Compaction
import Clawbolt.Memory.Documents

namespace Clawbolt.History.CompactionRecovery

open Text (Str)
open Memory (Doc readForm writeIfUnchanged)

/-! ## Model -/

structure Env where
  history : History.Env
  compactionEnabled : Bool
  /-- `compaction_retry_lookback_minutes` -/
  lookbackMinutes : ℕ
  /-- the rows of the user's session by seq, none without a session -/
  rows : Str → Option (List StoredMessage)
  /-- the user's time zone, or the empty text -/
  timezone : Str → Str
  /-- `str` of a JSON value -/
  str : Json → Str

variable (env : Env)

/-- `_GRACE_SECONDS` -/
def graceSeconds : ℤ := 600

/-- `_MAX_ATTEMPTS` -/
def maxAttempts : ℕ := 3

/-! ### The conversation and the answer -/

/-- the length of the match of `https?://\S+` at the start of a text -/
def urlLength (t : Str) : Option ℕ :=
  let scheme := if Text.startsWith "https://".toList t then 8 else if Text.startsWith "http://".toList t then 7 else 0
  let tail := (t.drop scheme).takeWhile fun c => !Text.isSpace c
  if scheme = 0 ∨ tail = [] then none else some (scheme + tail.length)

/-- `_strip_assistant_noise`; the first `skip` characters are the rest of a URL -/
def stripAssistantNoise : ℕ → Str → Str
  | _, [] => []
  | skip + 1, _ :: cs => stripAssistantNoise skip cs
  | 0, c :: cs =>
    match urlLength (c :: cs) with
    | some n => stripAssistantNoise (n - 1) cs
    | none => c :: stripAssistantNoise 0 cs

def formatMessage : AgentMessage → Option Str
  | .user content _ => some ("User: ".toList ++ content)
  | .assistant (some content) _ _ =>
    if content = [] then none else some ("Assistant: ".toList ++ stripAssistantNoise 0 content)
  | _ => none

/-- `_format_messages_for_compaction` -/
def formatMessages (messages : List AgentMessage) : Str := Text.join ['\n'] (messages.filterMap formatMessage)

structure Answer extends Memory.CompactionResult where
  summary : Str
deriving DecidableEq, Repr

/-- `_EMPTY_RESULT` -/
def emptyAnswer : Answer := ⟨⟨[], [], []⟩, []⟩

/-- the text of the answer, without a code fence -/
def unfenced (raw : Str) : Str :=
  let text := Text.strip raw
  if Text.startsWith "```".toList text then
    let body := (text.dropWhile (· ≠ '\n')).drop 1
    Text.strip (if Text.endsWith "```".toList body then body.take (body.length - 3) else body)
  else text

/-- `_parse_compaction_response` -/
def parseCompactionResponse (raw : Str) : Answer :=
  let text := unfenced raw
  match (env.history.loads text).or (env.history.loads ('\x7b' :: text)) with
  | some (.obj d) =>
    let field := fun key : String => Text.strip (env.str ((d.lookup key.toList).getD (.str [])))
    ⟨⟨field "memory_update", field "user_profile_update", field "soul_update"⟩, field "summary"⟩
  | _ => emptyAnswer

/-- `summary.replace("[TIMESTAMP]", f"[{now}]")`, the first `skip` characters being the rest of a placeholder -/
def fillTimestamps (now : Str) : ℕ → Str → Str
  | _, [] => []
  | skip + 1, _ :: cs => fillTimestamps now skip cs
  | 0, c :: cs =>
    if Text.startsWith "[TIMESTAMP]".toList (c :: cs) then '[' :: now ++ ']' :: fillTimestamps now 10 cs
    else c :: fillTimestamps now 0 cs

/-! ### Events, runs and sweeps -/

/-- the transactions of a run after its model call -/
inductive Write where
  | doc (d : Doc)
  | history
  | event
deriving DecidableEq, Repr

def writes : List Write := [.doc .memory, .history, .doc .user, .doc .soul, .event]

inductive Phase where
  /-- the documents read so far -/
  | reading (reads : List Str)
  | calling (reads : List Str)
  /-- the writes done so far -/
  | writing (answer : Answer) (reads : List Str) (done : ℕ)
  | ended
deriving DecidableEq, Repr

/-- a run of `compact_session` -/
structure Run where
  messages : List AgentMessage
  phase : Phase
  /-- it appended an entry -/
  appended : Bool
  /-- its append raised -/
  raised : Bool
deriving DecidableEq, Repr

/-- a model call -/
structure Call where
  recovery : Bool
  conversation : Str
deriving DecidableEq, Repr

/-- a run flips the event -/
structure Completion where
  call : Call
  summary : Str
  appended : Bool
  raised : Bool
deriving DecidableEq, Repr

/-- an attempt of a sweep at an event -/
inductive Attempt where
  | claimed
  | exhausting
  | running (r : Run)
deriving DecidableEq, Repr

/-- a row of `compaction_events`, with the runs it has -/
structure Event where
  userId : Str
  triggeredAt : ℤ
  completed : Bool
  minMessageSeq : Option ℕ
  maxMessageSeq : Option ℕ
  retryCount : ℕ
  original : Option Run
  recovery : Option Attempt
  /-- what the trigger handed over -/
  handed : List AgentMessage
  firstCount : ℕ
  attempts : ℕ
  /-- sweeps that ran to their end, with the event in their window -/
  passed : ℕ
  calls : List Call
  entries : List (Call × Str)
  completions : List Completion
deriving DecidableEq, Repr

inductive SweepPhase where
  | selecting
  | between
  | busy (e : ℕ)
deriving DecidableEq, Repr

/-- the sweep that holds the lock -/
structure Sweep where
  now : ℤ
  phase : SweepPhase
  todo : List ℕ
  /-- how many events there were when it selected -/
  seen : ℕ
  /-- events whose claim raised -/
  raised : List ℕ
deriving DecidableEq, Repr

structure St where
  texts : Str → Doc → Str
  events : List Event
  sweep : Option Sweep

/-- a row that was pending before, its first run gone -/
structure Pending where
  userId : Str
  triggeredAt : ℤ
  minMessageSeq : Option ℕ
  maxMessageSeq : Option ℕ
  retryCount : ℕ

def Pending.event (row : Pending) : Event :=
  ⟨row.userId, row.triggeredAt, false, row.minMessageSeq, row.maxMessageSeq, row.retryCount, none, none, [], row.retryCount, 0, 0,
    [], [], []⟩

def init (texts : Str → Doc → Str) (pending : List Pending) : St := ⟨texts, pending.map Pending.event, none⟩

/-- the start of `compact_session` -/
def startRun (messages : List AgentMessage) : Run :=
  ⟨messages, if messages = [] ∨ env.compactionEnabled = false ∨ Text.strip (formatMessages messages) = [] then .ended else .reading [],
    false, false⟩

/-- the messages of `_messages_in_range_select`, converted -/
def rangeMessages (ev : Event) : List AgentMessage :=
  match env.rows ev.userId, ev.minMessageSeq, ev.maxMessageSeq with
  | some rows, some minSeq, some maxSeq =>
    storedMessagesToAgentMessages env.history (rows.filter fun m => minSeq ≤ m.seq ∧ m.seq ≤ maxSeq) (env.timezone ev.userId) []
  | _, _, _ => []

/-- the window of a sweep -/
def InWindow (now triggeredAt : ℤ) : Prop :=
  now - env.lookbackMinutes * 60 ≤ triggeredAt ∧ triggeredAt ≤ now - graceSeconds

instance (now triggeredAt : ℤ) : Decidable (InWindow env now triggeredAt) := inferInstanceAs (Decidable (_ ∧ _))

/-- the rows of `_stale_pending_events_select` -/
def Stale (now : ℤ) (ev : Event) : Prop :=
  ev.completed = false ∧ InWindow env now ev.triggeredAt ∧ ev.retryCount < maxAttempts ∧
    ev.minMessageSeq.isSome = true ∧ ev.maxMessageSeq.isSome = true

instance (now : ℤ) (ev : Event) : Decidable (Stale env now ev) := inferInstanceAs (Decidable (_ ∧ _))

/-- `_stale_pending_events_select`: the ids, by age -/
def stalePendingEvents (now : ℤ) (events : List Event) : List ℕ :=
  ((events.zipIdx.filter fun x => Stale env now x.1).insertionSort fun x y => x.1.triggeredAt ≤ y.1.triggeredAt).map Prod.snd

/-- the first run of an event, or the one of its attempt -/
def Event.run (ev : Event) : Bool → Option Run
  | false => ev.original
  | true => match ev.recovery with
    | some (.running r) => some r
    | _ => none

def Event.setRun (ev : Event) : Bool → Run → Event
  | false, r => { ev with original := some r }
  | true, r => { ev with recovery := some (.running r) }

def callOf (recovery : Bool) (r : Run) : Call := ⟨recovery, formatMessages r.messages⟩

/-- the run calls the model -/
def Event.call (ev : Event) (recovery : Bool) (r : Run) (reads : List Str) : Event :=
  Event.setRun { ev with calls := ev.calls ++ [callOf recovery r] } recovery { r with phase := .calling reads }

/-- the run appends an entry to HISTORY.md -/
def Event.append (ev : Event) (recovery : Bool) (r : Run) (entry : Str) (phase : Phase) : Event :=
  Event.setRun { ev with entries := ev.entries ++ [(callOf recovery r, entry)] } recovery { r with phase := phase, appended := true }

/-- `_persist_compaction_event` -/
def Event.complete (ev : Event) (recovery : Bool) (r : Run) (summary : Str) : Event :=
  Event.setRun { ev with completed := true, completions := ev.completions ++ [⟨callOf recovery r, summary, r.appended, r.raised⟩] }
    recovery { r with phase := .ended }

/-- `_claim_attempt` -/
def Event.claim (ev : Event) : Option Event :=
  if ev.completed = false ∧ ev.retryCount < maxAttempts then
    some { ev with retryCount := ev.retryCount + 1, attempts := ev.attempts + 1, recovery := some .claimed }
  else none

/-- `_exhaust_event` -/
def Event.exhaust (ev : Event) : Event :=
  { ev with retryCount := if ev.completed then ev.retryCount else maxAttempts, recovery := none }

inductive Op where
  /-- a trigger hands over dropped messages -/
  | trigger (userId : Str) (triggeredAt : ℤ) (dropped : List AgentMessage)
  /-- a run gets to its next await, where a call may raise -/
  | resume (e : ℕ) (recovery raises : Bool) (now : Str)
  /-- the model answers, or the call fails -/
  | answer (e : ℕ) (recovery : Bool) (raw : Option Str)
  /-- a run is killed, or raises -/
  | stop (e : ℕ) (recovery : Bool)
  | boot (now : ℤ)
  /-- the sweep gets to its next await, where a call may raise -/
  | sweep (raises : Bool)
  /-- the process of the sweep is killed -/
  | kill
deriving DecidableEq, Repr

def St.setEvent (s : St) (e : ℕ) (ev : Event) : St := { s with events := s.events.set e ev }

/-- a write of a document: a compare-and-set on the text that was read -/
def writeDoc (texts : Str → Doc → Str) (userId : Str) (d : Doc) (update expectedCurrent : Str) : Str → Doc → Str :=
  if Memory.Compaction.changed false d update expectedCurrent then
    match writeIfUnchanged d update expectedCurrent (texts userId d) with
    | some t => Function.update texts userId (Function.update (texts userId) d t)
    | none => texts
  else texts

/-- the next transaction of a run -/
def resumeRun (s : St) (e : ℕ) (ev : Event) (recovery : Bool) (r : Run) (raises : Bool) (now : Str) : St :=
  let ended := s.setEvent e (ev.setRun recovery { r with phase := .ended })
  match r.phase with
  | .reading reads =>
    if raises then ended
    else match Memory.docs[reads.length]? with
      | some d => s.setEvent e (ev.setRun recovery { r with phase := .reading (reads ++ [readForm d (s.texts ev.userId d)]) })
      | none => s.setEvent e (ev.call recovery r reads)
  | .writing a reads done =>
    let next := Phase.writing a reads (done + 1)
    match writes[done]? with
    | some (.doc d) =>
      if raises then ended
      else
        { s.setEvent e (ev.setRun recovery { r with phase := next }) with
          texts := writeDoc s.texts ev.userId d (a.toCompactionResult.update d) ((reads[Memory.docs.idxOf d]?).getD []) }
    | some .history =>
      -- a failed append is logged, and the run goes on
      if a.summary = [] then s.setEvent e (ev.setRun recovery { r with phase := next })
      else if raises then s.setEvent e (ev.setRun recovery { r with phase := next, raised := true })
      else s.setEvent e (ev.append recovery r (fillTimestamps now 0 a.summary) next)
    | some .event =>
      -- and so is a failed update of the event
      if raises then ended
      else s.setEvent e (ev.complete recovery r a.summary)
    | none => ended
  | _ => s

/-- the model answers a run -/
def answerRun (s : St) (e : ℕ) (ev : Event) (recovery : Bool) (r : Run) (raw : Option Str) : St :=
  match r.phase with
  | .calling reads =>
    let phase := match raw with
      | some raw => Phase.writing (parseCompactionResponse env raw) reads 0
      | none => .ended
    s.setEvent e (ev.setRun recovery { r with phase := phase })
  | _ => s

/-- the event of a sweep is done with: the next one -/
def St.between (s : St) (sw : Sweep) : St := { s with sweep := some { sw with phase := .between } }

/-- the next step of a sweep -/
def resumeSweep (s : St) (sw : Sweep) (raises : Bool) : St :=
  match sw.phase with
  | .selecting =>
    -- an exception in the query ends the sweep
    if raises then { s with sweep := none }
    else { s with sweep := some { sw with phase := .between, todo := stalePendingEvents env sw.now s.events, seen := s.events.length } }
  | .between =>
    match sw.todo with
    | [] =>
      { s with
        events := s.events.mapIdx fun e ev =>
          if e < sw.seen ∧ InWindow env sw.now ev.triggeredAt ∧ e ∉ sw.raised then { ev with passed := ev.passed + 1 } else ev
        sweep := none }
    | e :: rest =>
      if raises then { s with sweep := some { sw with todo := rest, raised := e :: sw.raised } }
      else match s.events[e]?.bind Event.claim with
        | some ev => { s.setEvent e ev with sweep := some { sw with todo := rest, phase := .busy e } }
        | none => { s with sweep := some { sw with todo := rest } }
  | .busy e =>
    match s.events[e]? with
    | none => s.between sw
    | some ev =>
      match ev.recovery with
      | some .claimed =>
        if raises then (s.setEvent e { ev with recovery := none }).between sw
        else
          let messages := rangeMessages env ev
          if messages = [] then s.setEvent e { ev with recovery := some .exhausting }
          else s.setEvent e { ev with recovery := some (.running (startRun env messages)) }
      | some .exhausting => (s.setEvent e (if raises then { ev with recovery := none } else ev.exhaust)).between sw
      | some (.running r) => if r.phase = .ended then (s.setEvent e { ev with recovery := none }).between sw else s
      | none => s.between sw

def step (s : St) : Op → St
  | .trigger userId triggeredAt dropped =>
    match (seqsFromDropped dropped).min?, (seqsFromDropped dropped).max? with
    | some minSeq, some maxSeq =>
      if env.compactionEnabled then
        { s with events := s.events ++ [⟨userId, triggeredAt, false, some minSeq, some maxSeq, 0, some (startRun env dropped), none,
            dropped, 0, 0, 0, [], [], []⟩] }
      else s
    | _, _ => s
  | .resume e recovery raises now =>
    match s.events[e]? with
    | some ev => match ev.run recovery with
      | some r => resumeRun s e ev recovery r raises now
      | none => s
    | none => s
  | .answer e recovery raw =>
    match s.events[e]? with
    | some ev => match ev.run recovery with
      | some r => answerRun env s e ev recovery r raw
      | none => s
    | none => s
  | .stop e recovery =>
    match s.events[e]? with
    | some ev => match ev.run recovery with
      | some r => s.setEvent e (ev.setRun recovery { r with phase := .ended })
      | none => s
    | none => s
  | .boot now =>
    if env.lookbackMinutes = 0 ∨ env.compactionEnabled = false ∨ s.sweep ≠ none then s
    else { s with sweep := some ⟨now, .selecting, [], 0, []⟩ }
  | .sweep raises =>
    match s.sweep with
    | some sw => resumeSweep env s sw raises
    | none => s
  | .kill =>
    match s.sweep with
    | some ⟨_, .busy e, _, _, _⟩ =>
      { s with events := s.events.modify e fun ev => { ev with recovery := none }, sweep := none }
    | _ => { s with sweep := none }

abbrev run (s : St) (ops : List Op) : St := Runs.run (step env) s ops

/-! ## What one step does to an event -/

section
variable {env}

inductive Becomes (env : Env) (ev : Event) : Event → Prop
  | same : Becomes env ev ev
  | stop (b : Bool) (r : Run) (hr : ev.run b = some r) : Becomes env ev (ev.setRun b { r with phase := .ended })
  | read (b : Bool) (r : Run) (hr : ev.run b = some r) (reads more : List Str) (hphase : r.phase = .reading reads) :
      Becomes env ev (ev.setRun b { r with phase := .reading more })
  | call (b : Bool) (r : Run) (hr : ev.run b = some r) (reads : List Str) (hphase : r.phase = .reading reads) :
      Becomes env ev (ev.call b r reads)
  | answer (b : Bool) (r : Run) (hr : ev.run b = some r) (reads : List Str) (hphase : r.phase = .calling reads) (a : Answer) :
      Becomes env ev (ev.setRun b { r with phase := .writing a reads 0 })
  | doc (b : Bool) (r : Run) (hr : ev.run b = some r) (a : Answer) (reads : List Str) (done : ℕ)
      (hphase : r.phase = .writing a reads done) (d : Doc) (hwrite : writes[done]? = some (.doc d)) :
      Becomes env ev (ev.setRun b { r with phase := .writing a reads (done + 1) })
  | noEntry (b : Bool) (r : Run) (hr : ev.run b = some r) (a : Answer) (reads : List Str) (done : ℕ)
      (hphase : r.phase = .writing a reads done) (hwrite : writes[done]? = some .history) (hnone : a.summary = []) :
      Becomes env ev (ev.setRun b { r with phase := .writing a reads (done + 1) })
  | appendFails (b : Bool) (r : Run) (hr : ev.run b = some r) (a : Answer) (reads : List Str) (done : ℕ)
      (hphase : r.phase = .writing a reads done) (hwrite : writes[done]? = some .history) (hsome : a.summary ≠ []) :
      Becomes env ev (ev.setRun b { r with phase := .writing a reads (done + 1), raised := true })
  | append (b : Bool) (r : Run) (hr : ev.run b = some r) (a : Answer) (reads : List Str) (done : ℕ)
      (hphase : r.phase = .writing a reads done) (hwrite : writes[done]? = some .history) (hsome : a.summary ≠ []) (entry : Str) :
      Becomes env ev (ev.append b r entry (.writing a reads (done + 1)))
  | complete (b : Bool) (r : Run) (hr : ev.run b = some r) (a : Answer) (reads : List Str) (done : ℕ)
      (hphase : r.phase = .writing a reads done) (hwrite : writes[done]? = some .event) :
      Becomes env ev (ev.complete b r a.summary)
  | claim (ev' : Event) (hclaim : ev.claim = some ev') : Becomes env ev ev'
  | exhausting (hclaimed : ev.recovery = some .claimed) (hnone : rangeMessages env ev = []) :
      Becomes env ev { ev with recovery := some .exhausting }
  | start (hclaimed : ev.recovery = some .claimed) :
      Becomes env ev { ev with recovery := some (.running (startRun env (rangeMessages env ev))) }
  | clear : Becomes env ev { ev with recovery := none }
  | exhaust (hexhausting : ev.recovery = some .exhausting) : Becomes env ev ev.exhaust

/-- an event that a trigger adds -/
def added (env : Env) (userId : Str) (triggeredAt : ℤ) (dropped : List AgentMessage) (minSeq maxSeq : ℕ) : Event :=
  ⟨userId, triggeredAt, false, some minSeq, some maxSeq, 0, some (startRun env dropped), none, dropped, 0, 0, 0, [], [], []⟩

/-- where the event at a place of the list comes from -/
def Comes (env : Env) (s : St) (e : ℕ) (ev' : Event) : Prop :=
  (∃ ev, s.events[e]? = some ev ∧ Becomes env ev ev') ∨
    e = s.events.length ∧ ∃ userId triggeredAt dropped minSeq maxSeq, ev' = added env userId triggeredAt dropped minSeq maxSeq

/-- a sweep runs to its end, and has passed the event -/
def Passes (env : Env) (s : St) (e : ℕ) (ev' : Event) : Prop :=
  ∃ ev sw, s.events[e]? = some ev ∧ s.sweep = some sw ∧ sw.todo = [] ∧ e < sw.seen ∧ InWindow env sw.now ev.triggeredAt ∧
    e ∉ sw.raised ∧ ev' = { ev with passed := ev.passed + 1 }

theorem comes_same {s : St} {e : ℕ} {ev : Event} (h : s.events[e]? = some ev) : Comes env s e ev := .inl ⟨ev, h, .same⟩

theorem comes_setEvent {s : St} {e i : ℕ} {ev ev' ev'' : Event} (hev : s.events[e]? = some ev) (hbecomes : Becomes env ev ev')
    (h : (s.setEvent e ev').events[i]? = some ev'') : Comes env s i ev'' := by
  have hset : (s.events.set e ev')[i]? = some ev'' := h
  rw [List.getElem?_set] at hset
  split_ifs at hset with hi hlt
  · obtain rfl := hi
    obtain rfl := Option.some.inj hset
    exact .inl ⟨ev, hev, hbecomes⟩
  · exact comes_same hset

theorem comes_resumeRun {s : St} {e : ℕ} {ev : Event} (hev : s.events[e]? = some ev) {b : Bool} {r : Run} (hr : ev.run b = some r)
    (raises : Bool) (now : Str) {i : ℕ} {ev' : Event} (h : (resumeRun s e ev b r raises now).events[i]? = some ev') :
    Comes env s i ev' := by
  unfold resumeRun at h
  dsimp only at h
  cases hphase : r.phase with
  | reading reads =>
    rw [hphase] at h
    dsimp only at h
    split_ifs at h
    · exact comes_setEvent hev (.stop b r hr) h
    · split at h
      · exact comes_setEvent hev (.read b r hr reads _ hphase) h
      · exact comes_setEvent hev (.call b r hr reads hphase) h
  | calling reads =>
    rw [hphase] at h
    exact comes_same h
  | writing a reads done =>
    rw [hphase] at h
    dsimp only at h
    split at h
    next d hwrite =>
      split_ifs at h
      · exact comes_setEvent hev (.stop b r hr) h
      · exact comes_setEvent hev (.doc b r hr a reads done hphase d hwrite) h
    next hwrite =>
      split_ifs at h with hnone
      · exact comes_setEvent hev (.noEntry b r hr a reads done hphase hwrite hnone) h
      · exact comes_setEvent hev (.appendFails b r hr a reads done hphase hwrite hnone) h
      · exact comes_setEvent hev (.append b r hr a reads done hphase hwrite hnone _) h
    next hwrite =>
      split_ifs at h
      · exact comes_setEvent hev (.stop b r hr) h
      · exact comes_setEvent hev (.complete b r hr a reads done hphase hwrite) h
    next => exact comes_setEvent hev (.stop b r hr) h
  | ended =>
    rw [hphase] at h
    exact comes_same h

theorem comes_answerRun {s : St} {e : ℕ} {ev : Event} (hev : s.events[e]? = some ev) {b : Bool} {r : Run} (hr : ev.run b = some r)
    (raw : Option Str) {i : ℕ} {ev' : Event} (h : (answerRun env s e ev b r raw).events[i]? = some ev') : Comes env s i ev' := by
  unfold answerRun at h
  cases hphase : r.phase with
  | calling reads =>
    rw [hphase] at h
    cases raw with
    | none => exact comes_setEvent hev (.stop b r hr) h
    | some raw => exact comes_setEvent hev (.answer b r hr reads hphase _) h
  | reading reads =>
    rw [hphase] at h
    exact comes_same h
  | writing a reads done =>
    rw [hphase] at h
    exact comes_same h
  | ended =>
    rw [hphase] at h
    exact comes_same h

theorem comes_resumeSweep {s : St} {sw : Sweep} (hsw : s.sweep = some sw) (raises : Bool) {i : ℕ} {ev' : Event}
    (h : (resumeSweep env s sw raises).events[i]? = some ev') :
    Comes env s i ev' ∨ Passes env s i ev' ∧ (resumeSweep env s sw raises).sweep = none := by
  unfold resumeSweep at h ⊢
  split at h
  next =>
    split_ifs at h
    · exact .inl (comes_same h)
    · exact .inl (comes_same h)
  next hphase =>
    split at h
    next htodo =>
      have hmap : (s.events.mapIdx _)[i]? = some ev' := h
      rw [List.getElem?_mapIdx, Option.map_eq_some_iff] at hmap
      obtain ⟨ev, hev, rfl⟩ := hmap
      split_ifs with hpass
      · exact .inr ⟨⟨ev, sw, hev, hsw, htodo, hpass.1, hpass.2.1, hpass.2.2, rfl⟩, rfl⟩
      · exact .inl (comes_same hev)
    next e rest _ =>
      refine .inl ?_
      split_ifs at h
      · exact comes_same h
      · split at h
        next ev hclaim =>
          obtain ⟨ev₀, hev₀, hclaim⟩ := Option.bind_eq_some_iff.1 hclaim
          exact comes_setEvent hev₀ (.claim ev hclaim) h
        next => exact comes_same h
  next e _ =>
    refine .inl ?_
    split at h
    next => exact comes_same h
    next ev hev =>
      split at h
      next hclaimed =>
        dsimp only at h
        split_ifs at h with hraises hnone
        · exact comes_setEvent hev .clear h
        · exact comes_setEvent hev (.exhausting hclaimed hnone) h
        · exact comes_setEvent hev (.start hclaimed) h
      next hexhausting =>
        split_ifs at h
        · exact comes_setEvent hev .clear h
        · exact comes_setEvent hev (.exhaust hexhausting) h
      next r _ =>
        split_ifs at h
        · exact comes_setEvent hev .clear h
        · exact comes_same h
      next => exact comes_same h

/-- **One step.** An event is one of before, changed as `Becomes` says, or one that a trigger adds, or one that a sweep has
passed at its end. -/
theorem step_events {s : St} (o : Op) {i : ℕ} {ev' : Event} (h : (step env s o).events[i]? = some ev') :
    Comes env s i ev' ∨ Passes env s i ev' ∧ (step env s o).sweep = none := by
  cases o with
  | trigger userId triggeredAt dropped =>
    simp only [step] at h
    split at h
    next minSeq maxSeq _ _ =>
      split_ifs at h
      · have happend : (s.events ++ [_])[i]? = some ev' := h
        rw [List.getElem?_append] at happend
        split_ifs at happend with hlt
        · exact .inl (comes_same happend)
        · have hzero : i - s.events.length = 0 := by
            by_contra hne
            rw [List.getElem?_eq_none (by rw [List.length_singleton]; omega)] at happend
            cases happend
          rw [hzero, List.getElem?_cons_zero] at happend
          exact .inl (.inr ⟨by omega, userId, triggeredAt, dropped, minSeq, maxSeq, (Option.some.inj happend).symm⟩)
      · exact .inl (comes_same h)
    next => exact .inl (comes_same h)
  | resume e b raises now =>
    simp only [step] at h
    split at h
    next ev hev =>
      split at h
      next r hr => exact .inl (comes_resumeRun hev hr raises now h)
      next => exact .inl (comes_same h)
    next => exact .inl (comes_same h)
  | answer e b raw =>
    simp only [step] at h
    split at h
    next ev hev =>
      split at h
      next r hr => exact .inl (comes_answerRun hev hr raw h)
      next => exact .inl (comes_same h)
    next => exact .inl (comes_same h)
  | stop e b =>
    simp only [step] at h
    split at h
    next ev hev =>
      split at h
      next r hr => exact .inl (comes_setEvent hev (.stop b r hr) h)
      next => exact .inl (comes_same h)
    next => exact .inl (comes_same h)
  | boot now =>
    simp only [step] at h
    split_ifs at h
    · exact .inl (comes_same h)
    · exact .inl (comes_same h)
  | sweep raises =>
    simp only [step] at h
    cases hsw : s.sweep with
    | some sw =>
      rw [hsw] at h
      rw [step, hsw]
      exact comes_resumeSweep hsw raises h
    | none =>
      rw [hsw] at h
      exact .inl (comes_same h)
  | kill =>
    simp only [step] at h
    split at h
    next e _ _ _ _ =>
      have hmodify : (s.events.modify e _)[i]? = some ev' := h
      rw [List.getElem?_modify, Option.map_eq_map, Option.map_eq_some_iff] at hmodify
      obtain ⟨ev, hev, rfl⟩ := hmodify
      refine .inl (.inl ⟨ev, hev, ?_⟩)
      split_ifs
      · exact .clear
      · exact .same
    next => exact .inl (comes_same h)

/-! ## What an event has been through -/

/-- the messages that a run of an event gets -/
def source (env : Env) (ev : Event) : Bool → List AgentMessage
  | false => ev.handed
  | true => rangeMessages env ev

/-- whether the run may call the model yet -/
def Run.canCall (r : Run) : ℕ :=
  match r.phase with
  | .reading _ => 1
  | _ => 0

/-- whether it may append, having called the model -/
def Run.canAppend (r : Run) : ℕ :=
  match r.phase with
  | .calling _ => 1
  | .writing _ _ done => if done ≤ 1 then 1 else 0
  | _ => 0

/-- whether a run of the event may call the model yet; a claimed attempt may -/
def Event.canCall (ev : Event) : Bool → ℕ
  | false => (ev.original.map Run.canCall).getD 0
  | true => match ev.recovery with
    | some .claimed => 1
    | some (.running r) => r.canCall
    | _ => 0

def Event.canAppend (ev : Event) (b : Bool) : ℕ := ((ev.run b).map Run.canAppend).getD 0

def Event.callCount (ev : Event) (b : Bool) : ℕ := ev.calls.countP fun c => c.recovery = b

/-- a run, over the model calls made so far -/
structure Run.Ok (calls : List Call) (messages : List AgentMessage) (b : Bool) (r : Run) : Prop where
  messages : r.messages = messages
  called : ∀ reads, r.phase = .calling reads → callOf b r ∈ calls
  written : ∀ a reads done, r.phase = .writing a reads done → callOf b r ∈ calls
  early : (∀ a reads done, r.phase = .writing a reads done → done ≤ 1) → r.phase ≠ .ended → r.appended = false ∧ r.raised = false
  late : ∀ a reads done, r.phase = .writing a reads done → 2 ≤ done → r.appended = (decide (a.summary ≠ []) && !r.raised)

structure Event.Ok (env : Env) (ev : Event) : Prop where
  runs : ∀ b r, ev.run b = some r → Run.Ok ev.calls (source env ev b) b r
  exhausting : ev.recovery = some .exhausting → rangeMessages env ev = []
  called : ∀ c ∈ ev.calls, c.conversation = formatMessages (source env ev c.recovery)
  entered : ∀ x ∈ ev.entries, x.1 ∈ ev.calls
  marked : ∀ k ∈ ev.completions, k.call ∈ ev.calls ∧ k.appended = (decide (k.summary ≠ []) && !k.raised)
  completed : ev.completed = true → ev.completions ≠ []
  originals : ev.callCount false + ev.canCall false ≤ 1
  recoveries : ev.callCount true + ev.canCall true ≤ ev.attempts
  attempts_le : ev.attempts ≤ maxAttempts ∧ ev.attempts ≤ ev.retryCount
  counted : ev.retryCount = ev.firstCount + ev.attempts ∨ rangeMessages env ev = []
  entries_le : ev.entries.length + ev.canAppend false + ev.canAppend true ≤ ev.calls.length

section
variable {ev : Event} {b : Bool} {r r' : Run}

@[simp] theorem run_setRun : (ev.setRun b r').run b = some r' := by cases b <;> rfl

theorem run_setRun_not : (ev.setRun b r').run (!b) = ev.run (!b) := by cases b <;> rfl

@[simp] theorem canCall_setRun : (ev.setRun b r').canCall b = r'.canCall := by cases b <;> rfl

theorem canCall_of_run (h : ev.run b = some r) : ev.canCall b = r.canCall := by
  cases b with
  | false =>
    have horiginal : ev.original = some r := h
    rw [Event.canCall, horiginal]
    rfl
  | true =>
    simp only [Event.run] at h
    split at h
    next r' hrecovery =>
      obtain rfl := Option.some.inj h
      rw [Event.canCall, hrecovery]
    next => cases h

theorem canAppend_of_run (h : ev.run b = some r) : ev.canAppend b = r.canAppend := by
  rw [Event.canAppend, h]
  rfl

theorem Run.Ok.mono {calls more : List Call} {messages : List AgentMessage} (h : Run.Ok calls messages b r) :
    Run.Ok (calls ++ more) messages b r where
  messages := h.messages
  called := fun reads hphase => List.mem_append_left _ (h.called reads hphase)
  written := fun a reads done hphase => List.mem_append_left _ (h.written a reads done hphase)
  early := h.early
  late := h.late

/-- the event with new calls, entries and completions -/
def Event.grown (ev : Event) (C : List Call) (E : List (Call × Str)) (K : List Completion) (done : Bool) : Event :=
  { ev with calls := ev.calls ++ C, entries := ev.entries ++ E, completions := ev.completions ++ K, completed := done }

theorem grown_nil : ev.grown [] [] [] ev.completed = ev := by
  rw [Event.grown, List.append_nil, List.append_nil, List.append_nil]

theorem callCount_grown {C : List Call} (hcalls : ∀ c ∈ C, c.recovery = b) (x : Bool) :
    (ev.calls ++ C).countP (fun c => c.recovery = x) = ev.callCount x + if x = b then C.length else 0 := by
  rw [List.countP_append, Event.callCount]
  congr 1
  split_ifs with hx
  · exact List.countP_eq_length.2 fun c hc => decide_eq_true ((hcalls c hc).trans hx.symm)
  · exact List.countP_eq_zero.2 fun c hc => by rw [hcalls c hc]; simpa using Ne.symm hx

/-- **One run.** A run goes on, calls, appends or completes, as it may; the other run is as it was. -/
theorem Event.Ok.setRun (h : ev.Ok env) (hr : ev.run b = some r) (r' : Run) (C : List Call) (E : List (Call × Str))
    (K : List Completion) (done : Bool) (hC : C.length + r'.canCall ≤ r.canCall) (hE : E.length + r'.canAppend ≤ r.canAppend + C.length)
    (hcalls : ∀ c ∈ C, c = callOf b r) (hentries : ∀ x ∈ E, x.1 ∈ ev.calls)
    (hmarked : ∀ k ∈ K, k.call ∈ ev.calls ∧ k.appended = (decide (k.summary ≠ []) && !k.raised))
    (hdone : done = true → ev.completed = true ∨ K ≠ []) (hrun : Run.Ok (ev.calls ++ C) (source env ev b) b r') :
    Event.Ok env ((ev.grown C E K done).setRun b r') := by
  have hmessages := (h.runs b r hr).messages
  have hown := canCall_of_run hr
  have happend := canAppend_of_run hr
  have hcount := @callCount_grown ev b C fun c hc => by rw [hcalls c hc]; rfl
  have hother : ((ev.grown C E K done).setRun b r').canAppend (!b) = ev.canAppend (!b) := by
    rw [Event.canAppend, run_setRun_not]
    rfl
  have hself : ((ev.grown C E K done).setRun b r').canAppend b = r'.canAppend := canAppend_of_run run_setRun
  have hcalls' : ((ev.grown C E K done).setRun b r').calls = ev.calls ++ C := by cases b <;> rfl
  have hentries' : ((ev.grown C E K done).setRun b r').entries = ev.entries ++ E := by cases b <;> rfl
  have hmarked' : ((ev.grown C E K done).setRun b r').completions = ev.completions ++ K := by cases b <;> rfl
  have hsource : ∀ x, source env ((ev.grown C E K done).setRun b r') x = source env ev x := by
    intro x
    cases b <;> cases x <;> rfl
  constructor
  case runs =>
    intro x r₁ hr₁
    rw [hcalls', hsource]
    by_cases hx : x = b
    · subst hx
      rw [run_setRun] at hr₁
      obtain rfl := Option.some.inj hr₁
      exact hrun
    · obtain rfl : x = !b := Bool.eq_not.2 hx
      rw [run_setRun_not] at hr₁
      exact (h.runs _ r₁ hr₁).mono
  case exhausting =>
    intro hex
    cases b with
    | false => exact h.exhausting hex
    | true => cases hex
  case called =>
    intro c hc
    rw [hsource]
    rw [hcalls'] at hc
    obtain hc | hc := List.mem_append.1 hc
    · exact h.called c hc
    · rw [hcalls c hc, callOf, hmessages]
  case entered =>
    intro x hx
    rw [hcalls']
    rw [hentries'] at hx
    obtain hx | hx := List.mem_append.1 hx
    · exact List.mem_append_left _ (h.entered x hx)
    · exact List.mem_append_left _ (hentries x hx)
  case marked =>
    intro k hk
    rw [hcalls']
    rw [hmarked'] at hk
    obtain hk | hk := List.mem_append.1 hk
    · exact ⟨List.mem_append_left _ (h.marked k hk).1, (h.marked k hk).2⟩
    · exact ⟨List.mem_append_left _ (hmarked k hk).1, (hmarked k hk).2⟩
  case completed =>
    intro hcompleted
    rw [hmarked']
    have hd : done = true := by cases b <;> exact hcompleted
    obtain hold | hnew := hdone hd
    · exact List.append_ne_nil_of_left_ne_nil (h.completed hold) K
    · exact List.append_ne_nil_of_right_ne_nil _ hnew
  case originals =>
    rw [Event.callCount, hcalls', hcount]
    have := h.originals
    cases b with
    | false =>
      rw [canCall_setRun, if_pos rfl]
      omega
    | true =>
      have hsame : ((ev.grown C E K done).setRun true r').canCall false = ev.canCall false := rfl
      rw [hsame, if_neg Bool.false_ne_true]
      exact this
  case recoveries =>
    rw [Event.callCount, hcalls', hcount]
    have := h.recoveries
    have hattempts : ((ev.grown C E K done).setRun b r').attempts = ev.attempts := by cases b <;> rfl
    rw [hattempts]
    cases b with
    | true =>
      rw [canCall_setRun, if_pos rfl]
      omega
    | false =>
      have hsame : ((ev.grown C E K done).setRun false r').canCall true = ev.canCall true := rfl
      rw [hsame, if_neg (Ne.symm Bool.false_ne_true)]
      exact this
  case attempts_le => cases b <;> exact h.attempts_le
  case counted => cases b <;> exact h.counted
  case entries_le =>
    rw [hcalls', hentries', List.length_append, List.length_append]
    have := h.entries_le
    cases b with
    | false =>
      have hself : ((ev.grown C E K done).setRun false r').canAppend false = r'.canAppend := hself
      have hother : ((ev.grown C E K done).setRun false r').canAppend true = ev.canAppend true := hother
      omega
    | true =>
      have hself : ((ev.grown C E K done).setRun true r').canAppend true = r'.canAppend := hself
      have hother : ((ev.grown C E K done).setRun true r').canAppend false = ev.canAppend false := hother
      omega

/-- a run that goes on without a call, an entry or the event -/
theorem Event.Ok.move (h : ev.Ok env) (hr : ev.run b = some r) (hC : r'.canCall ≤ r.canCall) (hE : r'.canAppend ≤ r.canAppend)
    (hrun : Run.Ok ev.calls (source env ev b) b r') : Event.Ok env (ev.setRun b r') := by
  have hgrown := h.setRun hr r' [] [] [] ev.completed (by simpa using hC) (by simpa using hE)
    (fun c hc => by cases hc) (fun x hx => by cases hx) (fun k hk => by cases hk) .inl (by rwa [List.append_nil])
  rwa [grown_nil] at hgrown

theorem writes_history {done : ℕ} (h : writes[done]? = some .history) : done = 1 := by
  match done with
  | 0 => cases h
  | 1 => rfl
  | 2 => cases h
  | 3 => cases h
  | 4 => cases h
  | n + 5 => cases h

theorem writes_event {done : ℕ} (h : writes[done]? = some .event) : done = 4 := by
  match done with
  | 0 => cases h
  | 1 => cases h
  | 2 => cases h
  | 3 => cases h
  | 4 => rfl
  | n + 5 => cases h

theorem writes_doc {done : ℕ} {d : Doc} (h : writes[done]? = some (.doc d)) : done = 0 ∨ done = 2 ∨ done = 3 := by
  match done with
  | 0 => exact .inl rfl
  | 1 => cases h
  | 2 => exact .inr (.inl rfl)
  | 3 => exact .inr (.inr rfl)
  | 4 => cases h
  | n + 5 => cases h

/-- a run that ended -/
theorem Run.Ok.ended {calls : List Call} {messages : List AgentMessage} (h : Run.Ok calls messages b r) :
    Run.Ok calls messages b { r with phase := .ended } where
  messages := h.messages
  called := fun _ hphase => by cases hphase
  written := fun _ _ _ hphase => by cases hphase
  early := fun _ hne => absurd rfl hne
  late := fun _ _ _ hphase => by cases hphase

theorem startRun_ok (calls : List Call) (messages : List AgentMessage) : Run.Ok calls messages b (startRun env messages) where
  messages := rfl
  called := fun reads hphase => by
    simp only [startRun] at hphase
    split_ifs at hphase
  written := fun a reads done hphase => by
    simp only [startRun] at hphase
    split_ifs at hphase
  early := fun _ _ => ⟨rfl, rfl⟩
  late := fun a reads done hphase => by
    simp only [startRun] at hphase
    split_ifs at hphase

theorem startRun_tokens (env : Env) (messages : List AgentMessage) :
    (startRun env messages).canCall ≤ 1 ∧ (startRun env messages).canAppend = 0 := by
  unfold Run.canCall Run.canAppend startRun
  dsimp only
  split_ifs
  · exact ⟨Nat.zero_le _, rfl⟩
  · exact ⟨le_rfl, rfl⟩

end

/-- a change that leaves the runs and what they did alone, and the first run -/
theorem Event.Ok.attempt {ev : Event} (h : ev.Ok env) (recovery : Option Attempt) (retryCount attempts passed : ℕ)
    (hruns : ∀ r, recovery = some (.running r) → Run.Ok ev.calls (rangeMessages env ev) true r)
    (hexhausting : recovery = some .exhausting → rangeMessages env ev = [])
    (hcalls : ev.callCount true + Event.canCall { ev with recovery := recovery } true ≤ attempts)
    (hattempts : attempts ≤ maxAttempts ∧ attempts ≤ retryCount)
    (hcounted : retryCount = ev.firstCount + attempts ∨ rangeMessages env ev = [])
    (hentries : Event.canAppend { ev with recovery := recovery } true ≤ ev.canAppend true) :
    Event.Ok env { ev with recovery := recovery, retryCount := retryCount, attempts := attempts, passed := passed } where
  runs := by
    intro b r hr
    cases b with
    | false => exact h.runs false r hr
    | true =>
      refine hruns r ?_
      simp only [Event.run] at hr
      split at hr
      next r' =>
        obtain rfl := Option.some.inj hr
        rfl
      next => cases hr
  exhausting := hexhausting
  called := fun c hc => by
    rw [h.called c hc]
    cases c.recovery <;> rfl
  entered := h.entered
  marked := h.marked
  completed := h.completed
  originals := h.originals
  recoveries := hcalls
  attempts_le := hattempts
  counted := hcounted
  entries_le := by
    have := h.entries_le
    have hfirst : Event.canAppend { ev with recovery := recovery, retryCount := retryCount, attempts := attempts, passed := passed }
      false = ev.canAppend false := rfl
    have hsecond : Event.canAppend { ev with recovery := recovery, retryCount := retryCount, attempts := attempts, passed := passed }
      true = Event.canAppend { ev with recovery := recovery } true := rfl
    rw [hfirst, hsecond]
    exact le_trans (Nat.add_le_add_left hentries _) this

/-- the event without an attempt under way -/
theorem Event.Ok.noAttempt {ev : Event} (h : ev.Ok env) (retryCount passed : ℕ) (hle : ev.attempts ≤ retryCount)
    (hcounted : retryCount = ev.firstCount + ev.attempts ∨ rangeMessages env ev = []) :
    Event.Ok env { ev with recovery := none, retryCount := retryCount, passed := passed } := by
  refine h.attempt none retryCount ev.attempts passed (fun r hr => by cases hr) (fun hr => by cases hr) ?_
    ⟨h.attempts_le.1, hle⟩ hcounted (Nat.zero_le _)
  exact (Nat.add_le_add_left (Nat.zero_le _) _).trans h.recoveries

theorem run_true {ev : Event} {r : Run} : ev.run true = some r ↔ ev.recovery = some (.running r) := by
  simp only [Event.run]
  constructor
  · intro h
    split at h
    next r' hrecovery =>
      obtain rfl := Option.some.inj h
      exact hrecovery
    next => cases h
  · intro h
    rw [h]

theorem claim_eq_some {ev ev' : Event} (h : ev.claim = some ev') : ev.completed = false ∧ ev.retryCount < maxAttempts ∧
    ev' = { ev with retryCount := ev.retryCount + 1, attempts := ev.attempts + 1, recovery := some .claimed } := by
  unfold Event.claim at h
  split_ifs at h with hif
  exact ⟨hif.1, hif.2, (Option.some.inj h).symm⟩

/-- **Events.** What an event has been through is kept by every step. -/
theorem Becomes.ok {ev ev' : Event} (h : Becomes env ev ev') (hok : ev.Ok env) : ev'.Ok env := by
  cases h with
  | same => exact hok
  | stop b r hr => exact hok.move hr (Nat.zero_le _) (Nat.zero_le _) (hok.runs b r hr).ended
  | read b r hr reads more hphase =>
    have hrun := hok.runs b r hr
    have hearly := hrun.early (fun a reads' done hw => by rw [hphase] at hw; cases hw) (by simp [hphase])
    refine hok.move hr (by rw [Run.canCall, Run.canCall, hphase]) (Nat.zero_le _) ⟨hrun.messages, ?_, ?_, fun _ _ => hearly, ?_⟩
    · exact fun _ hp => by cases hp
    · exact fun _ _ _ hp => by cases hp
    · exact fun _ _ _ hp => by cases hp
  | call b r hr reads hphase =>
    have hrun := hok.runs b r hr
    have hearly := hrun.early (fun a reads' done hw => by rw [hphase] at hw; cases hw) (by simp [hphase])
    have hcanCall : r.canCall = 1 := by rw [Run.canCall, hphase]
    have hcanAppend : r.canAppend = 0 := by rw [Run.canAppend, hphase]
    have hgrown := hok.setRun hr { r with phase := .calling reads } [callOf b r] [] [] ev.completed
      (by rw [hcanCall]; rfl) (by rw [hcanAppend]; rfl) (fun c hc => List.mem_singleton.1 hc)
      (fun x hx => by cases hx) (fun k hk => by cases hk) .inl ⟨hrun.messages, ?_, ?_, fun _ _ => hearly, ?_⟩
    · have heq : ev.grown [callOf b r] [] [] ev.completed = { ev with calls := ev.calls ++ [callOf b r] } := by
        rw [Event.grown, List.append_nil, List.append_nil]
      rwa [heq] at hgrown
    · exact fun _ _ => List.mem_append_right _ (List.mem_singleton_self _)
    · exact fun _ _ _ hp => by cases hp
    · exact fun _ _ _ hp => by cases hp
  | answer b r hr reads hphase a =>
    have hrun := hok.runs b r hr
    have hearly := hrun.early (fun a reads' done hw => by rw [hphase] at hw; cases hw) (by simp [hphase])
    refine hok.move hr (Nat.zero_le _) (by rw [Run.canAppend, Run.canAppend, hphase]; rfl)
      ⟨hrun.messages, ?_, ?_, fun _ _ => hearly, ?_⟩
    · exact fun _ hp => by cases hp
    · exact fun _ _ _ _ => hrun.called reads hphase
    · intro a' reads' done hp hdone
      cases hp
      omega
  | doc b r hr a reads done hphase d hwrite =>
    have hrun := hok.runs b r hr
    have hdone := writes_doc hwrite
    refine hok.move hr (Nat.zero_le _) ?_ ⟨hrun.messages, ?_, ?_, ?_, ?_⟩
    · rw [Run.canAppend, Run.canAppend, hphase]
      obtain rfl | rfl | rfl := hdone
      · exact le_rfl
      · exact Nat.zero_le _
      · exact Nat.zero_le _
    · exact fun _ hp => by cases hp
    · exact fun _ _ _ _ => hrun.written a reads done hphase
    · intro hlow _
      have := hlow a reads (done + 1) rfl
      refine hrun.early (fun a' reads' done' hp => ?_) (by simp [hphase])
      rw [hphase] at hp
      cases hp
      omega
    · intro a' reads' done' hp hlate
      cases hp
      have hlate' : 2 ≤ done := by omega
      exact hrun.late a reads done hphase hlate'
  | noEntry b r hr a reads done hphase hwrite hnone =>
    obtain rfl := writes_history hwrite
    have hrun := hok.runs b r hr
    have hearly := hrun.early (fun a' reads' done' hp => by rw [hphase] at hp; cases hp; exact le_rfl) (by simp [hphase])
    refine hok.move hr (Nat.zero_le _) (Nat.zero_le _) ⟨hrun.messages, ?_, ?_, ?_, ?_⟩
    · exact fun _ hp => by cases hp
    · exact fun _ _ _ _ => hrun.written a reads 1 hphase
    · exact fun _ _ => hearly
    · intro a' reads' done' hp _
      cases hp
      show r.appended = _
      rw [hearly.1, hnone]
      rfl
  | appendFails b r hr a reads done hphase hwrite hsome =>
    obtain rfl := writes_history hwrite
    have hrun := hok.runs b r hr
    have hearly := hrun.early (fun a' reads' done' hp => by rw [hphase] at hp; cases hp; exact le_rfl) (by simp [hphase])
    refine hok.move hr (Nat.zero_le _) (Nat.zero_le _) ⟨hrun.messages, ?_, ?_, ?_, ?_⟩
    · exact fun _ hp => by cases hp
    · exact fun _ _ _ _ => hrun.written a reads 1 hphase
    · intro hlow _
      exact absurd (hlow a reads 2 rfl) (by decide)
    · intro a' reads' done' hp _
      show r.appended = _
      rw [hearly.1, Bool.not_true, Bool.and_false]
  | append b r hr a reads done hphase hwrite hsome entry =>
    obtain rfl := writes_history hwrite
    have hrun := hok.runs b r hr
    have hearly := hrun.early (fun a' reads' done' hp => by rw [hphase] at hp; cases hp; exact le_rfl) (by simp [hphase])
    have hmem := hrun.written a reads 1 hphase
    have hcanAppend : r.canAppend = 1 := by rw [Run.canAppend, hphase]; rfl
    have hgrown := hok.setRun hr { r with phase := .writing a reads 2, appended := true } [] [(callOf b r, entry)] []
      ev.completed (Nat.zero_le _) (by rw [hcanAppend]; rfl)
      (fun c hc => by cases hc) (fun x hx => by rwa [List.mem_singleton.1 hx]) (fun k hk => by cases hk) .inl
      ⟨hrun.messages, ?_, ?_, ?_, ?_⟩
    · have heq : ev.grown [] [(callOf b r, entry)] [] ev.completed = { ev with entries := ev.entries ++ [(callOf b r, entry)] } := by
        rw [Event.grown, List.append_nil, List.append_nil]
      rwa [heq] at hgrown
    · exact fun _ hp => by cases hp
    · exact fun _ _ _ _ => List.mem_append_left _ hmem
    · intro hlow _
      exact absurd (hlow a reads 2 rfl) (by decide)
    · intro a' reads' done' hp _
      cases hp
      show true = _
      rw [hearly.2, decide_eq_true hsome]
      rfl
  | complete b r hr a reads done hphase hwrite =>
    obtain rfl := writes_event hwrite
    have hrun := hok.runs b r hr
    have hmem := hrun.written a reads 4 hphase
    have hlate := hrun.late a reads 4 hphase (by decide)
    have hgrown := hok.setRun hr { r with phase := .ended } [] [] [⟨callOf b r, a.summary, r.appended, r.raised⟩] true
      (Nat.zero_le _) (Nat.zero_le _)
      (fun c hc => by cases hc) (fun x hx => by cases hx) (fun k hk => by rw [List.mem_singleton.1 hk]; exact ⟨hmem, hlate⟩)
      (fun _ => .inr (List.cons_ne_nil _ _)) hrun.ended.mono
    have heq : ev.grown [] [] [⟨callOf b r, a.summary, r.appended, r.raised⟩] true =
        { ev with completed := true, completions := ev.completions ++ [⟨callOf b r, a.summary, r.appended, r.raised⟩] } := by
      rw [Event.grown, List.append_nil, List.append_nil]
    rwa [heq] at hgrown
  | claim ev' hclaim =>
    obtain ⟨-, hlt, rfl⟩ := claim_eq_some hclaim
    refine hok.attempt (some .claimed) _ _ ev.passed (fun r hr => by cases hr) (fun hr => by cases hr) ?_
      ⟨hok.attempts_le.2.trans_lt hlt, Nat.succ_le_succ hok.attempts_le.2⟩ ?_ (Nat.zero_le _)
    · have hone : Event.canCall { ev with recovery := some .claimed } true = 1 := rfl
      have := hok.recoveries
      omega
    · obtain hcount | hnone := hok.counted
      · exact .inl (by omega)
      · exact .inr hnone
  | exhausting hclaimed hnone =>
    refine hok.attempt (some .exhausting) _ _ ev.passed (fun r hr => by cases hr) (fun _ => hnone) ?_ hok.attempts_le hok.counted
      (Nat.zero_le _)
    exact (Nat.add_le_add_left (Nat.zero_le _) _).trans hok.recoveries
  | start hclaimed =>
    have htokens := startRun_tokens env (rangeMessages env ev)
    refine hok.attempt (some (.running (startRun env (rangeMessages env ev)))) _ _ ev.passed ?_ (fun hr => by cases hr) ?_
      hok.attempts_le hok.counted ?_
    · intro r hr
      cases hr
      exact startRun_ok _ _
    · have hone : ev.canCall true = 1 := by rw [Event.canCall, hclaimed]
      have hrun : Event.canCall { ev with recovery := some (.running (startRun env (rangeMessages env ev))) } true =
        (startRun env (rangeMessages env ev)).canCall := rfl
      have := hok.recoveries
      omega
    · have hrun : Event.canAppend { ev with recovery := some (.running (startRun env (rangeMessages env ev))) } true =
        (startRun env (rangeMessages env ev)).canAppend := rfl
      rw [hrun, htokens.2]
      exact Nat.zero_le _
  | clear => exact hok.noAttempt ev.retryCount ev.passed hok.attempts_le.2 hok.counted
  | exhaust hexhausting =>
    have hnone := hok.exhausting hexhausting
    unfold Event.exhaust
    split_ifs
    · exact hok.noAttempt ev.retryCount ev.passed hok.attempts_le.2 hok.counted
    · exact hok.noAttempt maxAttempts ev.passed hok.attempts_le.1 (.inr hnone)

/-- a sweep that passes the event -/
theorem Event.Ok.pass {ev : Event} (h : ev.Ok env) : Event.Ok env { ev with passed := ev.passed + 1 } :=
  h.attempt ev.recovery ev.retryCount ev.attempts (ev.passed + 1) (fun r hr => h.runs true r (run_true.2 hr)) h.exhausting
    h.recoveries h.attempts_le h.counted le_rfl

theorem added_ok (userId : Str) (triggeredAt : ℤ) (dropped : List AgentMessage) (minSeq maxSeq : ℕ) :
    (added env userId triggeredAt dropped minSeq maxSeq).Ok env where
  runs := by
    intro b r hr
    cases b with
    | false =>
      cases hr
      exact startRun_ok _ _
    | true => cases hr
  exhausting := fun h => by cases h
  called := fun c hc => by cases hc
  entered := fun x hx => by cases hx
  marked := fun k hk => by cases hk
  completed := fun h => by cases h
  originals := by
    show 0 + (startRun env dropped).canCall ≤ 1
    rw [Nat.zero_add]
    exact (startRun_tokens env dropped).1
  recoveries := le_rfl
  attempts_le := ⟨Nat.zero_le _, Nat.zero_le _⟩
  counted := .inl rfl
  entries_le := by
    show 0 + (startRun env dropped).canAppend + 0 ≤ 0
    rw [(startRun_tokens env dropped).2]

theorem pending_ok (row : Pending) : row.event.Ok env where
  runs := fun b r hr => by cases b <;> cases hr
  exhausting := fun h => by cases h
  called := fun c hc => by cases hc
  entered := fun x hx => by cases hx
  marked := fun k hk => by cases hk
  completed := fun h => by cases h
  originals := Nat.zero_le _
  recoveries := le_rfl
  attempts_le := ⟨Nat.zero_le _, Nat.zero_le _⟩
  counted := .inl rfl
  entries_le := le_rfl

/-- every event of a state is so -/
def St.Ok (env : Env) (s : St) : Prop := ∀ (e : ℕ) (ev : Event), s.events[e]? = some ev → ev.Ok env

theorem step_ok {s : St} (h : s.Ok env) (o : Op) : (step env s o).Ok env := by
  intro e ev' hev'
  obtain (⟨ev, hev, hbecomes⟩ | ⟨-, userId, triggeredAt, dropped, minSeq, maxSeq, rfl⟩) | ⟨⟨ev, sw, hev, -, -, -, -, -, rfl⟩, -⟩ :=
    step_events o hev'
  · exact hbecomes.ok (h e ev hev)
  · exact added_ok userId triggeredAt dropped minSeq maxSeq
  · exact (h e ev hev).pass

/-! ## What the sweeps get through -/

/-- no sweep selects the event any more -/
def Event.Done (ev : Event) : Prop := ev.completed = true ∨ maxAttempts ≤ ev.retryCount

def Event.Ranged (ev : Event) : Prop := ev.minMessageSeq.isSome = true ∧ ev.maxMessageSeq.isSome = true

/-- what no step but the end of a sweep takes back -/
structure Later (ev ev' : Event) : Prop where
  triggeredAt : ev'.triggeredAt = ev.triggeredAt
  ranged : ev'.Ranged ↔ ev.Ranged
  done : ev.Done → ev'.Done
  attempts : ev.attempts ≤ ev'.attempts
  passed : ev'.passed = ev.passed

theorem Later.refl (ev : Event) : Later ev ev := ⟨rfl, Iff.rfl, id, le_rfl, rfl⟩

theorem later_setRun {ev : Event} {b : Bool} {r : Run} : Later ev (ev.setRun b r) := by
  cases b <;> exact ⟨rfl, Iff.rfl, id, le_rfl, rfl⟩

theorem Becomes.later {ev ev' : Event} (h : Becomes env ev ev') : Later ev ev' := by
  cases h with
  | same => exact Later.refl ev
  | stop b r => exact later_setRun
  | read b r => exact later_setRun
  | call b r => cases b <;> exact ⟨rfl, Iff.rfl, id, le_rfl, rfl⟩
  | answer b r => exact later_setRun
  | doc b r => exact later_setRun
  | noEntry b r => exact later_setRun
  | appendFails b r => exact later_setRun
  | append b r => cases b <;> exact ⟨rfl, Iff.rfl, id, le_rfl, rfl⟩
  | complete b r => cases b <;> exact ⟨rfl, Iff.rfl, fun _ => .inl rfl, le_rfl, rfl⟩
  | claim ev' hclaim =>
    obtain ⟨-, -, rfl⟩ := claim_eq_some hclaim
    exact ⟨rfl, Iff.rfl, fun hdone => hdone.imp id Nat.le_succ_of_le, Nat.le_succ _, rfl⟩
  | exhausting => exact ⟨rfl, Iff.rfl, id, le_rfl, rfl⟩
  | start => exact ⟨rfl, Iff.rfl, id, le_rfl, rfl⟩
  | clear => exact ⟨rfl, Iff.rfl, id, le_rfl, rfl⟩
  | exhaust =>
    refine ⟨rfl, Iff.rfl, fun hdone => ?_, le_rfl, rfl⟩
    by_cases hcompleted : ev.completed = true
    · exact .inl hcompleted
    · refine .inr ?_
      rw [Event.exhaust, if_neg hcompleted]

/-- as far as a sweep got with the events it saw -/
structure Seen (env : Env) (s : St) (sw : Sweep) : Prop where
  seen_le : sw.seen ≤ s.events.length
  reached : ∀ (e : ℕ) (ev : Event), s.events[e]? = some ev → ev.Ranged → e < sw.seen → InWindow env sw.now ev.triggeredAt → e ∉ sw.raised →
    ev.Done ∨ e ∈ sw.todo ∨ ev.passed < ev.attempts

structure Swept (env : Env) (s : St) : Prop where
  passed : ∀ (e : ℕ) (ev : Event), s.events[e]? = some ev → ev.Ranged → ev.Done ∨ ev.passed ≤ ev.attempts
  sweep : ∀ sw, s.sweep = some sw → Seen env s sw

/-- an event is selected while it is not done -/
theorem mem_stalePendingEvents {s : St} {now : ℤ} {e : ℕ} {ev : Event} (hev : s.events[e]? = some ev) (hranged : ev.Ranged)
    (hwindow : InWindow env now ev.triggeredAt) (hdone : ¬ev.Done) : e ∈ stalePendingEvents env now s.events := by
  rw [Event.Done, not_or, Bool.not_eq_true, not_le] at hdone
  have hstale : Stale env now ev := ⟨hdone.1, hwindow, hdone.2, hranged.1, hranged.2⟩
  refine List.mem_map.2 ⟨(ev, e), ?_, rfl⟩
  rw [List.mem_insertionSort]
  exact List.mem_filter.2 ⟨List.mk_mem_zipIdx_iff_getElem?.2 hev, decide_eq_true hstale⟩

@[simp] theorem length_setEvent (s : St) (e : ℕ) (ev : Event) : (s.setEvent e ev).events.length = s.events.length :=
  List.length_set

theorem length_resumeRun (s : St) (e : ℕ) (ev : Event) (b : Bool) (r : Run) (raises : Bool) (now : Str) :
    (resumeRun s e ev b r raises now).events.length = s.events.length := by
  unfold resumeRun
  dsimp only
  repeat' split
  all_goals first | rfl | exact length_setEvent s e _

theorem length_answerRun (s : St) (e : ℕ) (ev : Event) (b : Bool) (r : Run) (raw : Option Str) :
    (answerRun env s e ev b r raw).events.length = s.events.length := by
  unfold answerRun
  split
  · exact length_setEvent s e _
  · rfl

theorem length_resumeSweep (env : Env) (s : St) (sw : Sweep) (raises : Bool) :
    (resumeSweep env s sw raises).events.length = s.events.length := by
  unfold resumeSweep
  dsimp only
  repeat' split
  all_goals first | rfl | exact length_setEvent s _ _ | exact List.length_mapIdx

theorem sweep_resumeRun (s : St) (e : ℕ) (ev : Event) (b : Bool) (r : Run) (raises : Bool) (now : Str) :
    (resumeRun s e ev b r raises now).sweep = s.sweep := by
  unfold resumeRun
  dsimp only
  repeat' split
  all_goals rfl

theorem sweep_answerRun (s : St) (e : ℕ) (ev : Event) (b : Bool) (r : Run) (raw : Option Str) :
    (answerRun env s e ev b r raw).sweep = s.sweep := by
  unfold answerRun
  split
  · rfl
  · rfl

theorem step_length (s : St) (o : Op) : s.events.length ≤ (step env s o).events.length := by
  cases o with
  | trigger userId triggeredAt dropped =>
    simp only [step]
    repeat' split
    · rw [List.length_append]
      exact Nat.le_add_right _ _
    · exact le_rfl
    · exact le_rfl
  | resume e b raises now =>
    simp only [step]
    repeat' split
    · rw [length_resumeRun]
    · exact le_rfl
    · exact le_rfl
  | answer e b raw =>
    simp only [step]
    repeat' split
    · rw [length_answerRun]
    · exact le_rfl
    · exact le_rfl
  | stop e b =>
    simp only [step]
    repeat' split
    · rw [length_setEvent]
    · exact le_rfl
    · exact le_rfl
  | boot now =>
    simp only [step]
    split_ifs
    · exact le_rfl
    · exact le_rfl
  | sweep raises =>
    simp only [step]
    split
    · rw [length_resumeSweep]
    · exact le_rfl
  | kill =>
    simp only [step]
    split
    · exact (List.length_modify _ _ _).ge
    · exact le_rfl

/-- a step during which the sweep gets no further -/
theorem Seen.step {s s' : St} {sw : Sweep} (h : Seen env s sw) (hlength : s.events.length ≤ s'.events.length)
    (hcomes : ∀ (e : ℕ) (ev' : Event), s'.events[e]? = some ev' → Comes env s e ev') : Seen env s' sw where
  seen_le := h.seen_le.trans hlength
  reached := by
    intro e ev' hev' hranged hlt hwindow hraised
    obtain ⟨ev, hev, hbecomes⟩ | ⟨rfl, -⟩ := hcomes e ev' hev'
    · have hlater := hbecomes.later
      rw [hlater.triggeredAt] at hwindow
      obtain hdone | htodo | hpassed := h.reached e ev hev (hlater.ranged.1 hranged) hlt hwindow hraised
      · exact .inl (hlater.done hdone)
      · exact .inr (.inl htodo)
      · exact .inr (.inr (by rw [hlater.passed]; exact hpassed.trans_le hlater.attempts))
    · exact absurd (h.seen_le) (not_le.2 hlt)

/-- how a sweep goes on: it selects, or handles the next event, or waits for one -/
inductive Moves (env : Env) (s : St) (sw : Sweep) (s' : St) : Sweep → Prop
  | select (hevents : s'.events = s.events) : Moves env s sw s'
      { sw with phase := .between, todo := stalePendingEvents env sw.now s.events, seen := s.events.length }
  | raise (e : ℕ) (rest : List ℕ) (htodo : sw.todo = e :: rest) (hevents : s'.events = s.events) :
      Moves env s sw s' { sw with todo := rest, raised := e :: sw.raised }
  | claim (e : ℕ) (rest : List ℕ) (htodo : sw.todo = e :: rest) (ev ev' : Event) (hev : s.events[e]? = some ev)
      (hclaim : ev.claim = some ev') (hevents : s'.events = s.events.set e ev') :
      Moves env s sw s' { sw with todo := rest, phase := .busy e }
  | pass (e : ℕ) (rest : List ℕ) (htodo : sw.todo = e :: rest) (hnone : s.events[e]?.bind Event.claim = none)
      (hevents : s'.events = s.events) : Moves env s sw s' { sw with todo := rest }
  | wait (phase : SweepPhase) : Moves env s sw s' { sw with phase := phase }

theorem resumeSweep_moves {s s' : St} {sw sw' : Sweep} {raises : Bool} (hsw : s.sweep = some sw)
    (h : resumeSweep env s sw raises = s') (hsw' : s'.sweep = some sw') : Moves env s sw s' sw' := by
  unfold resumeSweep at h
  split at h
  next =>
    split_ifs at h
    · subst h
      cases hsw'
    · subst h
      cases hsw'
      exact .select rfl
  next =>
    split at h
    next =>
      subst h
      cases hsw'
    next e rest htodo =>
      split_ifs at h
      · subst h
        cases hsw'
        exact .raise e rest htodo rfl
      · split at h
        next ev' hclaim =>
          obtain ⟨ev, hev, hclaim⟩ := Option.bind_eq_some_iff.1 hclaim
          subst h
          cases hsw'
          exact .claim e rest htodo ev ev' hev hclaim rfl
        next hnone =>
          subst h
          cases hsw'
          exact .pass e rest htodo hnone rfl
  next e hphase =>
    -- the event at hand changes, the sweep waits for it or is between two
    have hwait : ∀ t : St, t.sweep = s.sweep → t = s' → Moves env s sw s' sw' := by
      intro t ht heq
      subst heq
      rw [ht, hsw] at hsw'
      cases hsw'
      exact .wait sw.phase
    have hbetween : ∀ {t : St}, t.between sw = s' → Moves env s sw s' sw' := by
      intro t heq
      subst heq
      cases hsw'
      exact .wait .between
    split at h
    next => exact hbetween h
    next ev _ =>
      split at h
      next =>
        dsimp only at h
        split_ifs at h
        · exact hbetween h
        · exact hwait (s.setEvent e _) rfl h
        · exact hwait (s.setEvent e _) rfl h
      next => exact hbetween h
      next r _ =>
        split_ifs at h
        · exact hbetween h
        · exact hwait s rfl h
      next => exact hbetween h

/-- the sweep gets to its next await -/
theorem Swept.next {s : St} (h : Swept env s) {sw : Sweep} (hsw : s.sweep = some sw) (raises : Bool) {sw' : Sweep}
    (hsw' : (resumeSweep env s sw raises).sweep = some sw') : Seen env (resumeSweep env s sw raises) sw' := by
  have hseen := h.sweep sw hsw
  have hcomes : ∀ (e : ℕ) (ev' : Event), (resumeSweep env s sw raises).events[e]? = some ev' → Comes env s e ev' := by
    intro e ev' hev'
    obtain hcomes | ⟨-, hnone⟩ := comes_resumeSweep hsw raises hev'
    · exact hcomes
    · rw [hsw'] at hnone
      cases hnone
  have hlength := (length_resumeSweep env s sw raises).ge
  have hmoves := resumeSweep_moves hsw rfl hsw'
  generalize resumeSweep env s sw raises = s' at hcomes hlength hmoves ⊢
  cases hmoves with
  | select hevents =>
    refine ⟨by rw [hevents], fun e ev hev hranged _ hwindow _ => ?_⟩
    rw [hevents] at hev
    by_cases hdone : ev.Done
    · exact .inl hdone
    · exact .inr (.inl (mem_stalePendingEvents hev hranged hwindow hdone))
  | raise e rest htodo hevents =>
    refine ⟨by rw [hevents]; exact hseen.seen_le, fun e' ev hev hranged hlt hwindow hraised => ?_⟩
    rw [hevents] at hev
    rw [List.mem_cons, not_or] at hraised
    obtain hdone | hmem | hpassed := hseen.reached e' ev hev hranged hlt hwindow hraised.2
    · exact .inl hdone
    · rw [htodo] at hmem
      exact .inr (.inl ((List.mem_cons.1 hmem).resolve_left hraised.1))
    · exact .inr (.inr hpassed)
  | claim e rest htodo ev₀ ev₁ hev₀ hclaim hevents =>
    obtain ⟨hpending, hlow, rfl⟩ := claim_eq_some hclaim
    refine ⟨hseen.seen_le.trans hlength, fun e' ev hev hranged hlt hwindow hraised => ?_⟩
    rw [hevents, List.getElem?_set] at hev
    split_ifs at hev with he hbound
    · obtain rfl := Option.some.inj hev
      refine .inr (.inr (Nat.lt_succ_of_le ?_))
      obtain (hcompleted | hcount) | hpassed := h.passed e ev₀ hev₀ hranged
      · rw [hpending] at hcompleted
        cases hcompleted
      · exact absurd hcount (not_le.2 hlow)
      · exact hpassed
    · obtain hdone | hmem | hpassed := hseen.reached e' ev hev hranged hlt hwindow hraised
      · exact .inl hdone
      · rw [htodo] at hmem
        exact .inr (.inl ((List.mem_cons.1 hmem).resolve_left (Ne.symm he)))
      · exact .inr (.inr hpassed)
  | pass e rest htodo hnone hevents =>
    refine ⟨by rw [hevents]; exact hseen.seen_le, fun e' ev hev hranged hlt hwindow hraised => ?_⟩
    rw [hevents] at hev
    obtain hdone | hmem | hpassed := hseen.reached e' ev hev hranged hlt hwindow hraised
    · exact .inl hdone
    · rw [htodo] at hmem
      obtain rfl | hmem := List.mem_cons.1 hmem
      · -- an event that cannot be claimed
        rw [hev, Option.bind_some, Event.claim] at hnone
        split_ifs at hnone with hif
        rw [not_and_or, Bool.not_eq_false, not_lt] at hif
        exact .inl hif
      · exact .inr (.inl hmem)
    · exact .inr (.inr hpassed)
  | wait phase => exact ⟨hseen.seen_le.trans hlength, (hseen.step hlength hcomes).reached⟩

/-- the sweep of a state after any other step is the one before, or a new one -/
theorem step_sweep {s : St} (o : Op) (ho : ∀ raises, o ≠ .sweep raises) {sw : Sweep} (hsw : (step env s o).sweep = some sw) :
    s.sweep = some sw ∨ sw.seen = 0 := by
  cases o with
  | trigger userId triggeredAt dropped =>
    simp only [step] at hsw
    split at hsw
    · split_ifs at hsw
      · exact .inl hsw
      · exact .inl hsw
    · exact .inl hsw
  | resume e b raises now =>
    simp only [step] at hsw
    split at hsw
    · split at hsw
      · exact .inl (by rwa [sweep_resumeRun] at hsw)
      · exact .inl hsw
    · exact .inl hsw
  | answer e b raw =>
    simp only [step] at hsw
    split at hsw
    · split at hsw
      · exact .inl (by rwa [sweep_answerRun] at hsw)
      · exact .inl hsw
    · exact .inl hsw
  | stop e b =>
    simp only [step] at hsw
    split at hsw
    · split at hsw
      · exact .inl hsw
      · exact .inl hsw
    · exact .inl hsw
  | boot now =>
    simp only [step] at hsw
    split_ifs at hsw
    · exact .inl hsw
    · obtain rfl := Option.some.inj hsw
      exact .inr rfl
  | sweep raises => exact absurd rfl (ho raises)
  | kill =>
    simp only [step] at hsw
    split at hsw
    · cases hsw
    · cases hsw

theorem step_swept {s : St} (h : Swept env s) (o : Op) : Swept env (step env s o) where
  passed := by
    intro e ev' hev' hranged
    obtain (⟨ev, hev, hbecomes⟩ | ⟨-, userId, triggeredAt, dropped, minSeq, maxSeq, rfl⟩) |
      ⟨⟨ev, sw, hev, hsw, htodo, hlt, hwindow, hraised, rfl⟩, -⟩ := step_events o hev'
    · have hlater := hbecomes.later
      obtain hdone | hpassed := h.passed e ev hev (hlater.ranged.1 hranged)
      · exact .inl (hlater.done hdone)
      · exact .inr (by rw [hlater.passed]; exact hpassed.trans hlater.attempts)
    · exact .inr le_rfl
    · obtain hdone | hmem | hpassed := (h.sweep sw hsw).reached e ev hev hranged hlt hwindow hraised
      · exact .inl hdone
      · rw [htodo] at hmem
        cases hmem
      · exact .inr hpassed
  sweep := by
    intro sw' hsw'
    by_cases ho : ∃ raises, o = .sweep raises
    · obtain ⟨raises, rfl⟩ := ho
      simp only [step] at hsw' ⊢
      cases hsw : s.sweep with
      | some sw =>
        rw [hsw] at hsw'
        exact h.next hsw raises hsw'
      | none =>
        rw [hsw] at hsw'
        cases hsw.symm.trans hsw'
    · have hcomes : ∀ (e : ℕ) (ev' : Event), (step env s o).events[e]? = some ev' → Comes env s e ev' := by
        intro e ev' hev'
        obtain hcomes | ⟨-, hnone⟩ := step_events o hev'
        · exact hcomes
        · rw [hsw'] at hnone
          cases hnone
      obtain hsame | hnew := step_sweep o (fun raises he => ho ⟨raises, he⟩) hsw'
      · exact (h.sweep sw' hsame).step (step_length s o) hcomes
      · exact ⟨by rw [hnew]; exact Nat.zero_le _, fun e _ _ _ hlt => absurd (hnew ▸ hlt) (Nat.not_lt_zero e)⟩

/-! ## Every run -/

/-- what holds of an event after any run -/
structure Event.Settles (env : Env) (ev : Event) : Prop where
  /-- a run that completes the event called the model, and appended the summary it got, unless the append raised -/
  marked : (ev.completed = true → ev.completions ≠ []) ∧
    ∀ k ∈ ev.completions, k.call ∈ ev.calls ∧ k.appended = (decide (k.summary ≠ []) && !k.raised)
  /-- a call got what the trigger dropped, or the rows of the range -/
  called : ∀ c ∈ ev.calls, c.conversation = formatMessages (source env ev c.recovery)
  /-- entries are of calls, one of each at most -/
  entered : (∀ x ∈ ev.entries, x.1 ∈ ev.calls) ∧ ev.entries.length ≤ ev.calls.length
  calls_le : ev.callCount false ≤ 1 ∧ ev.callCount true ≤ maxAttempts
  settled : ev.Ranged → maxAttempts ≤ ev.passed →
    ev.completed = true ∨ maxAttempts ≤ ev.firstCount + ev.attempts ∨ rangeMessages env ev = []

theorem settles {s : St} (hok : s.Ok env) (hswept : Swept env s) {e : ℕ} {ev : Event} (hev : s.events[e]? = some ev) :
    ev.Settles env where
  marked := ⟨(hok e ev hev).completed, (hok e ev hev).marked⟩
  called := (hok e ev hev).called
  entered := by
    have := (hok e ev hev).entries_le
    exact ⟨(hok e ev hev).entered, by omega⟩
  calls_le := by
    have hfirst := (hok e ev hev).originals
    have hsecond := (hok e ev hev).recoveries
    have hattempts := (hok e ev hev).attempts_le.1
    exact ⟨by omega, by omega⟩
  settled := by
    intro hranged hpassed
    obtain (hcompleted | hcount) | hattempts := hswept.passed e ev hev hranged
    · exact .inl hcompleted
    · obtain hfirst | hnone := (hok e ev hev).counted
      · exact .inr (.inl (hfirst ▸ hcount))
      · exact .inr (.inr hnone)
    · exact .inr (.inl (by omega))

end

/-- **Recovery.** After any run of triggers, runs and sweeps, split and killed anywhere, over any pending events: every
completed event was completed by a run whose model call got its messages, it has no more entries than model calls, of which
one is the first run's and `maxAttempts` are recoveries' at most, and it is settled once as many sweeps ran to their end. -/
theorem recovery_settles (env : Env) (texts : Str → Doc → Str) (pending : List Pending) (ops : List Op) :
    ∀ ev ∈ (run env (init texts pending) ops).events, ev.Settles env := by
  intro ev hev
  obtain ⟨e, hev⟩ := List.getElem?_of_mem hev
  have hinit : ∀ (e : ℕ) (ev : Event), (init texts pending).events[e]? = some ev → ∃ row : Pending, ev = row.event := by
    intro e ev h
    obtain ⟨row, -, rfl⟩ := List.mem_map.1 (List.mem_of_getElem? h)
    exact ⟨row, rfl⟩
  have hok : (init texts pending).Ok env := by
    intro e ev h
    obtain ⟨row, rfl⟩ := hinit e ev h
    exact pending_ok row
  have hswept : Swept env (init texts pending) := by
    refine ⟨fun e ev h _ => ?_, fun sw hsw => by cases hsw⟩
    obtain ⟨row, rfl⟩ := hinit e ev h
    exact .inr le_rfl
  have hrun : St.Ok env (run env (init texts pending) ops) ∧ Swept env (run env (init texts pending) ops) :=
    Runs.run_inv_all (I := fun s => St.Ok env s ∧ Swept env s) (fun s o h => ⟨step_ok h.1 o, step_swept h.2 o⟩) _ ops ⟨hok, hswept⟩
  exact settles hrun.1 hrun.2 hev

/-- the answer of the model -/
def gateNoted : Str := "\x7b\"summary\": \"Gate code 4417.\"\x7d".toList

/-- one row, and a model that sums it up -/
def gateEnv : Env where
  history := sampleEnv [] [(gateNoted, .obj [("summary".toList, .str "Gate code 4417.".toList)])]
  compactionEnabled := true
  lookbackMinutes := 60
  rows _ := some [⟨.inbound, "The gate code is 4417.".toList, [], [], [], [], 1⟩]
  timezone _ := []
  str
    | .str t => t
    | _ => []

/-- a run up to the answer of its call, and its writes up to the append -/
def appending (recovery : Bool) (raw : Str) : List Op :=
  List.replicate 4 (.resume 0 recovery false []) ++ .answer 0 recovery (some raw) :: List.replicate 2 (.resume 0 recovery false [])

/-- the writes after the append -/
def completing (recovery : Bool) : List Op := List.replicate 3 (.resume 0 recovery false [])

theorem recovery_settles_gate :
    ∃ ev ∈ (run gateEnv (init (fun _ _ => []) []) (.trigger [] 0 [.user "The gate code is 4417.".toList (some 1)] ::
        appending false gateNoted ++ completing false)).events, ev.completed = true ∧ ev.Settles gateEnv := by
  have hdone : ((run gateEnv (init (fun _ _ => []) []) (.trigger [] 0 [.user "The gate code is 4417.".toList (some 1)] ::
      appending false gateNoted ++ completing false)).events.head?.any fun ev => ev.completed) = true := by decide +kernel
  obtain ⟨ev, hev, hcompleted⟩ := (Option.any_eq_true _ _).1 hdone
  exact ⟨ev, List.mem_of_head? hev, hcompleted, recovery_settles gateEnv _ [] _ ev (List.mem_of_head? hev)⟩

/-- **Not exactly one summary.** The process dies after the append, and the next boot runs the compaction again; an answer
that is no JSON object completes an event without a summary. -/
theorem summary_twice :
    ((run gateEnv (init (fun _ _ => []) []) (.trigger [] 0 [.user "The gate code is 4417.".toList (some 1)] ::
        appending false gateNoted ++ [.stop 0 false, .boot 600, .sweep false, .sweep false, .sweep false] ++
        appending true gateNoted ++ completing true)).events.map fun ev => (ev.completed, ev.entries.map Prod.snd)) =
      [(true, ["Gate code 4417.".toList, "Gate code 4417.".toList])] ∧
    ((run gateEnv (init (fun _ _ => []) []) (.trigger [] 0 [.user "The gate code is 4417.".toList (some 1)] ::
        appending false "Sorry.".toList ++ completing false)).events.map fun ev => (ev.completed, ev.entries.map Prod.snd)) =
      [(true, [])] := by
  constructor
  · decide +kernel
  · decide +kernel

end Clawbolt.History.CompactionRecovery

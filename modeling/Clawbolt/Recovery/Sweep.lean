/-
Startup recovery (agent/inbound_recovery.py): the query for orphaned inbound messages and the sweep that dispatches them
again.

`Env` is what the sweep calls: the database apart from the query, `json.loads`, and `_dispatch_to_pipeline`, on a world of
type `σ` that they may change. Postgres leaves open in which order rows of one timestamp come.

- `orphans_messages`: the query finds the inbound messages of the window that no outbound one of their session follows;
- `recovery_redispatches`: over every history, the sweep hands over no message with a stored reply, and every other message
  of the window that no later outbound message masks exactly once.
-/
import Mathlib.Tactic
import Mathlib.Data.List.Sort
import Clawbolt.Recovery.Rows

namespace Clawbolt.Recovery

open Text (Str)
open History (Direction)

variable {ToolCall σ : Type}

/-! ## The query -/

/-- `_FRESHNESS_FLOOR_SECONDS` -/
def freshnessFloorSeconds : ℤ := 5

/-- `has_outbound_after` -/
def hasOutboundAfter (db : Db) (m : Message) : Prop :=
  ∃ ob ∈ db.messages, ob.session = m.session ∧ m.seq < ob.seq ∧ ob.direction = .outbound

instance (db : Db) (m : Message) : Decidable (hasOutboundAfter db m) := by unfold hasOutboundAfter; infer_instance

/-- the `where` of `_orphaned_inbounds_select` -/
def Orphaned (db : Db) (cutoff freshnessFloor : ℤ) (m : Message) : Prop :=
  m.direction = .inbound ∧ cutoff ≤ m.timestamp ∧ m.timestamp ≤ freshnessFloor ∧ ¬ hasOutboundAfter db m

instance (db : Db) (cutoff freshnessFloor : ℤ) (m : Message) : Decidable (Orphaned db cutoff freshnessFloor m) := by
  unfold Orphaned; infer_instance

/-- `_orphaned_inbounds_select`, before it is ordered -/
def orphanedInboundsSelect (db : Db) (cutoff freshnessFloor : ℤ) : List (Message × ChatSession) :=
  (db.messages.filter fun m => Orphaned db cutoff freshnessFloor m).flatMap fun m =>
    (db.sessions.filter fun cs => cs.sessionId = m.session).map fun cs => (m, cs)

/-! ## The sweep -/

/-- the `StoredMessage` that a turn is dispatched with -/
structure StoredMessage extends Content where
  direction : Direction
  timestamp : Str
  seq : ℕ
deriving DecidableEq, Repr

structure SessionState where
  sessionId : Str
  userId : Str
  messages : List StoredMessage
  createdAt : Str
  lastMessageAt : Str
  channel : Str
deriving DecidableEq, Repr

/-- the arguments of `_dispatch_to_pipeline`; a recovered message has no downloaded media and no downloader -/
structure Dispatch where
  user : Str
  session : SessionState
  message : StoredMessage
  mediaUrls : List (Str × Str)
  channel : Str
  requestId : Str
deriving DecidableEq, Repr

inductive Loads where
  | value (j : Json)
  | jsonDecodeError
  | raises

inductive Returns where
  | returned
  | exception
  /-- `CancelledError`, which is no `Exception` -/
  | cancelled

structure Env (σ : Type) where
  /-- `pg_try_advisory_lock`; false also when it raises -/
  lock : Bool
  /-- `ORDER BY timestamp` -/
  orderBy : List (Message × ChatSession) → List (Message × ChatSession)
  perm : ∀ rows, (orderBy rows).Perm rows
  sorted : ∀ rows, (orderBy rows).Pairwise fun a b => a.1.timestamp ≤ b.1.timestamp
  /-- the id of the user row, if there is one; none when the query raises -/
  findUser : σ → Str → σ × Option (Option Str)
  /-- `get_or_create_session_async`, none when it raises -/
  getOrCreateSession : σ → Str → σ × Option SessionState
  dispatch : σ → Dispatch → σ × Returns
  loads : Str → Loads
  str : Json → Str
  iso : ℤ → Str

/-- `_orphan_to_stored_and_state` -/
def orphanToStoredAndState (env : Env σ) (m : Message) (cs : ChatSession) : StoredMessage × SessionState :=
  let stored : StoredMessage := {
    direction := m.direction
    body := m.body
    processedContext := m.processedContext
    toolInteractionsJson := m.toolInteractionsJson
    externalMessageId := m.externalMessageId
    mediaUrlsJson := if m.mediaUrlsJson = [] then "[]".toList else m.mediaUrlsJson
    timestamp := env.iso m.timestamp
    seq := m.seq }
  (stored, ⟨cs.sessionId, cs.userId, [stored], env.iso cs.createdAt, env.iso cs.lastMessageAt, cs.channel⟩)

/-- `_parse_media_refs`, none when it raises -/
def parseMediaRefs (env : Env σ) (mediaUrlsJson : Str) : Option (List (Str × Str)) :=
  if mediaUrlsJson = [] then some []
  else
    match env.loads mediaUrlsJson with
    | .value (.arr ids) => some (ids.map fun fid => (env.str fid, []))
    | .value _ => some []
    | .jsonDecodeError => some []
    | .raises => none

/-- what the sweep does with a row, and says of it in the log -/
inductive Outcome where
  /-- the user is gone -/
  | skipped
  | dispatched (d : Dispatch)
  | failed (d : Dispatch)
  /-- the sweep ends in the dispatch -/
  | cancelled (d : Dispatch)
deriving DecidableEq, Repr

/-- the message was handed to the pipeline -/
def Outcome.handed : Outcome → Bool
  | .skipped => false
  | _ => true

/-- one row of the loop; none when it raises before the dispatch -/
def recoverRow (env : Env σ) (w : σ) (row : Message × ChatSession) : σ × Option Outcome :=
  let (m, cs) := row
  match env.findUser w cs.userId with
  | (w, none) => (w, none)
  | (w, some none) => (w, some .skipped)
  | (w, some (some user)) =>
    let (stored, state) := orphanToStoredAndState env m cs
    match parseMediaRefs env m.mediaUrlsJson with
    | none => (w, none)
    | some mediaRefs =>
      let (w, refreshed) := env.getOrCreateSession w user
      let d : Dispatch := ⟨user, refreshed.getD state, stored, mediaRefs, cs.channel, []⟩
      match env.dispatch w d with
      | (w, .returned) => (w, some (.dispatched d))
      | (w, .exception) => (w, some (.failed d))
      | (w, .cancelled) => (w, some (.cancelled d))

/-- what became of the rows, in the order of the loop -/
structure Sweep where
  outcomes : List (Message × Outcome) := []
  /-- an exception ended it -/
  raised : Bool := false

/-- the loop of `recover_orphan_inbound_messages` -/
def recoverRows (env : Env σ) : σ → List (Message × ChatSession) → Sweep
  | _, [] => {}
  | w, row :: rows =>
    match recoverRow env w row with
    | (_, none) => { raised := true }
    | (_, some (.cancelled d)) => { outcomes := [(row.1, .cancelled d)], raised := true }
    | (w, some o) =>
      let rest := recoverRows env w rows
      { rest with outcomes := (row.1, o) :: rest.outcomes }

/-- `recover_orphan_inbound_messages` at `now`, in microseconds -/
def recoverOrphanInboundMessages (env : Env σ) (w : σ) (db : Db) (now : ℤ) (lookbackMinutes : ℕ) : Sweep :=
  if lookbackMinutes = 0 then {}
  else if env.lock = false then {}
  else
    let cutoff := now - lookbackMinutes * 60 * 1000000
    let freshnessFloor := now - freshnessFloorSeconds * 1000000
    recoverRows env w (env.orderBy (orphanedInboundsSelect db cutoff freshnessFloor))

/-- from the lookback to the freshness floor -/
def InWindow (now : ℤ) (lookbackMinutes : ℕ) (m : Message) : Prop :=
  now - lookbackMinutes * 60 * 1000000 ≤ m.timestamp ∧ m.timestamp ≤ now - freshnessFloorSeconds * 1000000

instance (now : ℤ) (lookbackMinutes : ℕ) (m : Message) : Decidable (InWindow now lookbackMinutes m) := by
  unfold InWindow; infer_instance

/-- the messages of the sweep -/
def Sweep.messages (s : Sweep) : List Message := s.outcomes.map Prod.fst

/-- the ids of the messages that were handed to the pipeline -/
def Sweep.handed (s : Sweep) : List ℕ := (s.outcomes.filter fun x => x.2.handed).map fun x => x.1.id

/-- the returned count -/
def Sweep.count (s : Sweep) : ℕ := s.outcomes.countP fun x => match x.2 with | .dispatched _ => true | _ => false

/-! ## What the query finds -/

/-- a stored message has one session -/
theorem sessions_of {db : Db} (h : db.Wf) {m : Message} (hm : m ∈ db.messages) :
    ∃ cs, (db.sessions.filter fun cs => cs.sessionId = m.session) = [cs] := by
  obtain ⟨cs, hcs, hkey⟩ := List.mem_map.1 (h.owned m hm)
  refine ⟨cs, ?_⟩
  have hfilter : (db.sessions.filter fun x => x.sessionId = m.session) = db.sessions.filter (· = cs) := by
    refine List.filter_congr fun x hx => ?_
    rw [decide_eq_decide, ← hkey]
    exact ⟨fun hk => List.inj_on_of_nodup_map h.keys hx hcs hk, fun hx => hx ▸ rfl⟩
  rw [hfilter]
  have hnodup : db.sessions.Nodup := h.keys.of_map _
  rw [List.filter_eq, List.count_eq_one_of_mem hnodup hcs]
  rfl

/-- **What the query finds.** The inbound messages of the window without a later outbound one, each once. -/
theorem orphans_messages {db : Db} (h : db.Wf) (cutoff freshnessFloor : ℤ) :
    (orphanedInboundsSelect db cutoff freshnessFloor).map Prod.fst =
      db.messages.filter fun m => Orphaned db cutoff freshnessFloor m := by
  unfold orphanedInboundsSelect
  rw [List.map_flatMap]
  calc (db.messages.filter fun m => Orphaned db cutoff freshnessFloor m).flatMap (fun m =>
        ((db.sessions.filter fun cs => cs.sessionId = m.session).map fun cs => (m, cs)).map Prod.fst)
      = (db.messages.filter fun m => Orphaned db cutoff freshnessFloor m).flatMap fun m => [m] := by
        refine List.flatMap_congr fun m hm => ?_
        obtain ⟨cs, hcs⟩ := sessions_of h (List.mem_of_mem_filter hm)
        rw [hcs]
        rfl
    _ = _ := List.flatMap_singleton' _

/-! ## What the sweep does -/

/-- the loop takes the rows in order, and all of them unless it raises -/
theorem recoverRows_messages (env : Env σ) (w : σ) (rows : List (Message × ChatSession)) :
    (recoverRows env w rows).messages <+: rows.map Prod.fst ∧
      ((recoverRows env w rows).raised = false → (recoverRows env w rows).messages = rows.map Prod.fst) := by
  induction rows generalizing w with
  | nil => exact ⟨List.prefix_refl _, fun _ => rfl⟩
  | cons row rows ih =>
    unfold recoverRows
    split
    · exact ⟨List.nil_prefix, fun h => absurd h (by simp)⟩
    · exact ⟨List.prefix_append [row.1] (rows.map Prod.fst), fun h => absurd h (by simp)⟩
    · rename_i w' o _ _
      obtain ⟨hpre, hall⟩ := ih w'
      exact ⟨List.cons_prefix_cons.2 ⟨rfl, hpre⟩, fun h => congrArg (row.1 :: ·) (hall h)⟩

theorem mem_handed {s : Sweep} {i : ℕ} (h : i ∈ s.handed) : ∃ m ∈ s.messages, m.id = i := by
  obtain ⟨x, hx, rfl⟩ := List.mem_map.1 h
  exact ⟨x.1, List.mem_map_of_mem (List.mem_of_mem_filter hx), rfl⟩

/-- a sweep is over the orphans, in the order of their timestamps -/
theorem sweep_messages {db : Db} (h : db.Wf) (env : Env σ) (w : σ) (now : ℤ) (lookbackMinutes : ℕ) :
    ∃ orphans : List Message,
      (orphans.Perm (db.messages.filter fun m => m.direction = .inbound ∧ InWindow now lookbackMinutes m ∧
        ¬ hasOutboundAfter db m)) ∧
      orphans.Pairwise (fun a b => a.timestamp ≤ b.timestamp) ∧
      (recoverOrphanInboundMessages env w db now lookbackMinutes).messages <+: orphans ∧
      (lookbackMinutes ≠ 0 → env.lock = true →
        (recoverOrphanInboundMessages env w db now lookbackMinutes).raised = false →
        (recoverOrphanInboundMessages env w db now lookbackMinutes).messages = orphans) := by
  let rows := env.orderBy (orphanedInboundsSelect db (now - lookbackMinutes * 60 * 1000000)
    (now - freshnessFloorSeconds * 1000000))
  refine ⟨rows.map Prod.fst, ?_, ?_, ?_, fun henabled hlock => ?_⟩
  · refine ((env.perm _).map Prod.fst).trans ?_
    rw [orphans_messages h]
    refine List.Perm.of_eq (List.filter_congr fun m _ => ?_)
    simp only [Orphaned, InWindow, and_assoc]
  · exact List.pairwise_map.2 (env.sorted _)
  · unfold recoverOrphanInboundMessages
    split_ifs
    · exact List.nil_prefix
    · exact List.nil_prefix
    · exact (recoverRows_messages env w rows).1
  · unfold recoverOrphanInboundMessages
    rw [if_neg henabled, if_neg (by simp [hlock])]
    exact (recoverRows_messages env w rows).2

/-- the rows of a turn with a reply are not found -/
theorem Turn.Replied.masks {t : Turn ToolCall} {db : Db} (h : t.Holds db) (hr : t.Replied db) {m : Message}
    (hm : m ∈ db.messages) (hi : m.id ∈ t.inbound) : hasOutboundAfter db m := by
  obtain ⟨response, reply, hended, hfallback, htext, hkept⟩ := hr
  cases reply with
  | none =>
    rcases (h.stored response none hended).1 rfl with hempty | herror
    · exact absurd hempty htext
    · exact absurd herror (by simp [hfallback])
  | some k =>
    obtain ⟨o, ho, hid⟩ := hkept k rfl
    obtain ⟨hdir, hsession, hlater⟩ := (h.reply response k hended).2 o ho hid
    exact ⟨o, ho, hsession.trans (h.rows m hm hi).symm, hlater m hm hi, hdir⟩

/-- what recovery does for the conversations of a state -/
structure Recovers (s : St ToolCall) (env : Env σ) (now : ℤ) (lookbackMinutes : ℕ) (sweep : Sweep) : Prop where
  /-- no message of a turn with a reply is handed to the pipeline -/
  replied : ∀ t ∈ s.turns, t.Replied s.db → ∀ i ∈ t.inbound, i ∉ sweep.handed
  /-- every message of the window whose turn did not complete and that no later outbound one masks has one outcome -/
  once : lookbackMinutes ≠ 0 → env.lock = true → sweep.raised = false → ∀ m ∈ s.db.messages, m.direction = .inbound →
    InWindow now lookbackMinutes m → ¬ s.Completed m.id → ¬ hasOutboundAfter s.db m →
    (sweep.messages.map Message.id).count m.id = 1
  /-- no message has two -/
  unique : (sweep.messages.map Message.id).Nodup
  ordered : sweep.messages.Pairwise fun a b => a.timestamp ≤ b.timestamp

/-- **Startup recovery.** After every history, whatever the turns and the deletes were. -/
theorem recovery_redispatches (dumps : List ToolCall → Str) (ops : List (Op ToolCall)) (env : Env σ) (w : σ) (now : ℤ)
    (lookbackMinutes : ℕ) :
    Recovers (run dumps init ops) env now lookbackMinutes
      (recoverOrphanInboundMessages env w (run dumps init ops).db now lookbackMinutes) := by
  have hinv := inv_run dumps ops
  generalize run dumps init ops = s at hinv ⊢
  obtain ⟨orphans, hperm, hsorted, hpre, hall⟩ := sweep_messages hinv.wf env w now lookbackMinutes
  have hids : (orphans.map Message.id).Nodup :=
    (hperm.map Message.id).nodup_iff.2 (hinv.wf.unique.sublist (List.filter_sublist.map _))
  refine ⟨fun t ht hr i hi hhanded => ?_, fun henabled hlock hraised m hm hin hwindow _ hmask => ?_,
    hids.sublist (hpre.sublist.map _), hsorted.sublist hpre.sublist⟩
  · obtain ⟨m, hm, rfl⟩ := mem_handed hhanded
    obtain ⟨hm, horphan⟩ := List.mem_filter.1 (hperm.mem_iff.1 (hpre.subset hm))
    exact (of_decide_eq_true horphan).2.2 (hr.masks (hinv.turns t ht) hm hi)
  · rw [hall henabled hlock hraised]
    refine List.count_eq_one_of_mem hids (List.mem_map_of_mem (hperm.mem_iff.2 (List.mem_filter.2 ⟨hm, ?_⟩)))
    exact decide_eq_true ⟨hin, hwindow, hmask⟩

/-! ## Histories that the query misjudges -/

/-- every dispatch returns -/
def plainEnv : Env Unit where
  lock := true
  orderBy := List.insertionSort fun a b => a.1.timestamp ≤ b.1.timestamp
  perm := List.perm_insertionSort _
  sorted := fun rows => List.pairwise_insertionSort _ rows
  findUser := fun w u => (w, some (some u))
  getOrCreateSession := fun w _ => (w, none)
  dispatch := fun w _ => (w, .returned)
  loads := fun _ => .value (.arr [])
  str := fun _ => []
  iso := fun _ => []

def crew : SessionRef := ⟨"s".toList, "u".toList, "telegram".toList⟩

/-- one inbound message, at the time 0 -/
def received : List (Op Str) :=
  [.createUser crew.userId, .createSession crew.sessionId crew.userId 0,
    .receive crew { body := "invoice the Smith job".toList } "telegram".toList 0]

/-- a heartbeat was sent before the restart, and no turn ever ran -/
def heartbeatOps : List (Op Str) := received ++ [.notify crew { body := "Rain tomorrow".toList } [] 60000000]

/-- the turn sent the invoice, and a photo with it, and said nothing -/
def silentOps : List (Op Str) :=
  received ++ [.startTurn crew [1], .persistOutbound 0
    { replyText := [], toolCalls := ["send_invoice".toList, "send_media_reply".toList] } 60000000]

/-- the user deleted the reply -/
def deletedReplyOps : List (Op Str) :=
  received ++ [.startTurn crew [1], .persistOutbound 0
    { replyText := "Sent.".toList, toolCalls := ["send_invoice".toList] } 60000000, .deleteMessagesBySeqs crew.sessionId [2]]

/-- the state after the operations, and the sweep ten minutes after the message -/
def stateOf (ops : List (Op Str)) : St Str := run (fun _ => []) init ops

def sweepOf (ops : List (Op Str)) : Sweep := recoverOrphanInboundMessages plainEnv () (stateOf ops).db 600000000 30

/-- **A later outbound message is not the turn.** The heartbeat masks a message of the window that no turn ran for; the
silent turn and the one whose reply was deleted both completed, and are dispatched again. -/
theorem outbound_is_not_completion :
    (∃ m ∈ (stateOf heartbeatOps).db.messages, m.direction = .inbound ∧ InWindow 600000000 30 m ∧
      ¬ (stateOf heartbeatOps).Completed m.id ∧ m ∉ (sweepOf heartbeatOps).messages) ∧
    (∃ i ∈ (sweepOf silentOps).handed, (stateOf silentOps).Completed i) ∧
    (∃ i ∈ (sweepOf deletedReplyOps).handed, (stateOf deletedReplyOps).Completed i) := by
  refine ⟨⟨⟨{ body := "invoice the Smith job".toList }, 0, "s".toList, 1, .inbound, 0⟩, by decide, rfl, by decide, ?_,
    by decide⟩, ⟨0, by decide, ?_⟩, ⟨0, by decide, ?_⟩⟩
  · intro h
    obtain ⟨t, ht, _⟩ := h
    exact absurd ht List.not_mem_nil
  · exact ⟨_, List.mem_cons_self, by decide, _, _, rfl, rfl⟩
  · exact ⟨_, List.mem_cons_self, by decide, _, _, rfl, rfl⟩

/-- the message that no turn ran for is dispatched -/
theorem recovery_redispatches_received :
    Recovers (stateOf received) plainEnv 600000000 30 (sweepOf received) ∧ (sweepOf received).handed = [0] :=
  ⟨recovery_redispatches (fun _ => []) received plainEnv () 600000000 30, by decide⟩

end Clawbolt.Recovery

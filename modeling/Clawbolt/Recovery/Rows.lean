/-
The stored conversations as startup recovery reads them: the sessions and messages with what writes them
(agent/session_db.py) and the turns over them, up to `persist_outbound` of agent/router.py, their last step.

- The id and the `session_id` of a session are both unique; the model keeps the second, and a message refers to it.
- A turn answers the rows it was dispatched with and those it folds in. It ends when its response is persisted. A turn
  that fails before that never ends, and neither does one that a restart cuts off.
- `notify` is any other outbound message: a heartbeat or a welcome text.
- The start of a turn, and which rows it answers, is ghost data. No write reads it.

Results: `inv_run` (in every reachable state a stored reply is a later row of the session of the rows it answers) and
`persistOutbound_reply` (which responses store one).
-/
import Mathlib.Tactic
import Clawbolt.Core.Runs
import Clawbolt.History.Message

namespace Clawbolt.Recovery

open Text (Str)
open History (Direction)

variable {ToolCall : Type}

/-! ## Rows -/

/-- the columns of a message that `update_message` may change, with the defaults of `add_message` -/
structure Content where
  body : Str
  processedContext : Str := []
  toolInteractionsJson : Str := []
  thinkingText : Str := []
  llmReplyText : Str := []
  externalMessageId : Str := []
  mediaUrlsJson : Str := "[]".toList
deriving DecidableEq, Repr

structure Message extends Content where
  id : ℕ
  session : Str
  seq : ℕ
  direction : Direction
  /-- microseconds -/
  timestamp : ℤ
deriving DecidableEq, Repr

structure ChatSession where
  sessionId : Str
  userId : Str
  channel : Str
  createdAt : ℤ
  lastMessageAt : ℤ
deriving DecidableEq, Repr

/-- what names a session in memory -/
structure SessionRef where
  sessionId : Str
  userId : Str
  channel : Str
deriving DecidableEq, Repr

structure Db where
  users : List Str
  sessions : List ChatSession
  messages : List Message
  nextId : ℕ
deriving DecidableEq, Repr

/-- `max(seq)` of the session, or 0 -/
def Db.maxSeq (db : Db) (session : Str) : ℕ :=
  ((db.messages.filter fun m => m.session = session).map Message.seq).max?.getD 0

/-- the insert of `add_message` -/
def Db.insert (db : Db) (s : SessionRef) (direction : Direction) (c : Content) (channel : Str) (now : ℤ) : Db :=
  { db with
    sessions := db.sessions.map fun cs =>
      if cs.sessionId = s.sessionId then
        { cs with lastMessageAt := now, channel := if channel = [] then cs.channel else channel }
      else cs
    messages := db.messages ++ [⟨c, db.nextId, s.sessionId, db.maxSeq s.sessionId + 1, direction, now⟩]
    nextId := db.nextId + 1 }

/-- a new session row keeps the unique and foreign keys -/
def Db.Admits (db : Db) (sessionId userId : Str) : Prop :=
  userId ∈ db.users ∧ ∀ cs ∈ db.sessions, cs.sessionId ≠ sessionId ∧ cs.userId ≠ userId

instance (db : Db) (sessionId userId : Str) : Decidable (db.Admits sessionId userId) := by
  unfold Db.Admits; infer_instance

/-- the session row that `add_message` adds for a session without one -/
def newSession (s : SessionRef) (channel : Str) (now : ℤ) : ChatSession :=
  ⟨s.sessionId, s.userId, if channel = [] then s.channel else channel, now, now⟩

/-- `add_message`, none when it raises -/
def Db.addMessage (db : Db) (s : SessionRef) (direction : Direction) (c : Content) (channel : Str) (now : ℤ) : Option Db :=
  if ∃ cs ∈ db.sessions, cs.sessionId = s.sessionId ∧ cs.userId = s.userId then
    some (db.insert s direction c channel now)
  else if db.Admits s.sessionId s.userId then
    some ({ db with sessions := db.sessions ++ [newSession s channel now] }.insert s direction c channel now)
  else none

/-! ## Turns -/

structure AgentResponse (ToolCall : Type) where
  replyText : Str
  toolCalls : List ToolCall := []
  isErrorFallback : Bool := false
  dispatchedBody : Str := []
  thinkingText : Str := []

/-- the row of a reply: what the user saw, and the text of the model -/
def replyContent (dumps : List ToolCall → Str) (response : AgentResponse ToolCall) : Content where
  body := if response.dispatchedBody = [] then response.replyText else response.dispatchedBody
  toolInteractionsJson := if response.toolCalls.isEmpty then [] else dumps response.toolCalls
  thinkingText := response.thinkingText
  llmReplyText := response.replyText

/-- `persist_outbound`, with the id of the new row; none when it raises -/
def persistOutbound (dumps : List ToolCall → Str) (db : Db) (s : SessionRef) (response : AgentResponse ToolCall) (now : ℤ) :
    Option (Db × Option ℕ) :=
  if response.replyText = [] ∨ response.isErrorFallback then some (db, none)
  else (db.addMessage s .outbound (replyContent dumps response) [] now).map fun db' => (db', some db.nextId)

/-- a turn: the ids of the rows it answers, and once it has ended its response and the id of its reply row -/
structure Turn (ToolCall : Type) where
  session : SessionRef
  inbound : List ℕ
  ended : Option (AgentResponse ToolCall × Option ℕ) := none

structure St (ToolCall : Type) where
  db : Db
  turns : List (Turn ToolCall)

def init : St ToolCall := ⟨⟨[], [], [], 0⟩, []⟩

/-- the stored inbound rows with these seqs -/
def Db.inboundIds (db : Db) (session : Str) (seqs : List ℕ) : List ℕ :=
  (db.messages.filter fun m => m.session = session ∧ m.direction = .inbound ∧ m.seq ∈ seqs).map Message.id

inductive Op (ToolCall : Type) where
  | createUser (userId : Str)
  | deleteUser (userId : Str)
  /-- `get_or_create_session` for a user without one -/
  | createSession (sessionId userId : Str) (now : ℤ)
  | receive (s : SessionRef) (c : Content) (channel : Str) (now : ℤ)
  | notify (s : SessionRef) (c : Content) (channel : Str) (now : ℤ)
  | updateMessage (s : SessionRef) (seq : ℕ) (f : Content → Content)
  | deleteMessagesBySeqs (session : Str) (seqs : List ℕ)
  | deleteMessages (session : Str)
  | startTurn (s : SessionRef) (seqs : List ℕ)
  | fold (turn : ℕ) (seqs : List ℕ)
  | persistOutbound (turn : ℕ) (response : AgentResponse ToolCall) (now : ℤ)

def Db.deleteWhere (db : Db) (p : Message → Bool) : Db := { db with messages := db.messages.filter fun m => ¬ p m }

def step (dumps : List ToolCall → Str) (s : St ToolCall) : Op ToolCall → St ToolCall
  | .createUser u => { s with db := { s.db with users := s.db.users ++ [u] } }
  | .deleteUser u =>
    -- the sessions and messages of the user go with it
    let owned := (s.db.sessions.filter fun cs => cs.userId = u).map ChatSession.sessionId
    { s with db := { s.db.deleteWhere (fun m => m.session ∈ owned) with
        users := s.db.users.filter fun v => v ≠ u
        sessions := s.db.sessions.filter fun cs => cs.userId ≠ u } }
  | .createSession sid u now =>
    if s.db.Admits sid u then { s with db := { s.db with sessions := s.db.sessions ++ [⟨sid, u, [], now, now⟩] } } else s
  | .receive r c channel now => { s with db := (s.db.addMessage r .inbound c channel now).getD s.db }
  | .notify r c channel now => { s with db := (s.db.addMessage r .outbound c channel now).getD s.db }
  | .updateMessage r q f =>
    { s with db := { s.db with messages := s.db.messages.map fun m =>
        if m.session = r.sessionId ∧ m.seq = q then { m with toContent := f m.toContent } else m } }
  | .deleteMessagesBySeqs sid seqs => { s with db := s.db.deleteWhere fun m => m.session = sid ∧ m.seq ∈ seqs }
  | .deleteMessages sid => { s with db := s.db.deleteWhere fun m => m.session = sid }
  | .startTurn r seqs => { s with turns := s.turns ++ [⟨r, s.db.inboundIds r.sessionId seqs, none⟩] }
  | .fold i seqs =>
    match s.turns[i]? with
    | some ⟨r, inbound, none⟩ =>
      { s with turns := s.turns.set i ⟨r, inbound ++ s.db.inboundIds r.sessionId seqs, none⟩ }
    | _ => s
  | .persistOutbound i response now =>
    match s.turns[i]? with
    | some ⟨r, inbound, none⟩ =>
      match persistOutbound dumps s.db r response now with
      | some (db, reply) => ⟨db, s.turns.set i ⟨r, inbound, some (response, reply)⟩⟩
      | none => s
    | _ => s

abbrev run (dumps : List ToolCall → Str) (s : St ToolCall) (ops : List (Op ToolCall)) : St ToolCall :=
  Runs.run (step dumps) s ops

/-- the turn of the row ran to completion -/
def St.Completed (s : St ToolCall) (id : ℕ) : Prop :=
  ∃ t ∈ s.turns, id ∈ t.inbound ∧ ∃ response reply, t.ended = some (response, reply) ∧ response.isErrorFallback = false

/-- the turn ran to completion with a reply, and its row was not deleted -/
def Turn.Replied (t : Turn ToolCall) (db : Db) : Prop :=
  ∃ response reply, t.ended = some (response, reply) ∧ response.isErrorFallback = false ∧ response.replyText ≠ [] ∧
    ∀ k, reply = some k → ∃ o ∈ db.messages, o.id = k

/-! ## What a write does to the rows -/

/-- ids and sessions are unique, and every message is in a session -/
structure Db.Wf (db : Db) : Prop where
  fresh : ∀ m ∈ db.messages, m.id < db.nextId
  unique : (db.messages.map Message.id).Nodup
  keys : (db.sessions.map ChatSession.sessionId).Nodup
  owned : ∀ m ∈ db.messages, m.session ∈ db.sessions.map ChatSession.sessionId

/-- the row is there with its place in the conversation -/
def Db.Has (db : Db) (m : Message) : Prop :=
  ∃ m₀ ∈ db.messages, m₀.id = m.id ∧ m₀.session = m.session ∧ m₀.seq = m.seq ∧ m₀.direction = m.direction

/-- what a write leaves of the rows was there before, at the same place -/
structure Db.Le (db db' : Db) : Prop where
  next : db.nextId ≤ db'.nextId
  old : ∀ m ∈ db'.messages, m.id < db.nextId → db.Has m

theorem has_of_mem {db : Db} {m : Message} (h : m ∈ db.messages) : db.Has m := ⟨m, h, rfl, rfl, rfl, rfl⟩

theorem Db.Le.refl (db : Db) : db.Le db := ⟨le_rfl, fun _ hm _ => has_of_mem hm⟩

/-- the row `o` is new, and the last of its session -/
structure Db.Adds (db db' : Db) (session : Str) (direction : Direction) (o : Message) : Prop where
  messages : db'.messages = db.messages ++ [o]
  id : o.id = db.nextId
  next : db'.nextId = db.nextId + 1
  inSession : o.session = session
  isDirection : o.direction = direction
  last : ∀ m ∈ db.messages, m.session = session → m.seq < o.seq

theorem Db.Adds.le {db db' : Db} {session : Str} {direction : Direction} {o : Message}
    (h : db.Adds db' session direction o) : db.Le db' := by
  refine ⟨by rw [h.next]; omega, fun m hm hid => ?_⟩
  rw [h.messages, List.mem_append, List.mem_singleton] at hm
  rcases hm with hm | rfl
  · exact has_of_mem hm
  · exact absurd h.id (by omega)

theorem le_maxSeq {db : Db} {m : Message} (h : m ∈ db.messages) : m.seq ≤ db.maxSeq m.session := by
  have hmem : m.seq ∈ (db.messages.filter fun x => x.session = m.session).map Message.seq :=
    List.mem_map_of_mem (List.mem_filter.2 ⟨h, by simp⟩)
  unfold Db.maxSeq
  cases hmax : ((db.messages.filter fun x => x.session = m.session).map Message.seq).max? with
  | none =>
    rw [List.max?_eq_none_iff.1 hmax] at hmem
    exact absurd hmem List.not_mem_nil
  | some k => exact (List.max?_eq_some_iff.1 hmax).2 _ hmem

theorem insert_adds (db : Db) (s : SessionRef) (direction : Direction) (c : Content) (channel : Str) (now : ℤ) :
    ∃ o, db.Adds (db.insert s direction c channel now) s.sessionId direction o := by
  refine ⟨_, rfl, rfl, rfl, rfl, rfl, fun m hm hs => ?_⟩
  exact hs ▸ Nat.lt_succ_of_le (le_maxSeq hm)

theorem insert_keys (db : Db) (s : SessionRef) (direction : Direction) (c : Content) (channel : Str) (now : ℤ) :
    (db.insert s direction c channel now).sessions.map ChatSession.sessionId =
      db.sessions.map ChatSession.sessionId := by
  simp only [Db.insert, List.map_map]
  refine List.map_congr_left fun cs _ => ?_
  simp only [Function.comp]
  split_ifs <;> rfl

theorem Db.Wf.insert {db : Db} (h : db.Wf) {s : SessionRef} (hs : s.sessionId ∈ db.sessions.map ChatSession.sessionId)
    (direction : Direction) (c : Content) (channel : Str) (now : ℤ) : (db.insert s direction c channel now).Wf := by
  obtain ⟨o, ho⟩ := insert_adds db s direction c channel now
  refine ⟨fun m hm => ?_, ?_, by rw [insert_keys]; exact h.keys, fun m hm => ?_⟩
  · rw [ho.messages, List.mem_append, List.mem_singleton] at hm
    rw [ho.next]
    rcases hm with hm | rfl
    · exact Nat.lt_succ_of_lt (h.fresh m hm)
    · rw [ho.id]
      exact Nat.lt_succ_self _
  · rw [ho.messages, List.map_append, List.nodup_append]
    refine ⟨h.unique, List.nodup_singleton _, fun i hi j hj => ?_⟩
    obtain ⟨m, hm, rfl⟩ := List.mem_map.1 hi
    rw [List.map_singleton, List.mem_singleton] at hj
    rw [hj, ho.id]
    exact (h.fresh m hm).ne
  · rw [insert_keys]
    rw [ho.messages, List.mem_append, List.mem_singleton] at hm
    rcases hm with hm | rfl
    · exact h.owned m hm
    · rw [ho.inSession]
      exact hs

/-- a row of a session that is not there yet -/
theorem Db.Wf.addSession {db : Db} (h : db.Wf) {cs : ChatSession} {userId : Str} (hadmits : db.Admits cs.sessionId userId) :
    ({ db with sessions := db.sessions ++ [cs] } : Db).Wf := by
  refine ⟨h.fresh, h.unique, ?_, fun m hm => ?_⟩
  · rw [List.map_append, List.nodup_append]
    refine ⟨h.keys, List.nodup_singleton _, fun k hk j hj => ?_⟩
    obtain ⟨x, hx, rfl⟩ := List.mem_map.1 hk
    rw [List.map_singleton, List.mem_singleton] at hj
    rw [hj]
    exact (hadmits.2 x hx).1
  · rw [List.map_append]
    exact List.mem_append_left _ (h.owned m hm)

/-- **What `add_message` does.** It appends one row, at the end of its session, with an id that was never used. -/
theorem addMessage_adds {db db' : Db} {s : SessionRef} {direction : Direction} {c : Content} {channel : Str} {now : ℤ}
    (h : db.addMessage s direction c channel now = some db') : ∃ o, db.Adds db' s.sessionId direction o := by
  unfold Db.addMessage at h
  split_ifs at h with hfound hadmits
  · obtain rfl := Option.some.inj h
    exact insert_adds db s direction c channel now
  · obtain rfl := Option.some.inj h
    obtain ⟨o, ho⟩ := insert_adds _ s direction c channel now
    exact ⟨o, ho.messages, ho.id, ho.next, ho.inSession, ho.isDirection, ho.last⟩

theorem Db.Wf.addMessage {db db' : Db} (hwf : db.Wf) {s : SessionRef} {direction : Direction} {c : Content} {channel : Str}
    {now : ℤ} (h : db.addMessage s direction c channel now = some db') : db'.Wf := by
  unfold Db.addMessage at h
  split_ifs at h with hfound hadmits
  · obtain rfl := Option.some.inj h
    obtain ⟨cs, hcs, hkey, _⟩ := hfound
    exact hwf.insert (hkey ▸ List.mem_map_of_mem hcs) direction c channel now
  · obtain rfl := Option.some.inj h
    have hwf' : ({ db with sessions := db.sessions ++ [newSession s channel now] } : Db).Wf := hwf.addSession hadmits
    refine hwf'.insert ?_ direction c channel now
    rw [List.map_append]
    exact List.mem_append_right _ (List.mem_singleton_self _)

theorem le_deleteWhere (db : Db) (p : Message → Bool) : db.Le (db.deleteWhere p) :=
  ⟨le_rfl, fun _ hm _ => has_of_mem (List.mem_of_mem_filter hm)⟩

theorem Db.Wf.deleteWhere {db : Db} (h : db.Wf) (p : Message → Bool) : (db.deleteWhere p).Wf :=
  ⟨fun m hm => h.fresh m (List.mem_of_mem_filter hm), h.unique.sublist (List.filter_sublist.map _), h.keys,
    fun m hm => h.owned m (List.mem_of_mem_filter hm)⟩

/-! ## Turns and their replies -/

/-- what is known of a turn: its rows are of its session, and its reply is a later row there -/
structure Turn.Holds (t : Turn ToolCall) (db : Db) : Prop where
  known : ∀ i ∈ t.inbound, i < db.nextId
  rows : ∀ m ∈ db.messages, m.id ∈ t.inbound → m.session = t.session.sessionId
  reply : ∀ response reply, t.ended = some (response, some reply) → reply < db.nextId ∧
    ∀ o ∈ db.messages, o.id = reply → o.direction = .outbound ∧ o.session = t.session.sessionId ∧
      ∀ m ∈ db.messages, m.id ∈ t.inbound → m.seq < o.seq
  stored : ∀ response reply, t.ended = some (response, reply) →
    (reply = none ↔ response.replyText = [] ∨ response.isErrorFallback = true)

structure Inv (s : St ToolCall) : Prop where
  wf : s.db.Wf
  turns : ∀ t ∈ s.turns, t.Holds s.db

theorem Turn.Holds.mono {t : Turn ToolCall} {db db' : Db} (h : t.Holds db) (hle : db.Le db') : t.Holds db' := by
  refine ⟨fun i hi => (h.known i hi).trans_le hle.next, fun m hm hi => ?_, fun response reply hended => ?_, h.stored⟩
  · obtain ⟨m₀, hm₀, hid, hsession, _⟩ := hle.old m hm (h.known _ hi)
    exact hsession ▸ h.rows m₀ hm₀ (hid ▸ hi)
  · obtain ⟨hlt, hreply⟩ := h.reply response reply hended
    refine ⟨hlt.trans_le hle.next, fun o ho hid => ?_⟩
    obtain ⟨o₀, ho₀, hoid, hosession, hoseq, hodir⟩ := hle.old o ho (hid ▸ hlt)
    obtain ⟨hdir, hsession, hlater⟩ := hreply o₀ ho₀ (hoid.trans hid)
    refine ⟨hodir ▸ hdir, hosession ▸ hsession, fun m hm hi => ?_⟩
    obtain ⟨m₀, hm₀, hid, _, hseq, _⟩ := hle.old m hm (h.known _ hi)
    exact hseq ▸ hoseq ▸ hlater m₀ hm₀ (hid ▸ hi)

/-- a write that touches no turn -/
theorem Inv.write {s : St ToolCall} (h : Inv s) {db : Db} (hwf : db.Wf) (hle : s.db.Le db) : Inv { s with db := db } :=
  ⟨hwf, fun t ht => (h.turns t ht).mono hle⟩

theorem Inv.add {s : St ToolCall} (h : Inv s) (r : SessionRef) (direction : Direction) (c : Content) (channel : Str)
    (now : ℤ) : Inv { s with db := (s.db.addMessage r direction c channel now).getD s.db } := by
  cases hadd : s.db.addMessage r direction c channel now with
  | none => exact h
  | some db =>
    obtain ⟨o, ho⟩ := addMessage_adds hadd
    exact h.write (h.wf.addMessage hadd) ho.le

/-- the ids that a turn takes are of stored rows of its session -/
theorem mem_inboundIds {db : Db} (hwf : db.Wf) {session : Str} {seqs : List ℕ} {i : ℕ} (h : i ∈ db.inboundIds session seqs) :
    i < db.nextId ∧ ∀ m ∈ db.messages, m.id = i → m.session = session := by
  obtain ⟨m, hm, rfl⟩ := List.mem_map.1 h
  obtain ⟨hm, hp⟩ := List.mem_filter.1 hm
  refine ⟨hwf.fresh m hm, fun x hx hid => ?_⟩
  obtain rfl := List.inj_on_of_nodup_map hwf.unique hx hm hid
  exact (of_decide_eq_true hp).1

/-- a running turn takes more rows -/
theorem Turn.Holds.take {db : Db} (hwf : db.Wf) {r : SessionRef} {inbound : List ℕ}
    (h : (⟨r, inbound, none⟩ : Turn ToolCall).Holds db) (seqs : List ℕ) :
    (⟨r, inbound ++ db.inboundIds r.sessionId seqs, none⟩ : Turn ToolCall).Holds db := by
  refine ⟨fun i hi => ?_, fun m hm hi => ?_, fun _ _ hended => (Option.some_ne_none _ hended.symm).elim,
    fun _ _ hended => (Option.some_ne_none _ hended.symm).elim⟩
  · rcases List.mem_append.1 hi with hi | hi
    · exact h.known i hi
    · exact (mem_inboundIds hwf hi).1
  · rcases List.mem_append.1 hi with hi | hi
    · exact h.rows m hm hi
    · exact (mem_inboundIds hwf hi).2 m hm rfl

/-- **What `persist_outbound` does.** A reply that is empty or an error fallback stores nothing, any other one row. -/
theorem persistOutbound_reply {dumps : List ToolCall → Str} {db db' : Db} {s : SessionRef}
    {response : AgentResponse ToolCall} {now : ℤ} {reply : Option ℕ}
    (h : persistOutbound dumps db s response now = some (db', reply)) :
    (reply = none ∧ db' = db ∧ (response.replyText = [] ∨ response.isErrorFallback = true)) ∨
      (reply = some db.nextId ∧ ¬ (response.replyText = [] ∨ response.isErrorFallback = true) ∧
        ∃ c o, db.addMessage s .outbound c [] now = some db' ∧ db.Adds db' s.sessionId .outbound o) := by
  unfold persistOutbound at h
  split_ifs at h with hskip
  · obtain ⟨rfl, rfl⟩ := Prod.mk.inj (Option.some.inj h)
    exact Or.inl ⟨rfl, rfl, hskip⟩
  · obtain ⟨db₁, hadd, heq⟩ := Option.map_eq_some_iff.1 h
    obtain ⟨rfl, rfl⟩ := Prod.mk.inj heq
    obtain ⟨o, ho⟩ := addMessage_adds hadd
    exact Or.inr ⟨rfl, hskip, _, o, hadd, ho⟩

/-- a turn that ends: its reply is above every row it answers -/
theorem Turn.Holds.persist {dumps : List ToolCall → Str} {db db' : Db} (hwf : db.Wf) {r : SessionRef} {inbound : List ℕ}
    (h : (⟨r, inbound, none⟩ : Turn ToolCall).Holds db) {response : AgentResponse ToolCall} {now : ℤ} {reply : Option ℕ}
    (hp : persistOutbound dumps db r response now = some (db', reply)) :
    db'.Wf ∧ db.Le db' ∧ (⟨r, inbound, some (response, reply)⟩ : Turn ToolCall).Holds db' := by
  rcases persistOutbound_reply hp with ⟨rfl, rfl, hskip⟩ | ⟨rfl, hskip, c, o, hadd, ho⟩
  · refine ⟨hwf, Db.Le.refl _, h.known, h.rows, fun _ _ hended => ?_, fun _ _ hended => ?_⟩
    · exact absurd (congrArg Prod.snd (Option.some.inj hended)) nofun
    · obtain ⟨rfl, rfl⟩ := Prod.mk.inj (Option.some.inj hended)
      exact iff_of_true rfl hskip
  · have hold := h.mono ho.le
    refine ⟨hwf.addMessage hadd, ho.le, hold.known, hold.rows, fun _ _ hended => ?_, fun _ _ hended => ?_⟩
    · obtain ⟨rfl, hreply⟩ := Prod.mk.inj (Option.some.inj hended)
      obtain rfl := Option.some.inj hreply
      refine ⟨by rw [ho.next]; omega, fun x hx hid => ?_⟩
      rw [ho.messages, List.mem_append, List.mem_singleton] at hx
      rcases hx with hx | rfl
      · exact absurd hid (hwf.fresh x hx).ne
      refine ⟨ho.isDirection, ho.inSession, fun m hm hi => ?_⟩
      rw [ho.messages, List.mem_append, List.mem_singleton] at hm
      rcases hm with hm | rfl
      · exact ho.last m hm (h.rows m hm hi)
      · exact absurd (h.known _ hi) (by rw [ho.id]; omega)
    · obtain ⟨rfl, rfl⟩ := Prod.mk.inj (Option.some.inj hended)
      exact iff_of_false (Option.some_ne_none _) hskip

theorem inv_init : Inv (init : St ToolCall) :=
  ⟨⟨by simp [init], by simp [init], by simp [init], by simp [init]⟩, by simp [init]⟩

/-- turn `i` of the state is replaced -/
theorem Inv.setTurn {s : St ToolCall} (h : Inv s) (i : ℕ) {t : Turn ToolCall} (ht : t.Holds s.db) :
    Inv { s with turns := s.turns.set i t } := by
  refine ⟨h.wf, fun x hx => ?_⟩
  rcases List.mem_or_eq_of_mem_set hx with hx | rfl
  · exact h.turns x hx
  · exact ht

theorem inv_deleteUser {s : St ToolCall} (h : Inv s) (dumps : List ToolCall → Str) (u : Str) :
    Inv (step dumps s (.deleteUser u)) := by
  refine h.write ?_ ⟨le_rfl, fun m hm _ => has_of_mem (List.mem_of_mem_filter hm)⟩
  refine ⟨fun m hm => h.wf.fresh m (List.mem_of_mem_filter hm), h.wf.unique.sublist (List.filter_sublist.map _),
    h.wf.keys.sublist (List.filter_sublist.map _), fun m hm => ?_⟩
  obtain ⟨hm, hp⟩ := List.mem_filter.1 hm
  obtain ⟨cs, hcs, hkey⟩ := List.mem_map.1 (h.wf.owned m hm)
  refine List.mem_map.2 ⟨cs, List.mem_filter.2 ⟨hcs, ?_⟩, hkey⟩
  by_contra hu
  have hmem : m.session ∈ (s.db.sessions.filter fun cs => cs.userId = u).map ChatSession.sessionId :=
    List.mem_map.2 ⟨cs, List.mem_filter.2 ⟨hcs, by simpa using hu⟩, hkey⟩
  simp [hmem] at hp

theorem inv_updateMessage {s : St ToolCall} (h : Inv s) (dumps : List ToolCall → Str) (r : SessionRef) (q : ℕ)
    (f : Content → Content) : Inv (step dumps s (.updateMessage r q f)) := by
  let g : Message → Message := fun m =>
    if m.session = r.sessionId ∧ m.seq = q then { m with toContent := f m.toContent } else m
  -- the place of a row is no column that it may change
  have hg (m : Message) : (g m).id = m.id ∧ (g m).session = m.session ∧ (g m).seq = m.seq ∧
      (g m).direction = m.direction := by
    simp only [g]
    split_ifs <;> exact ⟨rfl, rfl, rfl, rfl⟩
  have hids : (s.db.messages.map g).map Message.id = s.db.messages.map Message.id := by
    rw [List.map_map]
    exact List.map_congr_left fun m _ => (hg m).1
  have hwf : ({ s.db with messages := s.db.messages.map g } : Db).Wf := by
    refine ⟨fun m hm => ?_, by rw [hids]; exact h.wf.unique, h.wf.keys, fun m hm => ?_⟩
    · obtain ⟨m₀, hm₀, rfl⟩ := List.mem_map.1 hm
      exact (hg m₀).1 ▸ h.wf.fresh m₀ hm₀
    · obtain ⟨m₀, hm₀, rfl⟩ := List.mem_map.1 hm
      exact (hg m₀).2.1 ▸ h.wf.owned m₀ hm₀
  refine h.write hwf ⟨le_rfl, fun m hm _ => ?_⟩
  obtain ⟨m₀, hm₀, rfl⟩ := List.mem_map.1 hm
  obtain ⟨hid, hsession, hseq, hdir⟩ := hg m₀
  exact ⟨m₀, hm₀, hid.symm, hsession.symm, hseq.symm, hdir.symm⟩

theorem inv_step (dumps : List ToolCall → Str) (s : St ToolCall) (o : Op ToolCall) (h : Inv s) : Inv (step dumps s o) := by
  cases o with
  | createUser u =>
    exact h.write ⟨h.wf.fresh, h.wf.unique, h.wf.keys, h.wf.owned⟩ ⟨le_rfl, fun m hm _ => has_of_mem hm⟩
  | deleteUser u => exact inv_deleteUser h dumps u
  | createSession sid u now =>
    simp only [step]
    split_ifs with hadmits
    · exact h.write (h.wf.addSession hadmits) ⟨le_rfl, fun m hm _ => has_of_mem hm⟩
    · exact h
  | receive r c channel now => exact h.add r .inbound c channel now
  | notify r c channel now => exact h.add r .outbound c channel now
  | updateMessage r q f => exact inv_updateMessage h dumps r q f
  | deleteMessagesBySeqs sid seqs => exact h.write (h.wf.deleteWhere _) (le_deleteWhere _ _)
  | deleteMessages sid => exact h.write (h.wf.deleteWhere _) (le_deleteWhere _ _)
  | startTurn r seqs =>
    refine ⟨h.wf, fun t ht => ?_⟩
    rcases List.mem_append.1 ht with ht | ht
    · exact h.turns t ht
    · obtain rfl := List.mem_singleton.1 ht
      have hempty : (⟨r, [], none⟩ : Turn ToolCall).Holds s.db := ⟨by simp, by simp, by simp, by simp⟩
      exact hempty.take h.wf seqs
  | fold i seqs =>
    simp only [step]
    split
    · rename_i r inbound hi
      exact h.setTurn i ((h.turns _ (List.mem_of_getElem? hi)).take h.wf seqs)
    · exact h
  | persistOutbound i response now =>
    simp only [step]
    split
    · rename_i r inbound hi
      split
      · rename_i db reply hp
        obtain ⟨hwf, hle, ht⟩ := (h.turns _ (List.mem_of_getElem? hi)).persist h.wf hp
        exact (h.write hwf hle).setTurn i ht
      · exact h
    · exact h

/-- **A stored reply answers its rows.** In every reachable state it is a later outbound row of their session. -/
theorem inv_run (dumps : List ToolCall → Str) (ops : List (Op ToolCall)) : Inv (run dumps init ops) :=
  Runs.run_inv_all (inv_step dumps) init ops inv_init

end Clawbolt.Recovery

/-
The web chat (channels/webchat.py) over the message bus (`MessageBus` of bus.py): the posts, the SSE streams, and the owners,
event queues and response futures of requests.

A handler is split at every await and every yield. Futures and queues are objects: a stream keeps the two it found when its
body began, and the maps lead to the ones that are registered now. An event or a reply belongs to the request it is published
for. A post mints an id that nobody has used. Activity streams, the inbound queue and `wait_for_response`, which nothing
calls, are left out.

- `step_sound`: what a stream can yield was published for its own request;
- `streams_private`: a run keeps replies with their owners, if no stream is opened on the request of another user while no
  owner is recorded;
- `reply_leaks`: the close of a stream forgets the owner, and the reply stays.
-/
import Mathlib.Tactic
import Clawbolt.Core.Json
import Clawbolt.Core.Runs

namespace Clawbolt.Channels.WebChat

open Text (Str)

/-! ## Model -/

/-- an event or a reply, with the request it is published for -/
structure Item where
  request : Str
  content : Str
deriving DecidableEq

/-- an `asyncio.Queue`, and the id it was registered for -/
structure EventQueue where
  key : Str
  items : List Item := []
deriving DecidableEq

inductive Outcome where
  | reply (item : Item)
  | cancelled
deriving DecidableEq

/-- an `asyncio.Future`, and the id it was registered for -/
structure Future where
  key : Str
  outcome : Option Outcome := none
deriving DecidableEq

/-- where `event_stream` stands -/
inductive At where
  /-- the owner was checked, the body has not begun -/
  | opened
  | streaming (queue future : ℕ)
  | ended
deriving DecidableEq

/-- what a stream yields -/
inductive Line where
  | event (item : Item)
  | reply (item : Item)
  | timedOut
deriving DecidableEq

structure Stream where
  user : Str
  request : Str
  at_ : At := .opened
  yielded : List Line := []
deriving DecidableEq

structure Sys where
  /-- `_request_owners`, `_event_queues` and `_response_futures` -/
  owners : Dict Str := []
  eventQueues : Dict ℕ := []
  responseFutures : Dict ℕ := []
  /-- the objects, by their numbers -/
  queues : List EventQueue := []
  futures : List Future := []
  /-- `_cleanup_tasks`: the ids -/
  timers : List Str := []
  streams : List Stream := []
  /-- the ids that posts minted, and for whom -/
  minted : List (Str × Str) := []

/-- `set_request_owner` -/
def Sys.setRequestOwner (s : Sys) (id user : Str) : Sys := { s with owners := Dict.set id user s.owners }

/-- `check_request_owner` -/
def Sys.checkRequestOwner (s : Sys) (id user : Str) : Bool := (s.owners.lookup id).elim true fun owner => owner = user

/-- `register_response_future` -/
def Sys.registerResponseFuture (s : Sys) (id : Str) : Sys × ℕ :=
  ({ s with
      futures := s.futures ++ [{ key := id }]
      responseFutures := Dict.set id s.futures.length s.responseFutures
      timers := s.timers ++ [id] }, s.futures.length)

/-- `register_event_queue` -/
def Sys.registerEventQueue (s : Sys) (id : Str) : Sys × ℕ :=
  match s.eventQueues.lookup id with
  | some existing => (s, existing)
  | none =>
    ({ s with queues := s.queues ++ [{ key := id }], eventQueues := Dict.set id s.queues.length s.eventQueues },
      s.queues.length)

/-- `get_response_future`, or else `register_response_future` -/
def Sys.responseFuture (s : Sys) (id : Str) : Sys × ℕ :=
  match s.responseFutures.lookup id with
  | some existing => (s, existing)
  | none => s.registerResponseFuture id

/-- `remove_event_queue` -/
def Sys.removeEventQueue (s : Sys) (id : Str) : Sys :=
  { s with eventQueues := Dict.erase id s.eventQueues, owners := Dict.erase id s.owners }

def Sys.setStream (s : Sys) (i : ℕ) (st : Stream) : Sys := { s with streams := s.streams.set i st }

/-- the `finally` of `event_stream` -/
def Sys.endStream (s : Sys) (i : ℕ) (st : Stream) : Sys := (s.setStream i { st with at_ := .ended }).removeEventQueue st.request

/-- nobody has used the id -/
def Sys.fresh (s : Sys) (id : Str) : Bool := id ∉ s.minted.map Prod.fst && id ∉ s.streams.map Stream.request

/-- `send_chat_message` -/
def Sys.post (s : Sys) (user id : Str) : Sys :=
  if s.fresh id then
    ((({ s with minted := s.minted ++ [(id, user)] }.setRequestOwner id user).registerResponseFuture id).1.registerEventQueue id).1
  else s

/-- `chat_events` up to its response; 403 leaves the bus as it is -/
def Sys.chatEvents (s : Sys) (user id : Str) : Sys :=
  if s.checkRequestOwner id user then { s with streams := s.streams ++ [{ user := user, request := id }] } else s

/-- the body of `event_stream` up to its loop -/
def Sys.begin (s : Sys) (i : ℕ) (st : Stream) : Sys :=
  let (s, queue) := s.registerEventQueue st.request
  let (s, future) := s.responseFuture st.request
  s.setStream i { st with at_ := .streaming queue future }

/-- takes an event from the queue of the stream -/
def Sys.takeEvent (s : Sys) (i : ℕ) (st : Stream) (queue : ℕ) (item : Item) : Sys :=
  { s with queues := s.queues.modify queue fun q => { q with items := q.items.tail } }.setStream i
    { st with yielded := st.yielded ++ [Line.event item] }

/-- the loop of `event_stream`, the drain after it, and the reply: what comes next -/
def Sys.next (s : Sys) (i : ℕ) (st : Stream) (queue future : ℕ) : Sys :=
  match (s.queues[queue]?).bind fun q => q.items.head?, (s.futures[future]?).bind Future.outcome with
  | some item, _ => s.takeEvent i st queue item
  | none, none => s
  | none, some (.reply item) => s.endStream i { st with yielded := st.yielded ++ [.reply item] }
  -- a `CancelledError` is not an `Exception`: nothing is yielded
  | none, some .cancelled => s.endStream i st

/-- the deadline passes before the future is done -/
def Sys.expire (s : Sys) (i : ℕ) (st : Stream) (future : ℕ) : Sys :=
  if (s.futures[future]?).bind Future.outcome = none then s.endStream i { st with yielded := st.yielded ++ [.timedOut] } else s

/-- `publish_event` -/
def Sys.publishEvent (s : Sys) (id content : Str) : Sys :=
  match s.eventQueues.lookup id with
  | none => s
  | some queue => { s with queues := s.queues.modify queue fun q => { q with items := q.items ++ [⟨id, content⟩] } }

/-- the outcome of a future that is not done yet -/
def Future.settle (f : Future) (outcome : Outcome) : Future := if f.outcome = none then { f with outcome := some outcome } else f

/-- `resolve_response` -/
def Sys.resolveResponse (s : Sys) (id content : Str) : Sys :=
  match s.responseFutures.lookup id with
  | none => s
  | some future => { s with futures := s.futures.modify future fun f => f.settle (.reply ⟨id, content⟩) }

/-- `_cleanup`, `ttl` seconds after the future was registered -/
def Sys.cleanup (s : Sys) (k : ℕ) : Sys :=
  match s.timers[k]? with
  | none => s
  | some id =>
    let s' := { s with
      timers := s.timers.eraseIdx k
      responseFutures := Dict.erase id s.responseFutures
      owners := Dict.erase id s.owners
      eventQueues := Dict.erase id s.eventQueues }
    match s.responseFutures.lookup id with
    | none => s'
    | some stale => { s' with futures := s'.futures.modify stale fun f => f.settle .cancelled }

inductive Event where
  | post (user id : Str)
  | stream (user id : Str)
  /-- a stream, by its number -/
  | begin (i : ℕ)
  | next (i : ℕ)
  | expire (i : ℕ)
  /-- the client goes away; a body that has not begun has nothing to undo -/
  | close (i : ℕ)
  | publish (id content : Str)
  | resolve (id content : Str)
  | cleanup (k : ℕ)
deriving DecidableEq

/-- a step of the stream with this number -/
def streamStep (s : Sys) (i : ℕ) (st : Stream) : Event → Sys
  | .begin _ => if st.at_ = .opened then s.begin i st else s
  | .next _ =>
    match st.at_ with
    | .streaming queue future => s.next i st queue future
    | _ => s
  | .expire _ =>
    match st.at_ with
    | .streaming _ future => s.expire i st future
    | _ => s
  | .close _ =>
    match st.at_ with
    | .opened => s.setStream i { st with at_ := .ended }
    | .streaming _ _ => s.endStream i st
    | .ended => s
  | _ => s

def step (s : Sys) (event : Event) : Sys :=
  match event with
  | .post user id => s.post user id
  | .stream user id => s.chatEvents user id
  | .publish id content => s.publishEvent id content
  | .resolve id content => s.resolveResponse id content
  | .cleanup k => s.cleanup k
  | .begin i | .next i | .expire i | .close i => (s.streams[i]?).elim s fun st => streamStep s i st event

/-! ## What is claimed -/

/-- the item of a line -/
def Line.item : Line → Option Item
  | .event item => some item
  | .reply item => some item
  | .timedOut => none

/-- no stream has yielded an event or a reply of a request that another user created -/
def Private (s : Sys) : Prop :=
  ∀ st ∈ s.streams, ∀ line ∈ st.yielded, ∀ item, line.item = some item → ∀ owner, (item.request, owner) ∈ s.minted →
    owner = st.user

/-- a stream on the request of another user is opened while the bus records an owner for it -/
def Guarded (s : Sys) : Event → Prop
  | .stream user id => (∃ owner, (id, owner) ∈ s.minted ∧ owner ≠ user) → (s.owners.lookup id).isSome = true
  | _ => True

/-! ## What holds of the bus -/

/-- the id that a queue was registered for -/
def Sys.queueKey (s : Sys) (queue : ℕ) : Option Str := (s.queues[queue]?).map EventQueue.key

/-- the id that a future was registered for -/
def Sys.futureKey (s : Sys) (future : ℕ) : Option Str := (s.futures[future]?).map Future.key

/-- a stream is on a request of its own user or of nobody, and has yielded what was published for that request -/
structure StreamSound (s : Sys) (st : Stream) : Prop where
  own : ∀ owner, (st.request, owner) ∈ s.minted → owner = st.user
  handles : ∀ queue future, st.at_ = .streaming queue future →
    s.queueKey queue = some st.request ∧ s.futureKey future = some st.request
  lines : ∀ line ∈ st.yielded, ∀ item, line.item = some item → item.request = st.request

structure Sound (s : Sys) : Prop where
  owned : ∀ id user, s.owners.lookup id = some user → (id, user) ∈ s.minted
  once : (s.minted.map Prod.fst).Nodup
  queue : ∀ id queue, s.eventQueues.lookup id = some queue → s.queueKey queue = some id
  future : ∀ id future, s.responseFutures.lookup id = some future → s.futureKey future = some id
  queued : ∀ q ∈ s.queues, ∀ item ∈ q.items, item.request = q.key
  settled : ∀ f ∈ s.futures, ∀ item, f.outcome = some (.reply item) → item.request = f.key
  streams : ∀ st ∈ s.streams, StreamSound s st

/-- the objects that are there keep their ids -/
structure Keeps (s s' : Sys) : Prop where
  minted : s'.minted = s.minted
  queues : ∀ queue key, s.queueKey queue = some key → s'.queueKey queue = some key
  futures : ∀ future key, s.futureKey future = some key → s'.futureKey future = some key

theorem Keeps.refl (s : Sys) : Keeps s s := ⟨rfl, fun _ _ h => h, fun _ _ h => h⟩

theorem StreamSound.keep {s s' : Sys} {st : Stream} (h : StreamSound s st) (hkeeps : Keeps s s') : StreamSound s' st where
  own := by
    rw [hkeeps.minted]
    exact h.own
  handles queue future hat :=
    ⟨hkeeps.queues _ _ (h.handles queue future hat).1, hkeeps.futures _ _ (h.handles queue future hat).2⟩
  lines := h.lines

theorem Sound.private_ {s : Sys} (h : Sound s) : Private s := by
  intro st hst line hline item hitem owner hminted
  have hsound := h.streams st hst
  rw [hsound.lines line hline item hitem] at hminted
  exact hsound.own owner hminted

/-- an id has one owner -/
theorem Sound.owner_unique {s : Sys} (h : Sound s) {id user user' : Str} (hmem : (id, user) ∈ s.minted)
    (hmem' : (id, user') ∈ s.minted) : user = user' :=
  congrArg Prod.snd (List.inj_on_of_nodup_map h.once hmem hmem' rfl)

theorem setStream_sound {s : Sys} (h : Sound s) (i : ℕ) {st : Stream} (hst : StreamSound s st) :
    Sound (s.setStream i st) where
  owned := h.owned
  once := h.once
  queue := h.queue
  future := h.future
  queued := h.queued
  settled := h.settled
  streams other hother := by
    have hold : StreamSound s other := by
      obtain hmem | rfl := List.mem_or_eq_of_mem_set hother
      · exact h.streams other hmem
      · exact hst
    exact ⟨hold.own, hold.handles, hold.lines⟩

theorem removeEventQueue_sound {s : Sys} (h : Sound s) (id : Str) : Sound (s.removeEventQueue id) where
  owned id' user hlookup := by
    simp only [Sys.removeEventQueue, Dict.lookup_erase] at hlookup
    split at hlookup
    · cases hlookup
    · exact h.owned id' user hlookup
  once := h.once
  queue id' queue hlookup := by
    simp only [Sys.removeEventQueue, Dict.lookup_erase] at hlookup
    split at hlookup
    · cases hlookup
    · exact h.queue id' queue hlookup
  future := h.future
  queued := h.queued
  settled := h.settled
  streams st hst := ⟨(h.streams st hst).own, (h.streams st hst).handles, (h.streams st hst).lines⟩

theorem endStream_sound {s : Sys} (h : Sound s) (i : ℕ) {st : Stream} (hst : StreamSound s st) :
    Sound (s.endStream i st) := by
  have hended : StreamSound s { st with at_ := .ended } := ⟨hst.own, by rintro queue future ⟨⟩, hst.lines⟩
  exact removeEventQueue_sound (setStream_sound h i hended) st.request

/-- a queue is registered for the id, and the rest of the bus is as it was -/
theorem registerEventQueue_sound {s : Sys} (h : Sound s) (id : Str) :
    Sound (s.registerEventQueue id).1 ∧ Keeps s (s.registerEventQueue id).1 ∧
      (s.registerEventQueue id).1.queueKey (s.registerEventQueue id).2 = some id := by
  unfold Sys.registerEventQueue
  cases hlookup : s.eventQueues.lookup id with
  | some existing => exact ⟨h, Keeps.refl s, h.queue id existing hlookup⟩
  | none =>
    set s' : Sys := { s with
      queues := s.queues ++ [{ key := id }], eventQueues := Dict.set id s.queues.length s.eventQueues } with hs'
    have hnew : s'.queueKey s.queues.length = some id := by simp [Sys.queueKey, hs']
    have hkeeps : Keeps s s' := by
      refine ⟨rfl, fun queue key hkey => ?_, fun _ _ hkey => hkey⟩
      obtain ⟨q, hq, hqkey⟩ := Option.map_eq_some_iff.1 hkey
      simp only [Sys.queueKey, hs']
      rw [List.getElem?_append_left (List.getElem?_eq_some_iff.1 hq).1, hq]
      exact congrArg some hqkey
    refine ⟨⟨h.owned, h.once, ?_, h.future, ?_, h.settled, fun st hst => (h.streams st hst).keep hkeeps⟩, hkeeps, hnew⟩
    · intro id' queue hqueue
      simp only [hs', Dict.lookup_set] at hqueue
      split at hqueue
      next heq =>
        obtain rfl := Option.some.inj hqueue
        rw [heq]
        exact hnew
      next => exact hkeeps.queues _ _ (h.queue id' queue hqueue)
    · intro q hq item hitem
      obtain hold | hnew := List.mem_append.1 hq
      · exact h.queued q hold item hitem
      · obtain rfl := List.mem_singleton.1 hnew
        cases hitem

theorem registerResponseFuture_sound {s : Sys} (h : Sound s) (id : Str) :
    Sound (s.registerResponseFuture id).1 ∧ Keeps s (s.registerResponseFuture id).1 ∧
      (s.registerResponseFuture id).1.futureKey (s.registerResponseFuture id).2 = some id := by
  unfold Sys.registerResponseFuture
  set s' : Sys := { s with
    futures := s.futures ++ [{ key := id }]
    responseFutures := Dict.set id s.futures.length s.responseFutures
    timers := s.timers ++ [id] } with hs'
  have hnew : s'.futureKey s.futures.length = some id := by simp [Sys.futureKey, hs']
  have hkeeps : Keeps s s' := by
    refine ⟨rfl, fun _ _ hkey => hkey, fun future key hkey => ?_⟩
    obtain ⟨f, hf, hfkey⟩ := Option.map_eq_some_iff.1 hkey
    simp only [Sys.futureKey, hs']
    rw [List.getElem?_append_left (List.getElem?_eq_some_iff.1 hf).1, hf]
    exact congrArg some hfkey
  refine ⟨⟨h.owned, h.once, h.queue, ?_, h.queued, ?_, fun st hst => (h.streams st hst).keep hkeeps⟩, hkeeps, hnew⟩
  · intro id' future hfuture
    simp only [hs', Dict.lookup_set] at hfuture
    split at hfuture
    next heq =>
      obtain rfl := Option.some.inj hfuture
      rw [heq]
      exact hnew
    next => exact hkeeps.futures _ _ (h.future id' future hfuture)
  · intro f hf item hitem
    obtain hold | hnew := List.mem_append.1 hf
    · exact h.settled f hold item hitem
    · obtain rfl := List.mem_singleton.1 hnew
      cases hitem

theorem responseFuture_sound {s : Sys} (h : Sound s) (id : Str) :
    Sound (s.responseFuture id).1 ∧ Keeps s (s.responseFuture id).1 ∧
      (s.responseFuture id).1.futureKey (s.responseFuture id).2 = some id := by
  unfold Sys.responseFuture
  cases hlookup : s.responseFutures.lookup id with
  | some existing => exact ⟨h, Keeps.refl s, h.future id existing hlookup⟩
  | none => exact registerResponseFuture_sound h id

/-- a change at one place that keeps a key keeps it everywhere -/
theorem key_modify {α β : Type*} (l : List α) (place : ℕ) {change : α → α} {key : α → β} (hkey : ∀ a, key (change a) = key a)
    (r : ℕ) : (l.modify place change)[r]?.map key = l[r]?.map key := by
  rw [List.getElem?_modify]
  cases l[r]? with
  | none => rfl
  | some a =>
    simp only [Option.map_some]
    split
    · exact congrArg some (hkey a)
    · rfl

/-- one queue changed its items, all of its own id -/
theorem modifyQueue_sound {s : Sys} (h : Sound s) (queue : ℕ) (change : EventQueue → EventQueue)
    (hkey : ∀ q, (change q).key = q.key)
    (hitems : ∀ q, s.queues[queue]? = some q → ∀ item ∈ (change q).items, item.request = q.key) :
    Sound { s with queues := s.queues.modify queue change } ∧ Keeps s { s with queues := s.queues.modify queue change } := by
  have hsame : ∀ r, Sys.queueKey { s with queues := s.queues.modify queue change } r = s.queueKey r :=
    fun r => key_modify s.queues queue hkey r
  have hkeeps : Keeps s { s with queues := s.queues.modify queue change } :=
    ⟨rfl, fun r key hr => (hsame r).trans hr, fun _ _ hr => hr⟩
  refine ⟨⟨h.owned, h.once, fun id r hr => (hsame r).trans (h.queue id r hr), h.future, ?_, h.settled,
    fun st hst => (h.streams st hst).keep hkeeps⟩, hkeeps⟩
  intro q hq item hitem
  obtain ⟨r, hr⟩ := List.mem_iff_getElem?.1 hq
  simp only [List.getElem?_modify] at hr
  obtain ⟨old, hold, hq'⟩ := Option.map_eq_some_iff.1 hr
  split at hq'
  next heq =>
    subst heq hq'
    rw [hkey]
    exact hitems old hold item hitem
  next =>
    subst hq'
    exact h.queued _ (List.mem_of_getElem? hold) item hitem

/-- one future was settled, if it was not, with nothing or with a reply of its own id -/
theorem settle_sound {s : Sys} (h : Sound s) (future : ℕ) {outcome : Outcome}
    (houtcome : ∀ item, outcome = .reply item → s.futureKey future = some item.request) :
    Sound { s with futures := s.futures.modify future fun f => f.settle outcome } ∧
      Keeps s { s with futures := s.futures.modify future fun f => f.settle outcome } := by
  have hkey : ∀ f : Future, (f.settle outcome).key = f.key := by
    intro f
    unfold Future.settle
    split <;> rfl
  have hsame : ∀ r, Sys.futureKey { s with futures := s.futures.modify future fun f => f.settle outcome } r = s.futureKey r :=
    fun r => key_modify s.futures future hkey r
  have hkeeps : Keeps s { s with futures := s.futures.modify future fun f => f.settle outcome } :=
    ⟨rfl, fun _ _ hr => hr, fun r key hr => (hsame r).trans hr⟩
  refine ⟨⟨h.owned, h.once, h.queue, fun id r hr => (hsame r).trans (h.future id r hr), h.queued, ?_,
    fun st hst => (h.streams st hst).keep hkeeps⟩, hkeeps⟩
  intro f hf item hitem
  obtain ⟨r, hr⟩ := List.mem_iff_getElem?.1 hf
  simp only [List.getElem?_modify] at hr
  obtain ⟨old, hold, hf'⟩ := Option.map_eq_some_iff.1 hr
  have hsettled := h.settled old (List.mem_of_getElem? hold)
  split at hf'
  next heq =>
    subst heq hf'
    rw [hkey]
    unfold Future.settle at hitem
    split at hitem
    · have hown := houtcome item (Option.some.inj hitem)
      rw [Sys.futureKey, hold] at hown
      exact (Option.some.inj hown).symm
    · exact hsettled item hitem
  next =>
    subst hf'
    exact hsettled item hitem

/-! ## The steps -/

theorem post_sound {s : Sys} (h : Sound s) (user id : Str) : Sound (s.post user id) := by
  unfold Sys.post
  split
  next hfresh =>
    obtain ⟨hminted, hstreams⟩ : id ∉ s.minted.map Prod.fst ∧ id ∉ s.streams.map Stream.request := by
      rw [Sys.fresh, Bool.and_eq_true, decide_eq_true_eq, decide_eq_true_eq] at hfresh
      exact hfresh
    have howned : Sound ({ s with minted := s.minted ++ [(id, user)] }.setRequestOwner id user) := by
      refine ⟨?_, ?_, h.queue, h.future, h.queued, h.settled, ?_⟩
      · intro id' user' hlookup
        simp only [Sys.setRequestOwner, Dict.lookup_set] at hlookup
        split at hlookup
        next heq =>
          obtain rfl := Option.some.inj hlookup
          rw [heq]
          exact List.mem_append_right _ (List.mem_singleton.2 rfl)
        next => exact List.mem_append_left _ (h.owned id' user' hlookup)
      · show ((s.minted ++ [(id, user)]).map Prod.fst).Nodup
        rw [List.map_append, List.nodup_append]
        refine ⟨h.once, List.nodup_singleton id, ?_⟩
        rintro a ha b hb rfl
        obtain rfl := List.mem_singleton.1 hb
        exact hminted ha
      · intro st hst
        have hsound := h.streams st hst
        refine ⟨?_, hsound.handles, hsound.lines⟩
        intro owner hmem
        obtain hold | hnew := List.mem_append.1 hmem
        · exact hsound.own owner hold
        · -- the id was not used by a stream
          have hrequest : st.request = id := congrArg Prod.fst (List.mem_singleton.1 hnew)
          exact absurd (hrequest ▸ List.mem_map_of_mem hst) hstreams
    exact (registerEventQueue_sound (registerResponseFuture_sound howned id).1 id).1
  next => exact h

theorem chatEvents_sound {s : Sys} (h : Sound s) {user id : Str} (hguard : Guarded s (.stream user id)) :
    Sound (s.chatEvents user id) := by
  unfold Sys.chatEvents
  split
  next hcheck =>
    refine ⟨h.owned, h.once, h.queue, h.future, h.queued, h.settled, ?_⟩
    intro st hst
    obtain hold | hnew := List.mem_append.1 hst
    · exact ⟨(h.streams st hold).own, (h.streams st hold).handles, (h.streams st hold).lines⟩
    · obtain rfl := List.mem_singleton.1 hnew
      refine ⟨?_, by rintro queue future ⟨⟩, by rintro line ⟨⟩⟩
      intro owner hminted
      by_contra hother
      obtain ⟨recorded, hrecorded⟩ := Option.isSome_iff_exists.1 (hguard ⟨owner, hminted, hother⟩)
      rw [Sys.checkRequestOwner, hrecorded] at hcheck
      have huser : recorded = user := of_decide_eq_true hcheck
      exact hother ((h.owner_unique hminted (h.owned id recorded hrecorded)).trans huser)
  next => exact h

theorem begin_sound {s : Sys} (h : Sound s) (i : ℕ) {st : Stream} (hst : StreamSound s st) : Sound (s.begin i st) := by
  obtain ⟨hqueued, hkeeps, hqueue⟩ := registerEventQueue_sound h st.request
  obtain ⟨hsound, hkeeps', hfuture⟩ := responseFuture_sound hqueued st.request
  have hst' := (hst.keep hkeeps).keep hkeeps'
  refine setStream_sound hsound i ⟨hst'.own, ?_, hst'.lines⟩
  rintro queue future ⟨⟩
  exact ⟨hkeeps'.queues _ _ hqueue, hfuture⟩

/-- one more line, of the stream's own request -/
theorem StreamSound.concat {s : Sys} {st : Stream} (h : StreamSound s st) {line : Line}
    (hline : ∀ item, line.item = some item → item.request = st.request) :
    StreamSound s { st with yielded := st.yielded ++ [line] } := by
  refine ⟨h.own, h.handles, ?_⟩
  intro line' hmem item hitem
  obtain hold | hnew := List.mem_append.1 hmem
  · exact h.lines line' hold item hitem
  · obtain rfl := List.mem_singleton.1 hnew
    exact hline item hitem

theorem next_sound {s : Sys} (h : Sound s) (i : ℕ) {st : Stream} (hst : StreamSound s st) {queue future : ℕ}
    (hat : st.at_ = .streaming queue future) : Sound (s.next i st queue future) := by
  obtain ⟨hqueue, hfuture⟩ := hst.handles queue future hat
  unfold Sys.next
  split
  next item hhead =>
    obtain ⟨q, hq, hitem⟩ := Option.bind_eq_some_iff.1 hhead
    have hmem : item ∈ q.items := List.mem_of_head? hitem
    have hkey : q.key = st.request := by
      rw [Sys.queueKey, hq] at hqueue
      exact Option.some.inj hqueue
    obtain ⟨hsound, hkeeps⟩ := modifyQueue_sound h queue (fun q => { q with items := q.items.tail }) (fun _ => rfl)
      fun q hq item hitem => h.queued q (List.mem_of_getElem? hq) item (List.mem_of_mem_tail hitem)
    refine setStream_sound hsound i ((hst.keep hkeeps).concat ?_)
    rintro _ ⟨⟩
    rw [h.queued q (List.mem_of_getElem? hq) item hmem, hkey]
  next => exact h
  next item hnone hitem =>
    obtain ⟨f, hf, houtcome⟩ := Option.bind_eq_some_iff.1 hitem
    have hkey : f.key = st.request := by
      rw [Sys.futureKey, hf] at hfuture
      exact Option.some.inj hfuture
    refine endStream_sound h i (hst.concat ?_)
    rintro _ ⟨⟩
    rw [h.settled f (List.mem_of_getElem? hf) item houtcome, hkey]
  next => exact endStream_sound h i hst

theorem expire_sound {s : Sys} (h : Sound s) (i : ℕ) {st : Stream} (hst : StreamSound s st) (future : ℕ) :
    Sound (s.expire i st future) := by
  unfold Sys.expire
  split
  · refine endStream_sound h i (hst.concat ?_)
    rintro _ ⟨⟩
  · exact h

theorem publishEvent_sound {s : Sys} (h : Sound s) (id content : Str) : Sound (s.publishEvent id content) := by
  unfold Sys.publishEvent
  split
  next => exact h
  next queue hlookup =>
    refine (modifyQueue_sound h queue (fun q => { q with items := q.items ++ [⟨id, content⟩] }) (fun _ => rfl) ?_).1
    intro q hq item hitem
    have hkey : q.key = id := by
      have hqueue := h.queue id queue hlookup
      rw [Sys.queueKey, hq] at hqueue
      exact Option.some.inj hqueue
    obtain hold | hnew := List.mem_append.1 hitem
    · exact h.queued q (List.mem_of_getElem? hq) item hold
    · obtain rfl := List.mem_singleton.1 hnew
      exact hkey.symm

theorem resolveResponse_sound {s : Sys} (h : Sound s) (id content : Str) : Sound (s.resolveResponse id content) := by
  unfold Sys.resolveResponse
  split
  next => exact h
  next future hlookup =>
    refine (settle_sound h future ?_).1
    rintro item ⟨⟩
    exact h.future id future hlookup

theorem cleanup_sound {s : Sys} (h : Sound s) (k : ℕ) : Sound (s.cleanup k) := by
  unfold Sys.cleanup
  split
  next => exact h
  next id htimer =>
    have herased : Sound { s with
        timers := s.timers.eraseIdx k
        responseFutures := Dict.erase id s.responseFutures
        owners := Dict.erase id s.owners
        eventQueues := Dict.erase id s.eventQueues } := by
      have hremoved := removeEventQueue_sound h id
      refine ⟨hremoved.owned, h.once, hremoved.queue, ?_, h.queued, h.settled,
        fun st hst => ⟨(h.streams st hst).own, (h.streams st hst).handles, (h.streams st hst).lines⟩⟩
      intro id' future hlookup
      simp only [Dict.lookup_erase] at hlookup
      split at hlookup
      · cases hlookup
      · exact h.future id' future hlookup
    dsimp only
    split
    next => exact herased
    next stale hlookup => exact (settle_sound herased stale (by rintro item ⟨⟩)).1

theorem streamStep_sound {s : Sys} (h : Sound s) {i : ℕ} {st : Stream} (hst : s.streams[i]? = some st) (event : Event) :
    Sound (streamStep s i st event) := by
  have hsound := h.streams st (List.mem_of_getElem? hst)
  unfold streamStep
  split
  · split
    · exact begin_sound h i hsound
    · exact h
  · split
    next queue future hat => exact next_sound h i hsound hat
    next => exact h
  · split
    next queue future hat => exact expire_sound h i hsound future
    next => exact h
  · split
    next hat => exact setStream_sound h i ⟨hsound.own, by rintro queue future ⟨⟩, hsound.lines⟩
    next queue future hat => exact endStream_sound h i hsound
    next => exact h
  · exact h

/-- what a stream can yield was published for its own request -/
theorem step_sound (s : Sys) (event : Event) (h : Sound s) (hguard : Guarded s event) : Sound (step s event) := by
  have hstream : ∀ i, Sound ((s.streams[i]?).elim s fun st => streamStep s i st event) := by
    intro i
    cases hst : s.streams[i]? with
    | none => exact h
    | some st => exact streamStep_sound h hst event
  cases event with
  | post user id => exact post_sound h user id
  | stream user id => exact chatEvents_sound h hguard
  | publish id content => exact publishEvent_sound h id content
  | resolve id content => exact resolveResponse_sound h id content
  | cleanup k => exact cleanup_sound h k
  | begin i => exact hstream i
  | next i => exact hstream i
  | expire i => exact hstream i
  | close i => exact hstream i

theorem empty_sound : Sound {} where
  owned := by rintro id user ⟨⟩
  once := List.nodup_nil
  queue := by rintro id queue ⟨⟩
  future := by rintro id future ⟨⟩
  queued := by rintro q ⟨⟩
  settled := by rintro f ⟨⟩
  streams := by rintro st ⟨⟩

/-- **Replies stay with their owner.** -/
theorem streams_private (events : List Event) (hguarded : Runs.Meets step Guarded {} events) :
    Private (Runs.run step {} events) :=
  (Runs.run_inv (I := Sound) (fun s e h hg => step_sound s e h hg) hguarded empty_sound).private_

def ann : Str := "ann".toList

def bob : Str := "bob".toList

def askedByAnn : Str := "7f3a".toList

/-- while the stream of its owner is open, another user is refused -/
theorem streams_private_open : Private (Runs.run step {} [.post ann askedByAnn, .stream ann askedByAnn, .begin 0,
    .stream bob askedByAnn, .publish askedByAnn "tool_call".toList, .next 0, .resolve askedByAnn "Your balance is 40".toList, .next 0]) :=
  streams_private _ ⟨trivial, fun _ => by decide, trivial, fun _ => by decide, trivial, trivial, trivial, trivial, trivial⟩

/-- the stream is closed before the reply comes; the owner is forgotten with it, the future is not -/
theorem reply_leaks : ¬ Private (Runs.run step {} [.post ann askedByAnn, .stream ann askedByAnn, .begin 0, .close 0,
    .resolve askedByAnn "Your balance is 40".toList, .stream bob askedByAnn, .begin 1, .next 1]) := by
  intro h
  have hown := h ⟨bob, askedByAnn, .ended, [.reply ⟨askedByAnn, "Your balance is 40".toList⟩]⟩ (by decide +kernel)
    (.reply ⟨askedByAnn, "Your balance is 40".toList⟩) (List.mem_singleton.2 rfl) _ rfl ann (by decide +kernel)
  revert hown
  decide

end Clawbolt.Channels.WebChat

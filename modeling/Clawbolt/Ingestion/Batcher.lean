/-
The message batcher (`MessageBatcher` of agent/ingestion.py), with what the pipeline makes of a dispatch:
`download_and_stage_media` and `dispatch_reply_step` of agent/router.py.

`enqueue` and `_flush` each hold the lock without awaiting anything, so they are steps. A timer that was cancelled does not
fire. The address of a user on a channel is the route that `handle_inbound_message` looks up. A batch may be answered by
a reply tool instead of the pipeline: `Dispatch.reply` is where its answer goes in any case.

- `refines_run`: in every run the messages of a user are those of the dispatched batches and the pending ones, in order;
- `keepsContext_iff`: a dispatch keeps the context of its messages exactly when each of them agrees with the last one;
- `batches_keep_context`: both, for every run.
-/
import Mathlib.Tactic
import Clawbolt.Core.Json
import Clawbolt.Core.Runs
import Clawbolt.History.Message

namespace Clawbolt.Ingestion

open Text (Str)
open History (StoredMessage)

variable {Media Downloader : Type}

/-! ## The batcher -/

/-- what `enqueue` is given, and the chat that the message came from -/
structure Inbound (Media Downloader : Type) where
  user : Str
  session : Str
  message : StoredMessage
  mediaUrls : List (Str × Str)
  channel : Str
  requestId : Str
  downloadedMedia : List Media
  downloadMedia : Option Downloader
  chatId : Str

/-- `_BatchEntry` -/
structure BatchEntry (Media : Type) where
  session : Str
  message : StoredMessage
  mediaUrls : List (Str × Str)
  downloadedMedia : List Media

/-- `_BatchState` -/
structure BatchState (Media Downloader : Type) where
  entries : List (BatchEntry Media) := []
  timer : Option ℕ := none
  downloadMedia : Option Downloader := none
  user : Option Str := none
  channel : Str := []
  requestId : Str := []

/-- the arguments of `_dispatch_to_pipeline` -/
structure Dispatch (Media Downloader : Type) where
  user : Str
  session : Str
  message : StoredMessage
  mediaUrls : List (Str × Str)
  channel : Str
  requestId : Str
  downloadedMedia : List Media
  downloadMedia : Option Downloader
  batchedMessages : List StoredMessage

structure MessageBatcher (Media Downloader : Type) where
  states : Dict (BatchState Media Downloader) := []
  /-- the timers that run, and the users they flush -/
  timers : List (ℕ × Str) := []
  nextTimer : ℕ := 0
  dispatched : List (Dispatch Media Downloader) := []

def Inbound.entry (m : Inbound Media Downloader) : BatchEntry Media :=
  ⟨m.session, m.message, m.mediaUrls, m.downloadedMedia⟩

/-- the state of the user with one more message, on the timer `t` -/
def BatchState.add (st : BatchState Media Downloader) (m : Inbound Media Downloader) (t : ℕ) :
    BatchState Media Downloader where
  entries := st.entries ++ [m.entry]
  timer := some t
  downloadMedia := m.downloadMedia
  user := some m.user
  channel := m.channel
  requestId := m.requestId

/-- `enqueue` -/
def MessageBatcher.enqueue (b : MessageBatcher Media Downloader) (m : Inbound Media Downloader) :
    MessageBatcher Media Downloader :=
  let st := (b.states.lookup m.user).getD {}
  { b with
    states := Dict.set m.user (st.add m b.nextTimer) b.states
    timers := b.timers.filter (fun x => some x.1 ≠ st.timer) ++ [(b.nextTimer, m.user)]
    nextTimer := b.nextTimer + 1 }

/-- what `_flush` dispatches of a state -/
def BatchState.dispatch (st : BatchState Media Downloader) : Option (Dispatch Media Downloader) :=
  match st.entries.getLast?, st.user with
  | some lastEntry, some user =>
    some ⟨user, lastEntry.session, lastEntry.message, st.entries.flatMap BatchEntry.mediaUrls, st.channel, st.requestId,
      st.entries.flatMap BatchEntry.downloadedMedia, st.downloadMedia, st.entries.map BatchEntry.message⟩
  | _, _ => none

/-- `_flush` -/
def MessageBatcher.flush (b : MessageBatcher Media Downloader) (user : Str) : MessageBatcher Media Downloader :=
  match b.states.lookup user with
  | none => b
  | some st => { b with
      states := Dict.erase user b.states
      dispatched := b.dispatched ++ st.dispatch.toList }

/-- `_flush_after` once the window is over -/
def MessageBatcher.fire (b : MessageBatcher Media Downloader) (t : ℕ) : MessageBatcher Media Downloader :=
  match b.timers.find? fun x => x.1 = t with
  | none => b
  | some x => { b with timers := b.timers.filter fun y => y.1 ≠ t }.flush x.2

inductive Op (Media Downloader : Type) where
  | enqueue (m : Inbound Media Downloader)
  | fire (t : ℕ)

def MessageBatcher.step (b : MessageBatcher Media Downloader) : Op Media Downloader → MessageBatcher Media Downloader
  | .enqueue m => b.enqueue m
  | .fire t => b.fire t

/-! ## What becomes of a dispatch -/

/-- the media that a downloader is asked for -/
def downloadsWith (downloadMedia : Option Downloader) (mediaUrls : List (Str × Str)) : List (Downloader × Str) :=
  match downloadMedia with
  | some d => mediaUrls.map fun m => (d, m.1)
  | none => []

/-- `download_and_stage_media` -/
def Dispatch.downloads (d : Dispatch Media Downloader) : List (Downloader × Str) :=
  downloadsWith d.downloadMedia d.mediaUrls

structure Reply where
  channel : Str
  chatId : Str
  requestId : Str
deriving DecidableEq, Repr

/-- where `dispatch_reply_step` sends the reply: the route of the user on the channel -/
def Dispatch.reply (address : Str → Str → Str) (d : Dispatch Media Downloader) : Reply :=
  ⟨d.channel, address d.user d.channel, d.requestId⟩

/-- the dispatch keeps the context of the messages of its batch -/
structure KeepsContext (address : Str → Str → Str) (batch : List (Inbound Media Downloader))
    (d : Dispatch Media Downloader) : Prop where
  /-- every medium is downloaded with the downloader of its message -/
  downloads : d.downloads = batch.flatMap fun m => downloadsWith m.downloadMedia m.mediaUrls
  /-- the reply reaches every channel and chat -/
  reached : ∀ m ∈ batch, (d.reply address).channel = m.channel ∧ (d.reply address).chatId = m.chatId
  /-- and completes every request -/
  completed : ∀ m ∈ batch, m.requestId ≠ [] → (d.reply address).requestId = m.requestId

/-- a message agrees with the last one of its batch -/
structure Agrees (address : Str → Str → Str) (m last : Inbound Media Downloader) : Prop where
  channel : m.channel = last.channel
  chatId : m.chatId = address last.user last.channel
  requestId : m.requestId = [] ∨ m.requestId = last.requestId
  downloadMedia : m.mediaUrls = [] ∨ m.downloadMedia = last.downloadMedia

/-! ## Batches -/

/-- the dispatch of a batch -/
def dispatchOf (batch : List (Inbound Media Downloader)) (last : Inbound Media Downloader) : Dispatch Media Downloader :=
  ⟨last.user, last.session, last.message, batch.flatMap Inbound.mediaUrls, last.channel, last.requestId,
    batch.flatMap Inbound.downloadedMedia, last.downloadMedia, batch.map Inbound.message⟩

/-- a batch of one user, and its dispatch -/
def Dispatches (batch : List (Inbound Media Downloader)) (d : Dispatch Media Downloader) : Prop :=
  ∃ last, batch.getLast? = some last ∧ d = dispatchOf batch last ∧ ∀ m ∈ batch, m.user = last.user

/-- the state of a user whose messages `ms` are pending -/
structure Holds (st : BatchState Media Downloader) (ms : List (Inbound Media Downloader)) : Prop where
  entries : st.entries = ms.map Inbound.entry
  last : ∃ last, ms.getLast? = some last ∧ st.downloadMedia = last.downloadMedia ∧ st.user = some last.user ∧
    st.channel = last.channel ∧ st.requestId = last.requestId

theorem Holds.dispatch {st : BatchState Media Downloader} {ms : List (Inbound Media Downloader)} (h : Holds st ms) {u : Str}
    (hu : ∀ m ∈ ms, m.user = u) : ∃ d, st.dispatch = some d ∧ Dispatches ms d := by
  obtain ⟨last, hlast, hdownload, huser, hchannel, hrequest⟩ := h.last
  have hentry : (ms.map Inbound.entry).getLast? = some last.entry := by
    rw [List.getLast?_map, hlast]
    rfl
  refine ⟨dispatchOf ms last, ?_, last, hlast, rfl, fun m hm => ?_⟩
  · simp only [BatchState.dispatch, h.entries, hentry, huser, hdownload, hchannel, hrequest, List.flatMap_map, List.map_map]
    rfl
  · rw [hu m hm, hu last (List.mem_of_getLast? hlast)]

theorem holds_add {st : BatchState Media Downloader} {ms : List (Inbound Media Downloader)}
    (h : st.entries = ms.map Inbound.entry) (m : Inbound Media Downloader) (t : ℕ) : Holds (st.add m t) (ms ++ [m]) :=
  ⟨by simp [BatchState.add, h], m, by simp, rfl, rfl, rfl, rfl⟩

/-! ## Runs -/

/-- the batcher after the messages of `log`: those of a user are in the dispatched batches or pending, in order, and pending
messages have a timer -/
structure Refines (b : MessageBatcher Media Downloader) (log : List (Inbound Media Downloader))
    (batches : List (List (Inbound Media Downloader))) (pending : Str → List (Inbound Media Downloader)) : Prop where
  log : ∀ u, log.filter (fun m => m.user = u) = batches.flatten.filter (fun m => m.user = u) ++ pending u
  users : ∀ u, ∀ m ∈ pending u, m.user = u
  dispatched : List.Forall₂ Dispatches batches b.dispatched
  free : ∀ u, b.states.lookup u = none → pending u = []
  held : ∀ u st, b.states.lookup u = some st → Holds st (pending u) ∧ ∃ t, st.timer = some t ∧ (t, u) ∈ b.timers
  fresh : ∀ x ∈ b.timers, x.1 < b.nextTimer
  unique : (b.timers.map Prod.fst).Nodup

theorem refines_start : Refines ({} : MessageBatcher Media Downloader) [] [] fun _ => [] :=
  ⟨by simp, by simp, List.Forall₂.nil, by simp, by simp, by simp, by simp⟩

/-- a timer is of one user -/
theorem Refines.timer_user {b : MessageBatcher Media Downloader} {log : List (Inbound Media Downloader)}
    {batches : List (List (Inbound Media Downloader))} {pending : Str → List (Inbound Media Downloader)}
    (h : Refines b log batches pending) {t : ℕ} {u v : Str} (hu : (t, u) ∈ b.timers) (hv : (t, v) ∈ b.timers) : u = v :=
  congrArg Prod.snd (List.inj_on_of_nodup_map h.unique hu hv rfl)

theorem filter_snoc (log : List (Inbound Media Downloader)) (m : Inbound Media Downloader) (u : Str) :
    (log ++ [m]).filter (fun m => m.user = u) =
      log.filter (fun m => m.user = u) ++ if m.user = u then [m] else [] := by
  rw [List.filter_append]
  by_cases hu : m.user = u <;> simp [hu]

theorem refines_enqueue {b : MessageBatcher Media Downloader} {log : List (Inbound Media Downloader)}
    {batches : List (List (Inbound Media Downloader))} {pending : Str → List (Inbound Media Downloader)}
    (h : Refines b log batches pending) (m : Inbound Media Downloader) :
    Refines (b.enqueue m) (log ++ [m]) batches (Function.update pending m.user (pending m.user ++ [m])) := by
  have hentries : ((b.states.lookup m.user).getD {}).entries = (pending m.user).map Inbound.entry := by
    cases hl : b.states.lookup m.user with
    | none =>
      rw [h.free m.user hl]
      rfl
    | some st => exact (h.held m.user st hl).1.entries
  refine ⟨fun u => ?_, fun u x hx => ?_, h.dispatched, fun u hnone => ?_, fun u st hst => ?_, fun x hx => ?_, ?_⟩
  · rw [filter_snoc, h.log u]
    by_cases hu : m.user = u
    · subst hu
      rw [if_pos rfl, Function.update_self, List.append_assoc]
    · rw [if_neg hu, List.append_nil, Function.update_of_ne (Ne.symm hu)]
  · by_cases hu : u = m.user
    · subst hu
      rw [Function.update_self] at hx
      rcases List.mem_append.1 hx with hx | hx
      · exact h.users _ x hx
      · rw [List.mem_singleton.1 hx]
    · rw [Function.update_of_ne hu] at hx
      exact h.users u x hx
  · simp only [MessageBatcher.enqueue, Dict.lookup_set] at hnone
    split_ifs at hnone with hu
    rw [Function.update_of_ne hu]
    exact h.free u hnone
  · simp only [MessageBatcher.enqueue, Dict.lookup_set] at hst
    split_ifs at hst with hu
    · subst hu
      obtain rfl := Option.some.inj hst
      rw [Function.update_self]
      refine ⟨holds_add hentries m b.nextTimer, b.nextTimer, rfl, ?_⟩
      exact List.mem_append_right _ (List.mem_singleton_self _)
    · rw [Function.update_of_ne hu]
      obtain ⟨hholds, t, ht, hmem⟩ := h.held u st hst
      refine ⟨hholds, t, ht, List.mem_append_left _ (List.mem_filter.2 ⟨hmem, decide_eq_true fun hcancel => hu ?_⟩)⟩
      -- the cancelled timer is the user's own
      cases hl : b.states.lookup m.user with
      | none =>
        rw [hl] at hcancel
        exact absurd hcancel (by simp)
      | some st' =>
        rw [hl] at hcancel
        obtain ⟨-, t', ht', hmem'⟩ := h.held m.user st' hl
        obtain rfl := Option.some.inj (hcancel.trans ht')
        exact h.timer_user hmem hmem'
  · rcases List.mem_append.1 hx with hx | hx
    · exact (h.fresh x (List.mem_of_mem_filter hx)).trans (Nat.lt_succ_self _)
    · rw [List.mem_singleton.1 hx]
      exact Nat.lt_succ_self _
  · simp only [MessageBatcher.enqueue, List.map_append, List.map_cons, List.map_nil]
    refine List.nodup_append.2 ⟨h.unique.sublist (List.filter_sublist.map _), List.nodup_singleton _, fun t ht t' ht' => ?_⟩
    obtain ⟨x, hx, rfl⟩ := List.mem_map.1 ht
    rw [List.mem_singleton.1 ht']
    exact ne_of_lt (h.fresh x (List.mem_of_mem_filter hx))

/-- a timer that fires dispatches what is pending -/
theorem refines_fire {b : MessageBatcher Media Downloader} {log : List (Inbound Media Downloader)}
    {batches : List (List (Inbound Media Downloader))} {pending : Str → List (Inbound Media Downloader)}
    (h : Refines b log batches pending) {t : ℕ} {u : Str} (ht : (t, u) ∈ b.timers) (hpending : pending u ≠ []) :
    (∃ d, (b.fire t).dispatched = b.dispatched ++ [d] ∧ Dispatches (pending u) d) ∧
    Refines (b.fire t) log (batches ++ [pending u]) (Function.update pending u []) := by
  obtain ⟨st, hst⟩ : ∃ st, b.states.lookup u = some st := by
    cases hl : b.states.lookup u with
    | none => exact absurd (h.free u hl) hpending
    | some st => exact ⟨st, rfl⟩
  obtain ⟨d, hd, hdispatches⟩ := (h.held u st hst).1.dispatch (h.users u)
  have hfind : b.timers.find? (fun x => x.1 = t) = some (t, u) := by
    cases hf : b.timers.find? fun x => x.1 = t with
    | none => exact absurd (List.find?_eq_none.1 hf _ ht) (by simp)
    | some x =>
      have hx : x.1 = t := by simpa using List.find?_some hf
      have hmem : (t, x.2) ∈ b.timers := hx ▸ List.mem_of_find?_eq_some hf
      rw [h.timer_user ht hmem, ← hx]
  have hfire : b.fire t = { b with
      timers := b.timers.filter fun y => y.1 ≠ t
      states := Dict.erase u b.states
      dispatched := b.dispatched ++ [d] } := by
    simp only [MessageBatcher.fire, hfind, MessageBatcher.flush, hst, hd]
    rfl
  rw [hfire]
  refine ⟨⟨d, rfl, hdispatches⟩, fun v => ?_, fun v x hx => ?_, ?_, fun v hv => ?_, fun v st' hst' => ?_, fun x hx => ?_, ?_⟩
  · rw [h.log v, List.flatten_append, List.flatten_singleton, List.filter_append]
    by_cases hv : v = u
    · subst hv
      have hall : (pending v).filter (fun m => m.user = v) = pending v :=
        List.filter_eq_self.2 fun m hm => decide_eq_true (h.users v m hm)
      rw [hall, Function.update_self, List.append_nil]
    · have hnone : (pending u).filter (fun m => m.user = v) = [] := by
        refine List.filter_eq_nil_iff.2 fun m hm he => hv ?_
        rw [← h.users u m hm]
        exact (of_decide_eq_true he).symm
      rw [hnone, List.append_nil, Function.update_of_ne hv]
  · by_cases hv : v = u
    · subst hv
      simp at hx
    · rw [Function.update_of_ne hv] at hx
      exact h.users v x hx
  · exact List.rel_append h.dispatched (List.Forall₂.cons hdispatches List.Forall₂.nil)
  · rw [Dict.lookup_erase] at hv
    split_ifs at hv with huv
    · rw [huv, Function.update_self]
    · rw [Function.update_of_ne huv]
      exact h.free v hv
  · rw [Dict.lookup_erase] at hst'
    split_ifs at hst' with huv
    rw [Function.update_of_ne huv]
    obtain ⟨hholds, t', ht', hmem⟩ := h.held v st' hst'
    refine ⟨hholds, t', ht', List.mem_filter.2 ⟨hmem, decide_eq_true fun he => huv ?_⟩⟩
    subst he
    exact h.timer_user hmem ht
  · exact h.fresh x (List.mem_of_mem_filter hx)
  · exact h.unique.sublist (List.filter_sublist.map _)

/-- a timer that does not run, or whose user has nothing pending, dispatches nothing -/
theorem refines_fire_idle {b : MessageBatcher Media Downloader} {log : List (Inbound Media Downloader)}
    {batches : List (List (Inbound Media Downloader))} {pending : Str → List (Inbound Media Downloader)}
    (h : Refines b log batches pending) {t : ℕ} (hidle : ∀ u, (t, u) ∈ b.timers → pending u = []) :
    Refines (b.fire t) log batches pending := by
  cases hf : b.timers.find? fun x => x.1 = t with
  | none =>
    have hfire : b.fire t = b := by simp only [MessageBatcher.fire, hf]
    rwa [hfire]
  | some x =>
    obtain ⟨t', u⟩ := x
    obtain rfl : t' = t := by simpa using List.find?_some hf
    have hempty := hidle u (List.mem_of_find?_eq_some hf)
    have hfree : b.states.lookup u = none := by
      cases hl : b.states.lookup u with
      | none => rfl
      | some st =>
        obtain ⟨last, hlast, -⟩ := (h.held u st hl).1.last
        rw [hempty] at hlast
        exact absurd hlast (by simp)
    have hfire : b.fire t' = { b with timers := b.timers.filter fun y => y.1 ≠ t' } := by
      simp only [MessageBatcher.fire, hf, MessageBatcher.flush, hfree]
    rw [hfire]
    refine ⟨h.log, h.users, h.dispatched, h.free, fun v st hst => ?_, fun x hx => ?_, ?_⟩
    · obtain ⟨hholds, s, hs, hmem⟩ := h.held v st hst
      refine ⟨hholds, s, hs, List.mem_filter.2 ⟨hmem, decide_eq_true fun he => ?_⟩⟩
      subst he
      obtain rfl := h.timer_user hmem (List.mem_of_find?_eq_some hf)
      rw [hfree] at hst
      exact absurd hst (by simp)
    · exact h.fresh x (List.mem_of_mem_filter hx)
    · exact h.unique.sublist (List.filter_sublist.map _)

/-- the messages that were enqueued -/
def enqueued (ops : List (Op Media Downloader)) : List (Inbound Media Downloader) :=
  ops.filterMap fun
    | .enqueue m => some m
    | .fire _ => none

/-- **Runs.** Every message is in one dispatched batch, or pending. -/
theorem refines_run (ops : List (Op Media Downloader)) :
    ∃ batches pending, Refines (Runs.run MessageBatcher.step {} ops) (enqueued ops) batches pending := by
  induction ops using List.reverseRecOn with
  | nil => exact ⟨[], _, refines_start⟩
  | append_singleton ops op ih =>
    obtain ⟨batches, pending, h⟩ := ih
    rw [Runs.run_snoc, enqueued, List.filterMap_append]
    cases op with
    | enqueue m => exact ⟨batches, _, refines_enqueue h m⟩
    | fire t =>
      have hlog : enqueued ops ++ [Op.fire t].filterMap (fun | .enqueue m => some m | .fire _ => none) = enqueued ops :=
        List.append_nil _
      by_cases hex : ∃ u, (t, u) ∈ (Runs.run MessageBatcher.step {} ops).timers ∧ pending u ≠ []
      · obtain ⟨u, hu, hne⟩ := hex
        exact ⟨batches ++ [pending u], Function.update pending u [], hlog ▸ (refines_fire h hu hne).2⟩
      · refine ⟨batches, pending, hlog ▸ refines_fire_idle h fun u hu => ?_⟩
        by_contra hne
        exact hex ⟨u, hu, hne⟩

/-! ## Context -/

theorem downloadsWith_flatMap (downloadMedia : Option Downloader) (batch : List (Inbound Media Downloader)) :
    downloadsWith downloadMedia (batch.flatMap Inbound.mediaUrls) =
      batch.flatMap fun m => downloadsWith downloadMedia m.mediaUrls := by
  induction batch with
  | nil => cases downloadMedia <;> rfl
  | cons m batch ih =>
    rw [List.flatMap_cons, List.flatMap_cons, ← ih]
    cases downloadMedia with
    | none => rfl
    | some d => exact List.map_append

/-- the media of a message are downloaded alike with two downloaders if there are none, or the downloaders are the same -/
theorem downloadsWith_eq_iff (a b : Option Downloader) (mediaUrls : List (Str × Str)) :
    downloadsWith a mediaUrls = downloadsWith b mediaUrls ↔ mediaUrls = [] ∨ a = b := by
  cases mediaUrls with
  | nil => cases a <;> cases b <;> simp [downloadsWith]
  | cons m ms =>
    cases a with
    | none => cases b <;> simp [downloadsWith]
    | some d =>
      cases b with
      | none => simp [downloadsWith]
      | some d' =>
        constructor
        · intro h
          have hhead := congrArg List.head? h
          simp only [downloadsWith, List.map_cons, List.head?_cons, Option.some.injEq, Prod.mk.injEq] at hhead
          exact Or.inr (congrArg some hhead.1)
        · intro h
          rcases h with h | h
          · exact absurd h (by simp)
          · rw [h]

/-- parts that are not longer, and make up the same list, are the same -/
theorem flatMap_inj {α β : Type} {f g : α → List β} {l : List α} (hle : ∀ a ∈ l, (g a).length ≤ (f a).length)
    (h : l.flatMap f = l.flatMap g) : ∀ a ∈ l, f a = g a := by
  induction l with
  | nil => simp
  | cons a l ih =>
    have hrest : (l.flatMap g).length ≤ (l.flatMap f).length := by
      rw [List.length_flatMap, List.length_flatMap]
      exact List.sum_le_sum fun x hx => hle x (List.mem_cons_of_mem _ hx)
    have hhead := hle a List.mem_cons_self
    rw [List.flatMap_cons, List.flatMap_cons] at h
    have hlen := congrArg List.length h
    rw [List.length_append, List.length_append] at hlen
    obtain ⟨hfa, hfl⟩ := List.append_inj h (by omega)
    intro x hx
    rcases List.mem_cons.1 hx with rfl | hx
    · exact hfa
    · exact ih (fun y hy => hle y (List.mem_cons_of_mem _ hy)) hfl x hx

/-- one downloader does for a batch what the messages' own do, if it does for each message -/
theorem downloads_eq_iff (downloadMedia : Option Downloader) (batch : List (Inbound Media Downloader)) :
    downloadsWith downloadMedia (batch.flatMap Inbound.mediaUrls) =
        (batch.flatMap fun m => downloadsWith m.downloadMedia m.mediaUrls) ↔
      ∀ m ∈ batch, m.mediaUrls = [] ∨ m.downloadMedia = downloadMedia := by
  rw [downloadsWith_flatMap]
  constructor
  · intro h m hm
    have heq : downloadsWith m.downloadMedia m.mediaUrls = downloadsWith downloadMedia m.mediaUrls := by
      cases downloadMedia with
      | none => exact flatMap_inj (fun a _ => Nat.zero_le _) h.symm m hm
      | some d =>
        refine (flatMap_inj (fun a _ => ?_) h m hm).symm
        cases ha : a.downloadMedia <;> simp [downloadsWith]
    exact (downloadsWith_eq_iff _ _ _).1 heq
  · intro h
    have heq : ∀ m ∈ batch, downloadsWith downloadMedia m.mediaUrls = downloadsWith m.downloadMedia m.mediaUrls :=
      fun m hm => ((downloadsWith_eq_iff _ _ _).2 (h m hm)).symm
    rw [List.flatMap_def, List.flatMap_def, List.map_congr_left heq]

/-- **Context.** A dispatch keeps the context of its messages exactly when each agrees with the last one. -/
theorem keepsContext_iff (address : Str → Str → Str) {batch : List (Inbound Media Downloader)}
    {d : Dispatch Media Downloader} {last : Inbound Media Downloader} (hd : d = dispatchOf batch last) :
    KeepsContext address batch d ↔ ∀ m ∈ batch, Agrees address m last := by
  subst hd
  constructor
  · intro h m hm
    obtain ⟨hchannel, hchat⟩ := h.reached m hm
    refine ⟨hchannel.symm, hchat.symm, ?_, (downloads_eq_iff last.downloadMedia batch).1 h.downloads m hm⟩
    by_cases hr : m.requestId = []
    · exact Or.inl hr
    · exact Or.inr (h.completed m hm hr).symm
  · intro h
    refine ⟨(downloads_eq_iff last.downloadMedia batch).2 fun m hm => (h m hm).downloadMedia, fun m hm => ?_,
      fun m hm hr => ?_⟩
    · exact ⟨(h m hm).channel.symm, (h m hm).chatId.symm⟩
    · exact ((h m hm).requestId.resolve_left hr).symm

/-- the messages of a batch agree with its last one -/
def AgreesWithLast (address : Str → Str → Str) (batch : List (Inbound Media Downloader)) : Prop :=
  ∃ last, batch.getLast? = some last ∧ ∀ m ∈ batch, Agrees address m last

theorem allKeep_iff (address : Str → Str → Str) {batches : List (List (Inbound Media Downloader))}
    {dispatched : List (Dispatch Media Downloader)} (h : List.Forall₂ Dispatches batches dispatched) :
    List.Forall₂ (KeepsContext address) batches dispatched ↔ ∀ batch ∈ batches, AgreesWithLast address batch := by
  induction h with
  | nil => simp
  | @cons batch d batches dispatched hbd _ ih =>
    obtain ⟨last, hlast, hd, -⟩ := hbd
    have hone : KeepsContext address batch d ↔ AgreesWithLast address batch := by
      rw [keepsContext_iff address hd]
      constructor
      · exact fun hall => ⟨last, hlast, hall⟩
      · intro hex
        obtain ⟨last', hlast', hall⟩ := hex
        obtain rfl := Option.some.inj (hlast.symm.trans hlast')
        exact hall
    rw [List.forall₂_cons, hone, ih, List.forall_mem_cons]

/-- **Batches.** In every run every message is in exactly one dispatched batch, or pending on a timer that dispatches it;
and the dispatches keep the context of their messages if and only if the messages of each batch agree with its last one. -/
theorem batches_keep_context (address : Str → Str → Str) (ops : List (Op Media Downloader)) :
    let b := Runs.run MessageBatcher.step {} ops
    ∃ (batches : List (List (Inbound Media Downloader))) (pending : Str → List (Inbound Media Downloader)),
      (∀ u, (enqueued ops).filter (fun m => m.user = u) = batches.flatten.filter (fun m => m.user = u) ++ pending u) ∧
      List.Forall₂ Dispatches batches b.dispatched ∧
      (∀ u, pending u ≠ [] → ∃ t d, (t, u) ∈ b.timers ∧ (b.fire t).dispatched = b.dispatched ++ [d] ∧
        Dispatches (pending u) d) ∧
      (List.Forall₂ (KeepsContext address) batches b.dispatched ↔ ∀ batch ∈ batches, AgreesWithLast address batch) := by
  obtain ⟨batches, pending, h⟩ := refines_run ops
  refine ⟨batches, pending, h.log, h.dispatched, fun u hu => ?_, allKeep_iff address h.dispatched⟩
  cases hl : (Runs.run MessageBatcher.step {} ops).states.lookup u with
  | none => exact absurd (h.free u hl) hu
  | some st =>
    obtain ⟨-, t, -, hmem⟩ := h.held u st hl
    obtain ⟨d, hd, hdispatches⟩ := (refines_fire h hmem hu).1
    exact ⟨t, d, hmem, hd, hdispatches⟩

/-! ## A message on another channel -/

/-- a message of the user "u" -/
def sampleInbound (seq : ℕ) (channel requestId : String) (mediaUrls : List (Str × Str)) (downloadMedia : Option String) :
    Inbound String String where
  user := "u".toList
  session := "s".toList
  message := ⟨.inbound, "Hi".toList, [], [], [], [], seq⟩
  mediaUrls := mediaUrls
  channel := channel.toList
  requestId := requestId.toList
  downloadedMedia := []
  downloadMedia := downloadMedia
  chatId := "42".toList

/-- a photo on one channel, then a question on the web -/
def photoThenWeb : List (Inbound String String) := [
  sampleInbound 1 "telegram" "" [("file_1".toList, "image/jpeg".toList)] (some "telegram"),
  sampleInbound 2 "webchat" "req_1" [] none]

set_option maxRecDepth 20000 in
/-- the photo is not downloaded, and its channel gets no reply -/
theorem photo_not_downloaded : ∃ d,
    (Runs.run MessageBatcher.step {} (photoThenWeb.map Op.enqueue ++ [.fire 1])).dispatched = [d] ∧
    ¬KeepsContext (fun _ _ => "42".toList) photoThenWeb d := by
  refine ⟨_, rfl, fun h => ?_⟩
  have hdownloads := congrArg List.length h.downloads
  exact absurd hdownloads (by decide)

end Clawbolt.Ingestion

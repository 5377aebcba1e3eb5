/-
BlueBubbles messages on their way to the bus (channels/bluebubbles.py): `parse_webhook`, the webhook endpoint and the
loop of `run_startup_backfill`, through `handle_webhook_inbound`.

The deliveries of a run are handled one after the other, and none fails. `is_allowed` answers as each delivery says. The
rows of a sweep are those that passed validation; a sweep handles each as a `new-message`.

- `publishedOf_deliveries`: of an id that the store retains, the first accepted delivery is published and no other;
- `dispatched_once_iff`: a message's text and attachments are dispatched once each exactly when one of its two ids carries
  all of its attachments and the other none.
-/
import Mathlib.Tactic
import Clawbolt.Inbound.Dedup

namespace Clawbolt.Inbound

open Text (Str)
open Runs

/-! ## The source -/

structure BBHandle where
  address : Str := []
deriving DecidableEq

structure BBAttachment where
  guid : Str := []
  mimeType : Str := []
deriving DecidableEq

structure BBMessageData where
  guid : Str := []
  text : Option Str := none
  isFromMe : Bool := false
  handle : Option BBHandle := none
  attachments : List BBAttachment := []
deriving DecidableEq

structure BBWebhookPayload where
  type : Str := []
  data : Option BBMessageData := none

def newMessage : Str := "new-message".toList

def updatedMessage : Str := "updated-message".toList

def mediaRefs (attachments : List BBAttachment) : List (Str × Str) :=
  (attachments.filter fun att => att.guid ≠ []).map fun att =>
    (att.guid, if att.mimeType = [] then "application/octet-stream".toList else att.mimeType)

/-- the `external_id` of an event of the message -/
def externalId (type guid : Str) : Str :=
  if guid = [] then []
  else if type = newMessage then "bb_".toList ++ guid
  else "bb_".toList ++ guid ++ "_att".toList

def parseWebhook (payload : BBWebhookPayload) : Option InboundMessage :=
  if payload.type ≠ newMessage ∧ payload.type ≠ updatedMessage then none
  else
    match payload.data with
    | none => none
    | some data =>
      if data.isFromMe then none
      else
        match data.handle with
        | none => none
        | some handle =>
          if handle.address = [] then none
          else if payload.type = updatedMessage ∧ mediaRefs data.attachments = [] then none
          else
            some
              { channel := "bluebubbles".toList
                senderId := handle.address
                text := if payload.type = updatedMessage then [] else data.text.getD []
                mediaRefs := mediaRefs data.attachments
                externalMessageId := externalId payload.type data.guid }

/-! ## Runs -/

/-- a call of `handle_webhook_inbound` with a message, and the answer of `is_allowed` -/
abbrev Call := Bool × InboundMessage

inductive Event where
  | webhook (allowed : Bool) (payload : BBWebhookPayload)
  | sweep (rows : List (Bool × BBMessageData))
  /-- a delivery of another channel -/
  | other (allowed : Bool) (m : InboundMessage)

namespace Event

def calls : Event → List Call
  | webhook allowed payload => (parseWebhook payload).toList.map fun m => (allowed, m)
  | sweep rows => rows.flatMap fun row => (parseWebhook ⟨newMessage, some row.2⟩).toList.map fun m => (row.1, m)
  | other allowed m => [(allowed, m)]

end Event

/-- the steps of a delivery that nothing disturbs -/
def stepsOf (t : ℕ) (c : Call) : List Op :=
  [.arrive t c.2, .allow t c.1, .insert t, .commit t, .count t, .delete t, .commitDelete t, .publish t]

/-- the calls, one after the other -/
def inOrder (calls : List Call) : List Op := calls.zipIdx.flatMap fun p => stepsOf p.2 p.1

def handled (calls : List Call) : Sys := run step Sys.init (inOrder calls)

def dispatch (events : List Event) : Sys := handled (events.flatMap Event.calls)

theorem handled_snoc (calls : List Call) (c : Call) :
    handled (calls ++ [c]) = run step (handled calls) (stepsOf calls.length c) := by
  simp [handled, inOrder, List.zipIdx_append, run_append]

/-! ## One delivery -/

/-- between two deliveries no row is open -/
def Quiet (s : Sys) : Prop := ∀ r ∈ s.table.rows, r.committed = true

/-- the INSERT of a delivery that nothing disturbs fails exactly on the committed ids -/
theorem Quiet.mem_rows_iff {s : Sys} (h : Quiet s) {x : Str} :
    x ∈ (s.table.rows.map fun r => r.externalId) ↔ x ∈ s.table.seen.map Key.externalId := by
  simp only [KeyTable.seen, List.map_map, List.filter_eq_self.2 h]
  rfl

/-- the delivery is not turned away -/
def Taken (s : Sys) (c : Call) : Prop :=
  c.1 = true ∧ (c.2.externalMessageId = [] ∨ c.2.externalMessageId ∉ s.table.seen.map Key.externalId)

/-- what a delivery that nothing disturbs leaves behind -/
structure Delivered (s : Sys) (t : ℕ) (c : Call) (s' : Sys) : Prop where
  quiet : Quiet s'
  phase : ∀ j, j ≠ t → s'.phase j = s.phase j
  refused : ¬ Taken s c → s'.published = s.published ∧ s'.recorded = s.recorded
  unnumbered : Taken s c → c.2.externalMessageId = [] →
    s'.published = s.published ++ [(t, c.2)] ∧ s'.recorded = s.recorded
  numbered : Taken s c → c.2.externalMessageId ≠ [] →
    s'.published = s.published ++ [(t, c.2)] ∧ ∃ i, s'.recorded = s.recorded ++ [⟨i, c.2.externalMessageId⟩]

theorem Delivered.published {s s' : Sys} {t : ℕ} {c : Call} (h : Delivered s t c s') (htaken : Taken s c) :
    s'.published = s.published ++ [(t, c.2)] := by
  by_cases hx : c.2.externalMessageId = []
  · exact (h.unnumbered htaken hx).1
  · exact (h.numbered htaken hx).1

theorem Delivered.recorded {s s' : Sys} {t : ℕ} {c : Call} (h : Delivered s t c s') :
    ∃ l, s'.recorded = s.recorded ++ l := by
  by_cases htaken : Taken s c
  · by_cases hx : c.2.externalMessageId = []
    · exact ⟨[], by rw [(h.unnumbered htaken hx).2, List.append_nil]⟩
    · obtain ⟨i, hi⟩ := (h.numbered htaken hx).2
      exact ⟨_, hi⟩
  · exact ⟨[], by rw [(h.refused htaken).2, List.append_nil]⟩

theorem quiet_insert_commit {T : KeyTable} (hq : ∀ r ∈ T.rows, r.committed = true) {x : Str}
    (hx : x ∉ T.rows.map fun r => r.externalId) : ∀ r ∈ ((T.insert x hx).commit T.nextId).rows, r.committed = true := by
  intro r hr
  rcases KeyTable.mem_commit.1 hr with ⟨hr, hi⟩ | ⟨-, hc, -⟩
  · rcases (KeyTable.mem_insert (h := hx)).1 hr with hr | rfl
    · exact hq r hr
    · exact absurd rfl hi
  · exact hc

theorem step_insert_new {s : Sys} {t : ℕ} {m : InboundMessage} (ht : s.phase t = .marking m)
    (hx : m.externalMessageId ∉ s.table.rows.map fun r => r.externalId) :
    step s (.insert t) =
      { s.put t (.inserted m s.table.nextId) with table := s.table.insert m.externalMessageId hx } := by
  simp only [step]
  rw [ht]
  exact dif_neg hx

/-- the store prunes, and the delivery publishes -/
theorem pruned_and_published {s : Sys} (hq : Quiet s) {t : ℕ} {m : InboundMessage} {i : ℕ}
    (ht : s.phase t = .counting m i) :
    Quiet (run step s [.count t, .delete t, .commitDelete t, .publish t]) ∧
      (∀ j, j ≠ t → (run step s [.count t, .delete t, .commitDelete t, .publish t]).phase j = s.phase j) ∧
      (run step s [.count t, .delete t, .commitDelete t, .publish t]).published = s.published ++ [(t, m)] ∧
      (run step s [.count t, .delete t, .commitDelete t, .publish t]).recorded = s.recorded := by
  by_cases hfew : s.table.seen.length ≤ seenMax
  · have hrun : run step s [.count t, .delete t, .commitDelete t, .publish t] =
        { (s.put t (.publishing m (some i))).put t (.published m (some i)) with
          published := s.published ++ [(t, m)] } := by
      simp [step, ht, hfew]
    rw [hrun]
    refine ⟨hq, fun j hj => ?_, rfl, rfl⟩
    simp [phase_put, hj]
  · have hrun : run step s [.count t, .delete t, .commitDelete t, .publish t] =
        { (((s.put t (.deleting m i)).put t (.deleted m i s.table.doomed)).put t (.publishing m (some i))).put t
            (.published m (some i)) with
          table := s.table.remove s.table.doomed, published := s.published ++ [(t, m)] } := by
      simp [step, ht, hfew, Sys.put]
    rw [hrun]
    refine ⟨?_, fun j hj => ?_, rfl, rfl⟩
    · intro r hr
      exact hq r (KeyTable.mem_remove.1 hr).1
    · simp [phase_put, hj]

theorem delivered {s : Sys} (hq : Quiet s) {t : ℕ} (ht : s.phase t = .idle) (c : Call) :
    Delivered s t c (run step s (stepsOf t c)) := by
  obtain ⟨ok, m⟩ := c
  cases ok with
  | false =>
    have hrun : run step s (stepsOf t (false, m)) = (s.put t (.checking m)).put t .ended := by
      simp [stepsOf, step, ht]
    rw [hrun]
    refine ⟨hq, ?_, fun _ => ⟨rfl, rfl⟩, ?_, ?_⟩
    · intro j hj
      simp [phase_put, hj]
    · exact fun h => absurd h.1 Bool.false_ne_true
    · exact fun h => absurd h.1 Bool.false_ne_true
  | true =>
    by_cases hx : m.externalMessageId = []
    · have hrun : run step s (stepsOf t (true, m)) =
          { ((s.put t (.checking m)).put t (.publishing m none)).put t (.published m none) with
            published := s.published ++ [(t, m)] } := by
        simp [stepsOf, step, ht, hx]
      rw [hrun]
      refine ⟨hq, ?_, ?_, fun _ _ => ⟨rfl, rfl⟩, fun _ h => absurd hx h⟩
      · intro j hj
        simp [phase_put, hj]
      · exact fun h => absurd ⟨rfl, Or.inl hx⟩ h
    · by_cases hseen : m.externalMessageId ∈ s.table.seen.map Key.externalId
      · have hrow := hq.mem_rows_iff.2 hseen
        have hrun : run step s (stepsOf t (true, m)) =
            { ((s.put t (.checking m)).put t (.marking m)).put t .ended with
              table := s.table.burn, rejected := s.rejected ++ [m.externalMessageId] } := by
          simp only [stepsOf, run_cons, run_nil, step, ht, phase_put_self, hx, table_put, hrow, hseen, if_true, if_false,
            dif_pos, Bool.true_eq_false, rejected_put]
        rw [hrun]
        refine ⟨hq, ?_, fun _ => ⟨rfl, rfl⟩, ?_, ?_⟩
        · intro j hj
          simp [phase_put, hj]
        · exact fun _ h => absurd h hx
        · exact fun h _ => absurd hseen (h.2.resolve_left hx)
      · have hrow := fun h => hseen (hq.mem_rows_iff.1 h)
        have hmark : step (step s (.arrive t m)) (.allow t true) = (s.put t (.checking m)).put t (.marking m) := by
          simp [step, ht, hx]
        have hnew := step_insert_new (s := (s.put t (.checking m)).put t (.marking m)) (phase_put_self _ _ _) hrow
        have hrun : run step s [.arrive t m, .allow t true, .insert t, .commit t] =
            { (((s.put t (.checking m)).put t (.marking m)).put t (.inserted m s.table.nextId)).put t
                (.counting m s.table.nextId) with
              table := (s.table.insert m.externalMessageId hrow).commit s.table.nextId
              recorded := s.recorded ++ [⟨s.table.nextId, m.externalMessageId⟩] } := by
          rw [run_cons, run_cons, run_cons, hmark, hnew]
          simp [step, Sys.put]
        have htail := pruned_and_published (t := t) (m := m) (i := s.table.nextId)
          (s := run step s [.arrive t m, .allow t true, .insert t, .commit t]) (by
            rw [hrun]; exact quiet_insert_commit hq hrow) (by rw [hrun]; exact phase_put_self _ _ _)
        have happ : run step s (stepsOf t (true, m)) =
            run step (run step s [.arrive t m, .allow t true, .insert t, .commit t])
              [.count t, .delete t, .commitDelete t, .publish t] := rfl
        rw [happ]
        obtain ⟨hquiet, hphase, hpub, hrec⟩ := htail
        refine ⟨hquiet, ?_, fun h => absurd ⟨rfl, Or.inr hseen⟩ h, fun _ h => absurd h hx, fun _ _ => ⟨?_, s.table.nextId, ?_⟩⟩
        · intro j hj
          rw [hphase j hj, hrun]
          simp [phase_put, hj]
        · rw [hpub, hrun]; rfl
        · rw [hrec, hrun]

/-! ## The deliveries of an id -/

/-- the accepted calls with the id -/
def acceptedOf (calls : List Call) (x : Str) : List InboundMessage :=
  (calls.filter fun c => c.1 && decide (c.2.externalMessageId = x)).map Prod.snd

theorem acceptedOf_append (a b : List Call) (x : Str) : acceptedOf (a ++ b) x = acceptedOf a x ++ acceptedOf b x := by
  simp [acceptedOf]

/-- between the calls: what is open, and which ids the store has been given -/
structure Book (calls : List Call) (s : Sys) : Prop where
  quiet : Quiet s
  idle : ∀ t, calls.length ≤ t → s.phase t = .idle
  given : ∀ k ∈ s.recorded, acceptedOf calls k.externalId ≠ []
  stored : ∀ x, x ≠ [] → acceptedOf calls x ≠ [] → ∃ k ∈ s.recorded, k.externalId = x

theorem inv_handled (calls : List Call) : Inv (handled calls) := inv_run _

theorem acceptedOf_taken {s : Sys} {c : Call} (h : Taken s c) : acceptedOf [c] c.2.externalMessageId ≠ [] := by
  simp [acceptedOf, h.1]

theorem book (calls : List Call) : Book calls (handled calls) := by
  induction calls using List.reverseRecOn with
  | nil => exact ⟨nofun, fun _ _ => rfl, nofun, fun _ _ h => absurd rfl h⟩
  | append_singleton calls c ih =>
    have hd := delivered ih.quiet (ih.idle _ le_rfl) c
    rw [← handled_snoc] at hd
    have hold : ∀ k ∈ (handled calls).recorded, acceptedOf (calls ++ [c]) k.externalId ≠ [] := by
      intro k hk
      rw [acceptedOf_append]
      exact List.append_ne_nil_of_left_ne_nil (ih.given k hk) _
    refine ⟨hd.quiet, ?_, ?_, ?_⟩
    · intro t ht
      rw [List.length_append] at ht
      rw [hd.phase t (by simp at ht; omega)]
      exact ih.idle t (by simp at ht; omega)
    · intro k hk
      by_cases htaken : Taken (handled calls) c
      · by_cases hx : c.2.externalMessageId = []
        · rw [(hd.unnumbered htaken hx).2] at hk
          exact hold k hk
        · obtain ⟨i, hi⟩ := (hd.numbered htaken hx).2
          rw [hi] at hk
          rcases List.mem_append.1 hk with hk | hk
          · exact hold k hk
          · rw [List.mem_singleton.1 hk, acceptedOf_append]
            exact List.append_ne_nil_of_right_ne_nil _ (acceptedOf_taken htaken)
      · rw [(hd.refused htaken).2] at hk
        exact hold k hk
    · intro x hx hacc
      by_cases hbefore : acceptedOf calls x = []
      · -- the call is the first accepted one of the id
        rw [acceptedOf_append, hbefore, List.nil_append] at hacc
        have hc : c.1 = true ∧ c.2.externalMessageId = x := by
          by_contra hno
          refine hacc ?_
          rw [acceptedOf, List.map_eq_nil_iff, List.filter_eq_nil_iff]
          simpa using hno
        have hnot : c.2.externalMessageId ∉ (handled calls).table.seen.map Key.externalId := by
          intro hin
          obtain ⟨k, hk, hkx⟩ := List.mem_map.1 hin
          refine ih.given k ((inv_handled calls).seen k hk) ?_
          rw [hkx, hc.2]
          exact hbefore
        obtain ⟨i, hi⟩ := (hd.numbered ⟨hc.1, Or.inr hnot⟩ (hc.2 ▸ hx)).2
        rw [hi]
        exact ⟨_, List.mem_append_right _ (List.mem_singleton_self _), hc.2⟩
      · obtain ⟨k, hk, hkx⟩ := ih.stored x hx hbefore
        obtain ⟨l, hl⟩ := hd.recorded
        exact ⟨k, by rw [hl]; exact List.mem_append_left _ hk, hkx⟩

theorem delivered_snoc (calls : List Call) (c : Call) :
    Delivered (handled calls) calls.length c (handled (calls ++ [c])) := by
  rw [handled_snoc]
  exact delivered (book calls).quiet ((book calls).idle _ le_rfl) c

theorem Retained.before {calls : List Call} {c : Call} {x : Str} (h : Retained (handled (calls ++ [c])) x) :
    Retained (handled calls) x := by
  intro k hk hkx
  obtain ⟨l, hl⟩ := (delivered_snoc calls c).recorded
  refine lt_of_le_of_lt (newer_append_le _ l _) ?_
  rw [← hl]
  exact h k (by rw [hl]; exact List.mem_append_left _ hk) hkx

/-- **The first one only.** Of the accepted deliveries of an id, the store lets the first through and no other, as long as
it retains the id. -/
theorem publishedOf_deliveries (calls : List Call) {x : Str} (hx : x ≠ []) (hkeep : Retained (handled calls) x) :
    (publishedOf (handled calls) x).map Prod.snd = (acceptedOf calls x).take 1 := by
  induction calls using List.reverseRecOn with
  | nil => rfl
  | append_singleton calls c ih =>
    have hb := book calls
    have hd := delivered_snoc calls c
    have ih := ih hkeep.before
    by_cases hc : c.1 = true ∧ c.2.externalMessageId = x
    · have hone : acceptedOf [c] x = [c.2] := by simp [acceptedOf, hc.1, hc.2]
      by_cases hfirst : acceptedOf calls x = []
      · have hnot : c.2.externalMessageId ∉ (handled calls).table.seen.map Key.externalId := by
          intro hin
          obtain ⟨k, hk, hkx⟩ := List.mem_map.1 hin
          refine hb.given k ((inv_handled calls).seen k hk) ?_
          rw [hkx, hc.2]
          exact hfirst
        rw [publishedOf, hd.published ⟨hc.1, Or.inr hnot⟩, List.filter_append, List.map_append, ← publishedOf, ih, acceptedOf_append, hone, hfirst]
        simp [hc.2]
      · -- the key of the first one is still in the table
        have hin : c.2.externalMessageId ∈ (handled calls).table.seen.map Key.externalId := by
          obtain ⟨k, hk, hkx⟩ := hb.stored x hx hfirst
          rcases (inv_handled calls).kept k hk with hs | hold
          · exact List.mem_map.2 ⟨k, hs, hkx.trans hc.2.symm⟩
          · exact absurd (hkeep.before k hk hkx) (Nat.not_lt.2 hold)
        have hno : ¬ Taken (handled calls) c := by
          rintro ⟨-, hcx | hcx⟩
          · exact hx (hc.2.symm.trans hcx)
          · exact hcx hin
        rw [publishedOf, (hd.refused hno).1, ← publishedOf, ih, acceptedOf_append,
          List.take_append_of_le_length (List.length_pos_iff.2 hfirst)]
    · have hnone : acceptedOf [c] x = [] := by
        rw [acceptedOf, List.map_eq_nil_iff, List.filter_eq_nil_iff]
        simpa using hc
      rw [acceptedOf_append, hnone, List.append_nil, ← ih]
      by_cases htaken : Taken (handled calls) c
      · have hcx : c.2.externalMessageId ≠ x := fun hcx => hc ⟨htaken.1, hcx⟩
        rw [publishedOf, hd.published htaken, List.filter_append, ← publishedOf]
        simp [hcx]
      · rw [publishedOf, (hd.refused htaken).1, ← publishedOf]

/-! ## A message -/

/-- a message that somebody sent -/
structure IMessage where
  guid : Str
  text : Option Str
  address : Str
  guid_ne : guid ≠ []
  address_ne : address ≠ []

/-- a webhook or a row of a sweep that carries a message, and the answer of `is_allowed` -/
structure Delivery where
  allowed : Bool
  type : Str
  data : BBMessageData
deriving DecidableEq

namespace Delivery

def calls (d : Delivery) : List Call := (parseWebhook ⟨d.type, some d.data⟩).toList.map fun i => (d.allowed, i)

def guids (d : Delivery) : List Str := d.data.attachments.map BBAttachment.guid

/-- the attachments that `parse_webhook` keeps -/
def refs (d : Delivery) : List Str := (mediaRefs d.data.attachments).map Prod.fst

end Delivery

namespace Event

def deliveries : Event → List Delivery
  | webhook allowed payload => payload.data.toList.map fun data => ⟨allowed, payload.type, data⟩
  | sweep rows => rows.map fun row => ⟨row.1, newMessage, row.2⟩
  | other _ _ => []

def foreign : Event → List Call
  | other allowed m => [(allowed, m)]
  | _ => []

theorem calls_eq (e : Event) : e.calls = e.deliveries.flatMap Delivery.calls ++ e.foreign := by
  cases e with
  | webhook allowed payload =>
    obtain ⟨type, data⟩ := payload
    cases data with
    | none => simp [calls, deliveries, foreign, parseWebhook]
    | some data => simp [calls, deliveries, foreign, Delivery.calls]
  | sweep rows => simp [calls, deliveries, foreign, Delivery.calls, List.flatMap_map]
  | other allowed m => simp [calls, deliveries, foreign]

end Event

namespace IMessage

def data (m : IMessage) (attachments : List BBAttachment) : BBMessageData :=
  { guid := m.guid, text := m.text, handle := some ⟨m.address⟩, attachments := attachments }

/-- the deliveries of the message -/
def deliveries (m : IMessage) (events : List Event) : List Delivery :=
  (events.flatMap Event.deliveries).filter fun d =>
    d.data.guid = m.guid ∧ (d.type = newMessage ∨ d.type = updatedMessage)

/-- the id of a `new-message` and of a row -/
def newId (m : IMessage) : Str := externalId newMessage m.guid

/-- the id of an `updated-message` -/
def attId (m : IMessage) : Str := externalId updatedMessage m.guid

/-- what was published under the two ids -/
def dispatched (m : IMessage) (s : Sys) : List InboundMessage :=
  (publishedOf s m.newId ++ publishedOf s m.attId).map Prod.snd

/-- the first accepted `new-message` or row -/
def firstNew (m : IMessage) (events : List Event) : Option Delivery :=
  (m.deliveries events).find? fun d => d.allowed && decide (d.type = newMessage)

/-- the first accepted `updated-message` with an attachment -/
def firstUpdate (m : IMessage) (events : List Event) : Option Delivery :=
  (m.deliveries events).find? fun d => d.allowed && decide (d.type = updatedMessage ∧ d.refs ≠ [])

end IMessage

/-- the attachments of the delivery, if there is one -/
def refsOf (d : Option Delivery) : List Str := (d.map Delivery.refs).getD []

/-- the run brings the deliveries of the message, whose attachments only grow, among those of other messages, and fewer
newer keys than the store retains -/
structure Traffic (m : IMessage) (events : List Event) : Prop where
  same : ∀ d ∈ m.deliveries events, d.data = m.data d.data.attachments
  grows : ∀ d ∈ m.deliveries events, ∀ d' ∈ m.deliveries events, d.guids ⊆ d'.guids ∨ d'.guids ⊆ d.guids
  distinct : ∀ d ∈ m.deliveries events, d.refs.Nodup
  guids : ∀ d ∈ events.flatMap Event.deliveries, d.data.guid ≠ m.guid ++ "_att".toList ∧ d.data.guid ++ "_att".toList ≠ m.guid
  foreign : ∀ c ∈ events.flatMap Event.foreign, c.2.externalMessageId ≠ m.newId ∧ c.2.externalMessageId ≠ m.attId
  retained : Retained (dispatch events) m.newId ∧ Retained (dispatch events) m.attId

/-- the text is dispatched once, and so is every attachment that a delivery carried -/
structure DispatchedOnce (m : IMessage) (events : List Event) : Prop where
  text : m.text.getD [] ≠ [] → ((m.dispatched (dispatch events)).map InboundMessage.text).count (m.text.getD []) = 1
  attachments : ∀ d ∈ m.deliveries events, ∀ g ∈ d.guids,
    ((m.dispatched (dispatch events)).flatMap fun i => i.mediaRefs.map Prod.fst).count g = 1

/-- a `new-message` or a row comes through for the text; and of the two ids one carries no attachment and the first
delivery of the other one carries every attachment -/
def OneCarrier (m : IMessage) (events : List Event) : Prop :=
  (m.text.getD [] ≠ [] → (m.firstNew events).isSome) ∧
    ((refsOf (m.firstUpdate events) = [] ∧ ∀ d ∈ m.deliveries events, d.guids ⊆ refsOf (m.firstNew events)) ∨
      (refsOf (m.firstNew events) = [] ∧ ∀ d ∈ m.deliveries events, d.guids ⊆ refsOf (m.firstUpdate events)))

/-! ## What is published of a message -/

theorem newMessage_ne : newMessage ≠ updatedMessage := by decide

theorem IMessage.newId_eq (m : IMessage) : m.newId = "bb_".toList ++ m.guid := by
  simp [IMessage.newId, externalId, m.guid_ne]

theorem IMessage.attId_eq (m : IMessage) : m.attId = "bb_".toList ++ m.guid ++ "_att".toList := by
  simp [IMessage.attId, externalId, m.guid_ne, newMessage_ne.symm]

theorem IMessage.newId_ne_attId (m : IMessage) : m.newId ≠ m.attId := by
  intro h
  have hl := congrArg List.length h
  rw [m.newId_eq, m.attId_eq] at hl
  simp at hl

theorem IMessage.newId_ne (m : IMessage) : m.newId ≠ [] := by simp [m.newId_eq]

theorem IMessage.attId_ne (m : IMessage) : m.attId ≠ [] := by simp [m.attId_eq]

/-- the id says which message it is of -/
theorem externalId_ne {m : IMessage} {type guid : Str} (h : guid ≠ m.guid)
    (hg : guid ≠ m.guid ++ "_att".toList ∧ guid ++ "_att".toList ≠ m.guid) :
    externalId type guid ≠ m.newId ∧ externalId type guid ≠ m.attId := by
  rw [m.newId_eq, m.attId_eq]
  unfold externalId
  split_ifs with hempty hnew
  · simp
  · simpa using ⟨h, hg.1⟩
  · simpa using ⟨hg.2, h⟩

theorem externalId_of_parse {type : Str} {data : BBMessageData} {i : InboundMessage}
    (h : parseWebhook ⟨type, some data⟩ = some i) : i.externalMessageId = externalId type data.guid := by
  unfold parseWebhook at h
  cases hh : data.handle with
  | none => simp [hh] at h
  | some handle =>
    simp only [hh, Option.ite_none_left_eq_some, Option.some.injEq] at h
    rw [← h.2.2.2.2]

/-- a delivery of the message as the bus gets it -/
def IMessage.inbound (m : IMessage) (d : Delivery) : InboundMessage :=
  { channel := "bluebubbles".toList
    senderId := m.address
    text := if d.type = updatedMessage then [] else m.text.getD []
    mediaRefs := mediaRefs d.data.attachments
    externalMessageId := externalId d.type m.guid }

theorem parseWebhook_of {m : IMessage} {d : Delivery} (hd : d.data = m.data d.data.attachments)
    (htype : d.type = newMessage ∨ d.type = updatedMessage) :
    parseWebhook ⟨d.type, some d.data⟩ =
      if d.type = updatedMessage ∧ d.refs = [] then none else some (m.inbound d) := by
  have hno : ¬ (d.type ≠ newMessage ∧ d.type ≠ updatedMessage) := by tauto
  have hrefs : d.refs = [] ↔ mediaRefs d.data.attachments = [] := List.map_eq_nil_iff
  have hguid : d.data.guid = m.guid := by rw [hd]; rfl
  have hme : d.data.isFromMe = false := by rw [hd]; rfl
  have hhandle : d.data.handle = some ⟨m.address⟩ := by rw [hd]; rfl
  have htext : d.data.text = m.text := by rw [hd]; rfl
  rw [parseWebhook, if_neg hno]
  simp only [hme, hhandle, hguid, htext, Bool.false_eq_true, if_false]
  rw [if_neg m.address_ne]
  by_cases hskip : d.type = updatedMessage ∧ d.refs = []
  · rw [if_pos hskip, if_pos ⟨hskip.1, hrefs.1 hskip.2⟩]
  · rw [if_neg hskip, if_neg (fun h => hskip ⟨h.1, hrefs.2 h.2⟩)]
    rfl

theorem acceptedOf_flatMap {α : Type} (l : List α) (f : α → List Call) (x : Str) :
    acceptedOf (l.flatMap f) x = l.flatMap fun a => acceptedOf (f a) x := by
  induction l with
  | nil => rfl
  | cons a l ih => rw [List.flatMap_cons, acceptedOf_append, ih, List.flatMap_cons]

/-- which deliveries come under the id -/
def under (m : IMessage) (x : Str) (d : Delivery) : Bool :=
  d.allowed && decide (externalId d.type m.guid = x ∧ ¬ (d.type = updatedMessage ∧ d.refs = []))

theorem acceptedOf_calls {m : IMessage} {d : Delivery} {x : Str} (hx : x = m.newId ∨ x = m.attId)
    (hsame : d.data.guid = m.guid → (d.type = newMessage ∨ d.type = updatedMessage) → d.data = m.data d.data.attachments)
    (hg : d.data.guid ≠ m.guid ++ "_att".toList ∧ d.data.guid ++ "_att".toList ≠ m.guid) :
    acceptedOf d.calls x =
      if (d.data.guid = m.guid ∧ (d.type = newMessage ∨ d.type = updatedMessage)) ∧ under m x d then [m.inbound d]
      else [] := by
  by_cases hguid : d.data.guid = m.guid
  · by_cases htype : d.type = newMessage ∨ d.type = updatedMessage
    · rw [Delivery.calls, parseWebhook_of (hsame hguid htype) htype]
      by_cases hskip : d.type = updatedMessage ∧ d.refs = []
      · rw [if_pos hskip, if_neg]
        · rfl
        · intro h
          have hu := h.2
          rw [under, Bool.and_eq_true, decide_eq_true_eq] at hu
          exact hu.2.2 hskip
      · rw [if_neg hskip]
        have hcall : acceptedOf ((some (m.inbound d)).toList.map fun i => (d.allowed, i)) x =
            if under m x d then [m.inbound d] else [] := by
          have hunder : under m x d = (d.allowed && decide ((m.inbound d).externalMessageId = x)) := by
            rw [under, decide_eq_decide.2 (and_iff_left hskip)]
            rfl
          rw [hunder, Option.toList_some, List.map_singleton, acceptedOf, List.filter_singleton]
          dsimp only
          cases d.allowed && decide ((m.inbound d).externalMessageId = x) <;> rfl
        rw [hcall]
        exact if_congr ⟨fun h => ⟨⟨hguid, htype⟩, h⟩, fun h => h.2⟩ rfl rfl
    · have hnone : parseWebhook ⟨d.type, some d.data⟩ = none := by
        rw [parseWebhook, if_pos]
        exact not_or.1 htype
      simp [Delivery.calls, hnone, acceptedOf, htype]
  · have hid : externalId d.type d.data.guid ≠ m.newId ∧ externalId d.type d.data.guid ≠ m.attId := externalId_ne hguid hg
    have hnot : externalId d.type d.data.guid ≠ x := by
      rcases hx with rfl | rfl
      · exact hid.1
      · exact hid.2
    rw [if_neg (fun h => hguid h.1.1), Delivery.calls]
    cases hp : parseWebhook ⟨d.type, some d.data⟩ with
    | none => rfl
    | some i =>
      have hi := externalId_of_parse hp
      simp [acceptedOf, hi, hnot]

theorem flatMap_ite_singleton {α β : Type} (l : List α) (p : α → Prop) [DecidablePred p] (f : α → β) :
    (l.flatMap fun a => if p a then [f a] else []) = (l.filter fun a => decide (p a)).map f := by
  induction l with
  | nil => rfl
  | cons a l ih =>
    rw [List.flatMap_cons, ih]
    by_cases h : p a <;> simp [h]

theorem acceptedOf_events {m : IMessage} {events : List Event} (h : Traffic m events) {x : Str}
    (hx : x = m.newId ∨ x = m.attId) :
    acceptedOf (events.flatMap Event.calls) x = ((m.deliveries events).filter (under m x)).map m.inbound := by
  have hforeign : ∀ e ∈ events, acceptedOf e.foreign x = [] := by
    intro e he
    rw [acceptedOf, List.map_eq_nil_iff, List.filter_eq_nil_iff]
    intro c hc hcx
    have hne := h.foreign c (List.mem_flatMap.2 ⟨e, he, hc⟩)
    simp only [Bool.and_eq_true, decide_eq_true_eq] at hcx
    rcases hx with rfl | rfl
    · exact hne.1 hcx.2
    · exact hne.2 hcx.2
  calc acceptedOf (events.flatMap Event.calls) x
      = events.flatMap fun e => acceptedOf e.calls x := acceptedOf_flatMap _ _ _
    _ = events.flatMap fun e => e.deliveries.flatMap fun d => acceptedOf d.calls x := by
        refine List.flatMap_congr fun e he => ?_
        rw [e.calls_eq, acceptedOf_append, hforeign e he, List.append_nil, acceptedOf_flatMap]
    _ = (events.flatMap Event.deliveries).flatMap fun d => acceptedOf d.calls x := List.flatMap_assoc.symm
    _ = (events.flatMap Event.deliveries).flatMap fun d =>
          if (d.data.guid = m.guid ∧ (d.type = newMessage ∨ d.type = updatedMessage)) ∧ under m x d then [m.inbound d]
          else [] := by
        refine List.flatMap_congr fun d hd => acceptedOf_calls hx ?_ (h.guids d hd)
        intro hguid htype
        exact h.same d (List.mem_filter.2 ⟨hd, by simpa using ⟨hguid, htype⟩⟩)
    _ = ((m.deliveries events).filter (under m x)).map m.inbound := by
        rw [flatMap_ite_singleton, IMessage.deliveries, List.filter_filter]
        congr 2
        funext d
        simp [Bool.and_comm]

theorem under_newId (m : IMessage) {d : Delivery} (h : d.type = newMessage ∨ d.type = updatedMessage) :
    under m m.newId d = (d.allowed && decide (d.type = newMessage)) := by
  rw [under]
  congr 1
  refine decide_eq_decide.2 ?_
  rcases h with h | h
  · simp only [h, newMessage_ne, false_and, not_false_eq_true, and_true, IMessage.newId]
  · simp only [h, newMessage_ne.symm, iff_false]
    exact fun hid => m.newId_ne_attId hid.1.symm

theorem under_attId (m : IMessage) {d : Delivery} (h : d.type = newMessage ∨ d.type = updatedMessage) :
    under m m.attId d = (d.allowed && decide (d.type = updatedMessage ∧ d.refs ≠ [])) := by
  rw [under]
  congr 1
  refine decide_eq_decide.2 ?_
  rcases h with h | h
  · simp only [h, newMessage_ne, false_and, iff_false]
    exact fun hid => m.newId_ne_attId hid.1
  · simp only [h, true_and, IMessage.attId, ne_eq]

/-- **What is dispatched.** The first accepted `new-message` or row, and the first accepted update with an attachment. -/
theorem dispatched_eq {m : IMessage} {events : List Event} (h : Traffic m events) :
    m.dispatched (dispatch events) =
      ((m.firstNew events).toList ++ (m.firstUpdate events).toList).map m.inbound := by
  have htype : ∀ d ∈ m.deliveries events, d.type = newMessage ∨ d.type = updatedMessage := by
    intro d hd
    have := (List.mem_filter.1 hd).2
    exact (of_decide_eq_true this).2
  have hone : ∀ x, (x = m.newId ∨ x = m.attId) → ∀ p : Delivery → Bool, (∀ d ∈ m.deliveries events, under m x d = p d) →
      (acceptedOf (events.flatMap Event.calls) x).take 1 = ((m.deliveries events).find? p).toList.map m.inbound := by
    intro x hx p hp
    rw [acceptedOf_events h hx, List.filter_congr hp, List.map_take.symm, List.take_one, List.head?_filter]
  rw [IMessage.dispatched, List.map_append, dispatch, publishedOf_deliveries _ m.newId_ne h.retained.1,
    publishedOf_deliveries _ m.attId_ne h.retained.2, List.map_append]
  congr 1
  · exact hone _ (Or.inl rfl) _ fun d hd => under_newId m (htype d hd)
  · exact hone _ (Or.inr rfl) _ fun d hd => under_attId m (htype d hd)

theorem dispatched_refs {m : IMessage} {events : List Event} (h : Traffic m events) :
    ((m.dispatched (dispatch events)).flatMap fun i => i.mediaRefs.map Prod.fst) =
      refsOf (m.firstNew events) ++ refsOf (m.firstUpdate events) := by
  have hone : ∀ d : Option Delivery, ((d.toList.map m.inbound).flatMap fun i => i.mediaRefs.map Prod.fst) = refsOf d := by
    intro d
    cases d with
    | none => rfl
    | some d => exact List.append_nil _
  rw [dispatched_eq h, List.map_append, List.flatMap_append, hone, hone]

/-- the attachments with an id -/
theorem Delivery.mem_refs {d : Delivery} {g : Str} : g ∈ d.refs ↔ g ∈ d.guids ∧ g ≠ [] := by
  simp only [Delivery.refs, Delivery.guids, mediaRefs, List.map_map, List.mem_map, List.mem_filter, decide_eq_true_eq,
    Function.comp_apply]
  constructor
  · rintro ⟨att, ⟨hatt, hne⟩, rfl⟩
    exact ⟨⟨att, hatt, rfl⟩, hne⟩
  · rintro ⟨⟨att, hatt, rfl⟩, hne⟩
    exact ⟨att, ⟨hatt, hne⟩, rfl⟩

theorem refsOf_find? (m : IMessage) (events : List Event) (p : Delivery → Bool) :
    refsOf ((m.deliveries events).find? p) = [] ∨
      ∃ d ∈ m.deliveries events, refsOf ((m.deliveries events).find? p) = d.refs := by
  cases hf : (m.deliveries events).find? p with
  | none => exact Or.inl rfl
  | some d => exact Or.inr ⟨d, List.mem_of_find?_eq_some hf, rfl⟩

/-- two lists that share nothing unless one of them is empty hold every attachment once between them -/
theorem each_once_iff {m : IMessage} {events : List Event} (h : Traffic m events) :
    (∀ d ∈ m.deliveries events, ∀ g ∈ d.guids,
        (refsOf (m.firstNew events) ++ refsOf (m.firstUpdate events)).count g = 1) ↔
      (refsOf (m.firstUpdate events) = [] ∧ ∀ d ∈ m.deliveries events, d.guids ⊆ refsOf (m.firstNew events)) ∨
        (refsOf (m.firstNew events) = [] ∧ ∀ d ∈ m.deliveries events, d.guids ⊆ refsOf (m.firstUpdate events)) := by
  have hN := refsOf_find? m events fun d => d.allowed && decide (d.type = newMessage)
  have hU := refsOf_find? m events fun d => d.allowed && decide (d.type = updatedMessage ∧ d.refs ≠ [])
  rw [← IMessage.firstNew] at hN
  rw [← IMessage.firstUpdate] at hU
  have hnodup : ∀ l, (l = [] ∨ ∃ d ∈ m.deliveries events, l = d.refs) → l.Nodup := by
    rintro l (rfl | ⟨d, hd, rfl⟩)
    · exact List.nodup_nil
    · exact h.distinct d hd
  constructor
  · intro honce
    have hshare : ∀ g, g ∈ refsOf (m.firstNew events) → g ∈ refsOf (m.firstUpdate events) → False := by
      intro g hgN hgU
      rcases hN with hN | ⟨d, hd, hN⟩
      · rw [hN] at hgN; cases hgN
      · have hg := honce d hd g (Delivery.mem_refs.1 (hN ▸ hgN)).1
        rw [List.count_append] at hg
        have h1 := List.count_pos_iff.2 hgN
        have h2 := List.count_pos_iff.2 hgU
        omega
    have hempty : refsOf (m.firstNew events) = [] ∨ refsOf (m.firstUpdate events) = [] := by
      by_contra hno
      obtain ⟨hno, hno'⟩ := not_or.1 hno
      obtain ⟨d, hd, hN⟩ := hN.resolve_left hno
      obtain ⟨d', hd', hU⟩ := hU.resolve_left hno'
      -- the lists only grow, so the shorter one is part of the other one
      rcases h.grows d hd d' hd' with hsub | hsub
      · obtain ⟨g, hg⟩ := List.exists_mem_of_ne_nil _ hno
        obtain ⟨hgd, hne⟩ := Delivery.mem_refs.1 (hN ▸ hg)
        exact hshare g hg (by rw [hU]; exact Delivery.mem_refs.2 ⟨hsub hgd, hne⟩)
      · obtain ⟨g, hg⟩ := List.exists_mem_of_ne_nil _ hno'
        obtain ⟨hgd, hne⟩ := Delivery.mem_refs.1 (hU ▸ hg)
        exact hshare g (by rw [hN]; exact Delivery.mem_refs.2 ⟨hsub hgd, hne⟩) hg
    rcases hempty with hempty | hempty
    · refine Or.inr ⟨hempty, fun d hd g hg => ?_⟩
      have := honce d hd g hg
      rw [hempty, List.nil_append] at this
      exact List.count_pos_iff.1 (by omega)
    · refine Or.inl ⟨hempty, fun d hd g hg => ?_⟩
      have := honce d hd g hg
      rw [hempty, List.append_nil] at this
      exact List.count_pos_iff.1 (by omega)
  · rintro (⟨hempty, hall⟩ | ⟨hempty, hall⟩) d hd g hg
    · rw [hempty, List.append_nil]
      exact List.count_eq_one_of_mem (hnodup _ hN) (hall d hd hg)
    · rw [hempty, List.nil_append]
      exact List.count_eq_one_of_mem (hnodup _ hU) (hall d hd hg)

/-- the text comes with the first accepted `new-message` or row -/
theorem count_text {m : IMessage} {events : List Event} (h : Traffic m events) (htext : m.text.getD [] ≠ []) :
    ((m.dispatched (dispatch events)).map InboundMessage.text).count (m.text.getD []) =
      if (m.firstNew events).isSome then 1 else 0 := by
  have hnew : ((m.firstNew events).toList.map m.inbound).map InboundMessage.text =
      (m.firstNew events).toList.map fun _ => m.text.getD [] := by
    cases hf : m.firstNew events with
    | none => rfl
    | some d =>
      have hp := List.find?_some hf
      rw [Bool.and_eq_true, decide_eq_true_eq] at hp
      have htype : d.type ≠ updatedMessage := by rw [hp.2]; exact newMessage_ne
      exact congrArg (fun x => [x]) (if_neg htype)
  have hupdate : ((m.firstUpdate events).toList.map m.inbound).map InboundMessage.text =
      (m.firstUpdate events).toList.map fun _ => [] := by
    cases hf : m.firstUpdate events with
    | none => rfl
    | some d =>
      have hp := List.find?_some hf
      rw [Bool.and_eq_true, decide_eq_true_eq] at hp
      exact congrArg (fun x => [x]) (if_pos hp.2.1)
  rw [dispatched_eq h, List.map_append, List.map_append, List.count_append, hnew, hupdate]
  have hzero : (((m.firstUpdate events).toList.map fun _ => ([] : Str))).count (m.text.getD []) = 0 := by
    rw [List.count_eq_zero]
    intro hmem
    obtain ⟨d, -, hd⟩ := List.mem_map.1 hmem
    exact htext hd.symm
  rw [hzero]
  cases m.firstNew events <;> simp

/-- **An iMessage is dispatched once exactly when one id carries it.** For every message and every run of webhooks and
sweeps: the text goes out once, and so does every attachment that a delivery carried, if and only if a `new-message` or a
row comes through for the text, and one of the two ids carries no attachment while the first delivery of the other one
carries all of them. -/
theorem dispatched_once_iff (m : IMessage) (events : List Event) (h : Traffic m events) :
    DispatchedOnce m events ↔ OneCarrier m events := by
  have hrefs := dispatched_refs h
  have htext : (m.text.getD [] ≠ [] →
      ((m.dispatched (dispatch events)).map InboundMessage.text).count (m.text.getD []) = 1) ↔
      (m.text.getD [] ≠ [] → (m.firstNew events).isSome) := by
    refine imp_congr_right fun hne => ?_
    rw [count_text h hne]
    cases (m.firstNew events).isSome <;> simp
  constructor
  · intro ho
    refine ⟨htext.1 ho.text, (each_once_iff h).1 ?_⟩
    rw [← hrefs]
    exact ho.attachments
  · rintro ⟨ht, hc⟩
    refine ⟨htext.2 ht, ?_⟩
    rw [hrefs]
    exact (each_once_iff h).2 hc

def siteMessage : IMessage :=
  ⟨"A1".toList, some "done".toList, "+1".toList, by decide, by decide⟩

def sitePhoto : BBAttachment := ⟨"P".toList, "image/jpeg".toList⟩

def secondPhoto : BBAttachment := ⟨"Q".toList, "image/jpeg".toList⟩

/-- a webhook about the message -/
def hook (type : Str) (attachments : List BBAttachment) : Event :=
  .webhook true ⟨type, some (siteMessage.data attachments)⟩

/-- the text first, then the photo, then a read receipt and a sweep -/
def lateAttachment : List Event :=
  [hook newMessage [], hook updatedMessage [sitePhoto], hook updatedMessage [sitePhoto],
    .sweep [(true, siteMessage.data [sitePhoto])]]

theorem traffic_lateAttachment : Traffic siteMessage lateAttachment :=
  ⟨by decide, by decide, by decide, by decide, by decide, by decide⟩

theorem dispatched_once_iff_lateAttachment :
    Traffic siteMessage lateAttachment ∧ DispatchedOnce siteMessage lateAttachment := by
  refine ⟨traffic_lateAttachment, (dispatched_once_iff siteMessage lateAttachment traffic_lateAttachment).2 ?_⟩
  refine ⟨by decide, Or.inr ⟨by decide, by decide⟩⟩

/-- the photo comes with the text, and a read receipt brings it again -/
def readReceipt : List Event := [hook newMessage [sitePhoto], hook updatedMessage [sitePhoto]]

/-- the photos are joined one after the other -/
def oneByOne : List Event :=
  [hook newMessage [], hook updatedMessage [sitePhoto], hook updatedMessage [sitePhoto, secondPhoto],
    .sweep [(true, siteMessage.data [sitePhoto, secondPhoto])]]

/-- the attachments of the message that are dispatched, in order -/
def dispatchedGuids (events : List Event) : List Str :=
  (siteMessage.dispatched (dispatch events)).flatMap fun i => i.mediaRefs.map Prod.fst

theorem twice_or_never :
    (Traffic siteMessage readReceipt ∧ ¬ DispatchedOnce siteMessage readReceipt ∧
      dispatchedGuids readReceipt = [sitePhoto.guid, sitePhoto.guid]) ∧
      Traffic siteMessage oneByOne ∧ ¬ DispatchedOnce siteMessage oneByOne ∧
      dispatchedGuids oneByOne = [sitePhoto.guid] := by
  have htwice : dispatchedGuids readReceipt = [sitePhoto.guid, sitePhoto.guid] := by decide
  have honly : dispatchedGuids oneByOne = [sitePhoto.guid] := by decide
  refine ⟨⟨⟨by decide, by decide, by decide, by decide, by decide, by decide⟩, ?_, htwice⟩,
    ⟨by decide, by decide, by decide, by decide, by decide, by decide⟩, ?_, honly⟩
  · intro h
    have hcount := h.attachments ⟨true, newMessage, siteMessage.data [sitePhoto]⟩ (by decide) sitePhoto.guid (by decide)
    change (dispatchedGuids readReceipt).count sitePhoto.guid = 1 at hcount
    rw [htwice] at hcount
    exact absurd hcount (by decide)
  · intro h
    have hcount := h.attachments ⟨true, updatedMessage, siteMessage.data [sitePhoto, secondPhoto]⟩ (by decide)
      secondPhoto.guid (by decide)
    change (dispatchedGuids oneByOne).count secondPhoto.guid = 1 at hcount
    rw [honly] at hcount
    exact absurd hcount (by decide)

end Clawbolt.Inbound

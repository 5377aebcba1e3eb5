/-
Deduplication of inbound webhooks: `handle_webhook_inbound` of channels/base.py over the `IdempotencyStore` of
agent/stores.py, with the deliveries interleaved at their awaits.

A delivery asks `is_allowed`, inserts its key, commits it, counts the keys, deletes the old ones, commits that, and
publishes. `abort` is whatever ends it in between: an exception, a cancellation, a crash of its process. An INSERT whose
key is in a row that is not committed yet waits for that row's transaction; one that finds a committed row fails, and has
used up an id. `recorded` and `rejected` are history: the keys ever committed and the ids turned away.

- `inv_run`: in every run a recorded key is in the table as long as fewer than `_SEEN_MAX` newer ones were recorded;
- `at_most_once`: until then its id is published once at most;
- `rejected_only_if_published`: no id is rejected that is not published, in every run where no delivery ends between the
  commit of its key and its publication. `swallowed` is a run where one does.
-/
import Mathlib.Tactic
import Clawbolt.Core.Newest
import Clawbolt.Core.Runs
import Clawbolt.Core.Text

namespace Clawbolt.Inbound

open Text (Str)
open Newest Runs

/-- `InboundMessage` of agent/ingestion.py -/
structure InboundMessage where
  channel : Str
  senderId : Str
  text : Str
  mediaRefs : List (Str × Str) := []
  externalMessageId : Str := []
  senderUsername : Option Str := none
deriving DecidableEq

/-! ## The table -/

/-- what a row of `IdempotencyKey` says -/
structure Key where
  id : ℕ
  externalId : Str
deriving DecidableEq

structure KeyRow extends Key where
  committed : Bool
deriving DecidableEq

/-- `_SEEN_MAX` -/
def seenMax : ℕ := 10000

/-- the table: ids are handed out in order, and the index on `external_id` holds the rows of open transactions too -/
structure KeyTable where
  rows : List KeyRow
  nextId : ℕ
  below : ∀ r ∈ rows, r.id < nextId
  ids : (rows.map fun r => r.id).Nodup
  unique : (rows.map fun r => r.externalId).Nodup

namespace KeyTable

def empty : KeyTable := ⟨[], 0, by simp, by simp, by simp⟩

/-- the committed keys -/
def seen (T : KeyTable) : List Key := (T.rows.filter fun r => r.committed).map fun r => r.toKey

def insert (T : KeyTable) (x : Str) (h : x ∉ T.rows.map fun r => r.externalId) : KeyTable where
  rows := T.rows ++ [⟨⟨T.nextId, x⟩, false⟩]
  nextId := T.nextId + 1
  below := by
    intro r hr
    rcases List.mem_append.1 hr with hr | hr
    · exact Nat.lt_succ_of_lt (T.below r hr)
    · rw [List.mem_singleton.1 hr]; exact Nat.lt_succ_self _
  ids := by
    rw [List.map_append, List.nodup_append]
    refine ⟨T.ids, by simp, ?_⟩
    intro i hi j hj hij
    obtain ⟨r, hr, rfl⟩ := List.mem_map.1 hi
    have hj' : j = T.nextId := by simpa using hj
    have := T.below r hr
    omega
  unique := by
    rw [List.map_append, List.nodup_append]
    refine ⟨T.unique, by simp, ?_⟩
    intro y hy z hz hyz
    have hz' : z = x := by simpa using hz
    exact h ((hyz.trans hz') ▸ hy)

/-- an INSERT that fails has taken an id -/
def burn (T : KeyTable) : KeyTable := { T with nextId := T.nextId + 1, below := fun r hr => Nat.lt_succ_of_lt (T.below r hr) }

def commit (T : KeyTable) (i : ℕ) : KeyTable where
  rows := T.rows.map fun r => if r.id = i then { r with committed := true } else r
  nextId := T.nextId
  below := by
    intro r hr
    obtain ⟨q, hq, rfl⟩ := List.mem_map.1 hr
    split <;> exact T.below q hq
  ids := by
    rw [List.map_map]
    refine Eq.subst (motive := List.Nodup) (List.map_congr_left fun r _ => ?_) T.ids
    simp only [Function.comp_apply]
    split <;> rfl
  unique := by
    rw [List.map_map]
    refine Eq.subst (motive := List.Nodup) (List.map_congr_left fun r _ => ?_) T.unique
    simp only [Function.comp_apply]
    split <;> rfl

/-- a rollback, and the DELETE when it commits -/
def remove (T : KeyTable) (ids : List ℕ) : KeyTable where
  rows := T.rows.filter fun r => r.id ∉ ids
  nextId := T.nextId
  below := fun r hr => T.below r (List.mem_of_mem_filter hr)
  ids := T.ids.sublist (List.filter_sublist.map _)
  unique := T.unique.sublist (List.filter_sublist.map _)

/-- `_prune_delete`: the committed rows that are not among the newest `_SEEN_MAX` -/
def doomed (T : KeyTable) : List ℕ :=
  (T.seen.map Key.id).filter fun i => i ∉ newest seenMax (T.seen.map Key.id)

theorem mem_seen {T : KeyTable} {k : Key} : k ∈ T.seen ↔ ⟨k, true⟩ ∈ T.rows := by
  simp only [seen, List.mem_map, List.mem_filter]
  constructor
  · rintro ⟨⟨k', c⟩, ⟨hr, hc⟩, rfl⟩
    rcases c with _ | _
    · exact absurd hc Bool.false_ne_true
    · exact hr
  · intro h
    exact ⟨_, ⟨h, rfl⟩, rfl⟩

theorem seen_ids_nodup (T : KeyTable) : (T.seen.map Key.id).Nodup := by
  rw [seen, List.map_map]
  exact T.ids.sublist (List.filter_sublist.map _)

theorem eq_of_id {T : KeyTable} {r r' : KeyRow} (h : r ∈ T.rows) (h' : r' ∈ T.rows) (hid : r.id = r'.id) : r = r' :=
  List.inj_on_of_nodup_map T.ids h h' hid

theorem eq_of_externalId {T : KeyTable} {r r' : KeyRow} (h : r ∈ T.rows) (h' : r' ∈ T.rows)
    (hx : r.externalId = r'.externalId) : r = r' :=
  List.inj_on_of_nodup_map T.unique h h' hx

theorem mem_insert {T : KeyTable} {x : Str} {h : x ∉ T.rows.map fun r => r.externalId} {r : KeyRow} :
    r ∈ (T.insert x h).rows ↔ r ∈ T.rows ∨ r = ⟨⟨T.nextId, x⟩, false⟩ := by
  simp [insert]

theorem mem_remove {T : KeyTable} {ids : List ℕ} {r : KeyRow} : r ∈ (T.remove ids).rows ↔ r ∈ T.rows ∧ r.id ∉ ids := by
  simp [remove]

/-- a commit changes the row of its id only -/
theorem mem_commit {T : KeyTable} {i : ℕ} {r : KeyRow} :
    r ∈ (T.commit i).rows ↔ (r ∈ T.rows ∧ r.id ≠ i) ∨ (r.id = i ∧ r.committed = true ∧ ∃ c, ⟨r.toKey, c⟩ ∈ T.rows) := by
  simp only [commit, List.mem_map]
  constructor
  · rintro ⟨q, hq, rfl⟩
    split_ifs with hi
    · exact Or.inr ⟨hi, rfl, q.committed, hq⟩
    · exact Or.inl ⟨hq, hi⟩
  · rintro (⟨hr, hi⟩ | ⟨hi, hc, c, hr⟩)
    · exact ⟨r, hr, if_neg hi⟩
    · refine ⟨⟨r.toKey, c⟩, hr, ?_⟩
      rw [if_pos hi, ← hc]

end KeyTable

/-- the keys of a list with a larger id -/
def newer (l : List Key) (i : ℕ) : ℕ := l.countP fun k => decide (i < k.id)

theorem newer_append_le (l l' : List Key) (i : ℕ) : newer l i ≤ newer (l ++ l') i := by
  simp [newer, List.countP_append]

/-- what a DELETE picks has as many newer rows as the table may keep -/
theorem le_newer_of_doomed {T : KeyTable} {l : List Key} (h : ∀ k ∈ T.seen, k ∈ l) {i : ℕ} (hi : i ∈ T.doomed) :
    seenMax ≤ newer l i := by
  obtain ⟨hin, hout⟩ := List.mem_filter.1 hi
  calc seenMax ≤ (T.seen.map Key.id).countP fun j => decide (i < j) :=
        le_countP_of_not_mem_newest T.seen_ids_nodup hin (by simpa using hout)
    _ = T.seen.countP fun k => decide (i < k.id) := by rw [List.countP_map]; rfl
    _ ≤ l.countP fun k => decide (i < k.id) := by
        refine List.Subperm.countP_le _ (List.Nodup.subperm ?_ h)
        exact List.Nodup.of_map _ T.seen_ids_nodup

/-! ## Deliveries -/

/-- where a delivery is: what it awaits next -/
inductive Phase where
  | idle
  | checking (m : InboundMessage)
  | marking (m : InboundMessage)
  | inserted (m : InboundMessage) (row : ℕ)
  | counting (m : InboundMessage) (row : ℕ)
  | deleting (m : InboundMessage) (row : ℕ)
  | deleted (m : InboundMessage) (row : ℕ) (ids : List ℕ)
  | publishing (m : InboundMessage) (row : Option ℕ)
  | published (m : InboundMessage) (row : Option ℕ)
  | ended
deriving DecidableEq

namespace Phase

/-- the row that the delivery inserted -/
def row : Phase → Option ℕ
  | inserted _ i | counting _ i | deleting _ i | deleted _ i _ => some i
  | publishing _ r | published _ r => r
  | _ => none

/-- the key is committed, the message not published -/
def guarded : Phase → Option InboundMessage
  | counting m _ | deleting m _ | deleted m _ _ | publishing m (some _) => some m
  | _ => none

/-- the key that the delivery has committed -/
def key : Phase → Option Key
  | counting m i | deleting m i | deleted m i _ | publishing m (some i) | published m (some i) =>
    some ⟨i, m.externalMessageId⟩
  | _ => none

end Phase

structure Sys where
  table : KeyTable
  phase : ℕ → Phase
  published : List (ℕ × InboundMessage)
  rejected : List Str
  recorded : List Key

namespace Sys

def init : Sys := ⟨KeyTable.empty, fun _ => .idle, [], [], []⟩

def put (s : Sys) (t : ℕ) (p : Phase) : Sys := { s with phase := Function.update s.phase t p }

end Sys

inductive Op where
  | arrive (t : ℕ) (m : InboundMessage)
  | allow (t : ℕ) (answer : Bool)
  | insert (t : ℕ)
  | commit (t : ℕ)
  | count (t : ℕ)
  | delete (t : ℕ)
  | commitDelete (t : ℕ)
  | pruneFails (t : ℕ)
  | publish (t : ℕ)
  | abort (t : ℕ)
deriving DecidableEq

def step (s : Sys) : Op → Sys
  | .arrive t m =>
    match s.phase t with
    | .idle => s.put t (.checking m)
    | _ => s
  | .allow t answer =>
    match s.phase t with
    | .checking m =>
      if answer = false then s.put t .ended
      else if m.externalMessageId = [] then s.put t (.publishing m none)
      else s.put t (.marking m)
    | _ => s
  | .insert t =>
    match s.phase t with
    | .marking m =>
      if h : m.externalMessageId ∈ s.table.rows.map fun r => r.externalId then
        -- `IntegrityError` once the other row is committed; until then the INSERT waits
        if m.externalMessageId ∈ s.table.seen.map Key.externalId then
          { s.put t .ended with table := s.table.burn, rejected := s.rejected ++ [m.externalMessageId] }
        else s
      else { s.put t (.inserted m s.table.nextId) with table := s.table.insert m.externalMessageId h }
    | _ => s
  | .commit t =>
    match s.phase t with
    | .inserted m i =>
      { s.put t (.counting m i) with
        table := s.table.commit i, recorded := s.recorded ++ [⟨i, m.externalMessageId⟩] }
    | _ => s
  | .count t =>
    match s.phase t with
    | .counting m i => s.put t (if s.table.seen.length ≤ seenMax then .publishing m (some i) else .deleting m i)
    | _ => s
  | .delete t =>
    match s.phase t with
    | .deleting m i => s.put t (.deleted m i s.table.doomed)
    | _ => s
  | .commitDelete t =>
    match s.phase t with
    | .deleted m i ids => { s.put t (.publishing m (some i)) with table := s.table.remove ids }
    | _ => s
  | .pruneFails t =>
    match s.phase t with
    | .counting m i | .deleting m i | .deleted m i _ => s.put t (.publishing m (some i))
    | _ => s
  | .publish t =>
    match s.phase t with
    | .publishing m r => { s.put t (.published m r) with published := s.published ++ [(t, m)] }
    | _ => s
  | .abort t =>
    match s.phase t with
    | .idle | .published .. | .ended => s
    | .inserted _ i => { s.put t .ended with table := s.table.remove [i] }
    | _ => s.put t .ended

/-! ## What a step can do -/

@[simp] theorem table_put (s : Sys) (t : ℕ) (p : Phase) : (s.put t p).table = s.table := rfl

@[simp] theorem published_put (s : Sys) (t : ℕ) (p : Phase) : (s.put t p).published = s.published := rfl

@[simp] theorem rejected_put (s : Sys) (t : ℕ) (p : Phase) : (s.put t p).rejected = s.rejected := rfl

@[simp] theorem recorded_put (s : Sys) (t : ℕ) (p : Phase) : (s.put t p).recorded = s.recorded := rfl

theorem phase_put (s : Sys) (t : ℕ) (p : Phase) (j : ℕ) : (s.put t p).phase j = if j = t then p else s.phase j :=
  Function.update_apply _ _ _ _

@[simp] theorem phase_put_self (s : Sys) (t : ℕ) (p : Phase) : (s.put t p).phase t = p := Function.update_self _ _ _

/-- the phases that a delivery passes with the row, the key and the message it has -/
structure Walk (s : Sys) (t : ℕ) (p : Phase) : Prop where
  row : p.row = (s.phase t).row
  key : p.key = (s.phase t).key
  guarded : p.guarded = (s.phase t).guarded
  published : ∀ m r, s.phase t ≠ .published m r
  inserted : ∀ m i, p ≠ .inserted m i
  doomed : ∀ m i ids, p = .deleted m i ids → ids = s.table.doomed
  numbered : ∀ m, p = .publishing m none ∨ p = .published m none → m.externalMessageId = []

/-- the steps that change anything -/
inductive Move (s : Sys) : Op → Sys → Prop where
  | walk {o t p} (h : Walk s t p) : Move s o (s.put t p)
  | leave {t} (hrow : ∀ m i, s.phase t ≠ .inserted m i) (hpub : ∀ m r, s.phase t ≠ .published m r) :
      Move s (.abort t) (s.put t .ended)
  | rollback {t m i} (h : s.phase t = .inserted m i) :
      Move s (.abort t) { s.put t .ended with table := s.table.remove [i] }
  | duplicate {t m} (h : s.phase t = .marking m) (hx : m.externalMessageId ∈ s.table.seen.map Key.externalId) :
      Move s (.insert t)
        { s.put t .ended with table := s.table.burn, rejected := s.rejected ++ [m.externalMessageId] }
  | insert {t m} (h : s.phase t = .marking m) (hx : m.externalMessageId ∉ s.table.rows.map fun r => r.externalId) :
      Move s (.insert t)
        { s.put t (.inserted m s.table.nextId) with table := s.table.insert m.externalMessageId hx }
  | commit {t m i} (h : s.phase t = .inserted m i) :
      Move s (.commit t) { s.put t (.counting m i) with
        table := s.table.commit i, recorded := s.recorded ++ [⟨i, m.externalMessageId⟩] }
  | prune {t m i ids} (h : s.phase t = .deleted m i ids) :
      Move s (.commitDelete t) { s.put t (.publishing m (some i)) with table := s.table.remove ids }
  | publish {t m r} (h : s.phase t = .publishing m r) :
      Move s (.publish t) { s.put t (.published m r) with published := s.published ++ [(t, m)] }

/-- a phase that stays on its way with what it has -/
theorem walk_of {s : Sys} {t : ℕ} {q p : Phase} (h : s.phase t = q) (row : p.row = q.row) (key : p.key = q.key)
    (guarded : p.guarded = q.guarded) (published : ∀ m r, q ≠ .published m r) (inserted : ∀ m i, p ≠ .inserted m i)
    (doomed : ∀ m i ids, p = .deleted m i ids → ids = s.table.doomed)
    (numbered : ∀ m, p = .publishing m none ∨ p = .published m none → m.externalMessageId = []) : Walk s t p := by
  subst h
  exact ⟨row, key, guarded, published, inserted, doomed, numbered⟩

theorem step_move (s : Sys) (o : Op) : step s o = s ∨ Move s o (step s o) := by
  cases o with
  | arrive t m =>
    simp only [step]
    split
    · next h => exact Or.inr (.walk (walk_of h rfl rfl rfl nofun nofun nofun nofun))
    · exact Or.inl rfl
  | allow t answer =>
    simp only [step]
    split
    · next m h =>
      split_ifs with ha hx
      · exact Or.inr (.walk (walk_of h rfl rfl rfl nofun nofun nofun nofun))
      · refine Or.inr (.walk (walk_of h rfl rfl rfl nofun nofun nofun ?_))
        rintro m' (hm | hm) <;> cases hm
        exact hx
      · exact Or.inr (.walk (walk_of h rfl rfl rfl nofun nofun nofun nofun))
    · exact Or.inl rfl
  | insert t =>
    simp only [step]
    split
    · next m h =>
      split_ifs with hx hs
      · exact Or.inr (.duplicate h hs)
      · exact Or.inl rfl
      · exact Or.inr (.insert h hx)
    · exact Or.inl rfl
  | commit t =>
    simp only [step]
    split
    · next m i h => exact Or.inr (.commit h)
    · exact Or.inl rfl
  | count t =>
    simp only [step]
    split
    · next m i h =>
      split_ifs
      · exact Or.inr (.walk (walk_of h rfl rfl rfl nofun nofun nofun nofun))
      · exact Or.inr (.walk (walk_of h rfl rfl rfl nofun nofun nofun nofun))
    · exact Or.inl rfl
  | delete t =>
    simp only [step]
    split
    · next m i h =>
      refine Or.inr (.walk (walk_of h rfl rfl rfl nofun nofun ?_ nofun))
      intro m' i' ids hp
      cases hp
      rfl
    · exact Or.inl rfl
  | commitDelete t =>
    simp only [step]
    split
    · next m i ids h => exact Or.inr (.prune h)
    · exact Or.inl rfl
  | pruneFails t =>
    simp only [step]
    split
    · next m i h => exact Or.inr (.walk (walk_of h rfl rfl rfl nofun nofun nofun nofun))
    · next m i h => exact Or.inr (.walk (walk_of h rfl rfl rfl nofun nofun nofun nofun))
    · next m i ids h => exact Or.inr (.walk (walk_of h rfl rfl rfl nofun nofun nofun nofun))
    · exact Or.inl rfl
  | publish t =>
    simp only [step]
    split
    · next m r h => exact Or.inr (.publish h)
    · exact Or.inl rfl
  | abort t =>
    simp only [step]
    split
    · exact Or.inl rfl
    · exact Or.inl rfl
    · exact Or.inl rfl
    · next m i h => exact Or.inr (.rollback h)
    · next hpub _ hrow => exact Or.inr (.leave hrow hpub)

/-! ## The keys in the table -/

structure Inv (s : Sys) : Prop where
  /-- a key leaves the table only for newer ones -/
  kept : ∀ k ∈ s.recorded, k ∈ s.table.seen ∨ seenMax ≤ newer s.recorded k.id
  seen : ∀ k ∈ s.table.seen, k ∈ s.recorded
  twins : ∀ k ∈ s.recorded, ∀ k' ∈ s.recorded, k.externalId = k'.externalId → k ≠ k' →
    seenMax ≤ newer s.recorded k.id ∨ seenMax ≤ newer s.recorded k'.id
  recorded_lt : ∀ k ∈ s.recorded, k.id < s.table.nextId
  doomed : ∀ t m i ids, s.phase t = .deleted m i ids → ∀ j ∈ ids,
    j ∈ s.recorded.map Key.id ∧ seenMax ≤ newer s.recorded j
  held : ∀ t m i, s.phase t = .inserted m i → ⟨⟨i, m.externalMessageId⟩, false⟩ ∈ s.table.rows
  fresh : ∀ t m i, s.phase t = .inserted m i → i ∉ s.recorded.map Key.id
  key : ∀ t k, (s.phase t).key = some k → k ∈ s.recorded
  owner : ∀ t t' i, (s.phase t).row = some i → (s.phase t').row = some i → t = t'
  row_lt : ∀ t i, (s.phase t).row = some i → i < s.table.nextId
  numbered : ∀ t m, s.phase t = .publishing m none ∨ s.phase t = .published m none → m.externalMessageId = []
  listed : ∀ e ∈ s.published, ∃ r, s.phase e.1 = .published e.2 r
  nodup : (s.published.map Prod.fst).Nodup

theorem inv_init : Inv Sys.init where
  kept := nofun
  seen := nofun
  twins := nofun
  recorded_lt := nofun
  doomed := nofun
  held := nofun
  fresh := nofun
  key := nofun
  owner := nofun
  row_lt := nofun
  numbered := by rintro t m (h | h) <;> cases h
  listed := nofun
  nodup := List.nodup_nil

namespace Inv

variable {s : Sys} (h : Inv s)
include h

/-- a delivery moves on, and has no row or key that it did not have -/
theorem put {t : ℕ} {p : Phase} (hrow : ∀ i, p.row = some i → (s.phase t).row = some i)
    (hkey : ∀ k, p.key = some k → (s.phase t).key = some k) (hpub : ∀ m r, s.phase t = .published m r → p = .published m r)
    (hin : ∀ m i, p ≠ .inserted m i)
    (hdoomed : ∀ m i ids, p = .deleted m i ids → ids = s.table.doomed)
    (hnum : ∀ m, p = .publishing m none ∨ p = .published m none → m.externalMessageId = []) : Inv (s.put t p) := by
  have hrow' : ∀ j i, ((s.put t p).phase j).row = some i → (s.phase j).row = some i := by
    intro j i hj
    rw [phase_put] at hj
    split_ifs at hj with hjt
    · rw [hjt]; exact hrow i hj
    · exact hj
  refine { h with doomed := ?_, held := ?_, fresh := ?_, key := ?_, owner := ?_, row_lt := ?_, numbered := ?_, listed := ?_ }
  · intro j m i ids hj
    rw [phase_put] at hj
    split_ifs at hj with hjt
    · rw [hdoomed m i ids hj]
      intro a ha
      obtain ⟨k, hk, rfl⟩ := List.mem_map.1 (List.mem_filter.1 ha).1
      exact ⟨List.mem_map_of_mem (h.seen k hk), le_newer_of_doomed h.seen ha⟩
    · exact h.doomed j m i ids hj
  · intro j m i hj
    rw [phase_put] at hj
    split_ifs at hj with hjt
    · exact absurd hj (hin m i)
    · exact h.held j m i hj
  · intro j m i hj
    rw [phase_put] at hj
    split_ifs at hj with hjt
    · exact absurd hj (hin m i)
    · exact h.fresh j m i hj
  · intro j k hj
    rw [phase_put] at hj
    split_ifs at hj with hjt
    · exact h.key t k (hkey k hj)
    · exact h.key j k hj
  · intro j j' i hj hj'
    exact h.owner j j' i (hrow' j i hj) (hrow' j' i hj')
  · intro j i hj
    exact h.row_lt j i (hrow' j i hj)
  · intro j m hj
    rw [phase_put] at hj
    split_ifs at hj with hjt
    · exact hnum m hj
    · exact h.numbered j m hj
  · intro e he
    obtain ⟨r, hr⟩ := h.listed e he
    refine ⟨r, ?_⟩
    rw [phase_put]
    split_ifs with het
    · exact hpub _ _ (het ▸ hr)
    · exact hr

/-- rows leave the table: rolled back ones, and committed ones that newer ones replace -/
theorem remove {ids : List ℕ} (hids : ∀ j ∈ ids, j ∈ s.recorded.map Key.id → seenMax ≤ newer s.recorded j)
    (hheld : ∀ t m i, s.phase t = .inserted m i → i ∉ ids) : Inv { s with table := s.table.remove ids } := by
  refine { h with kept := ?_, seen := ?_, held := ?_ }
  · intro k hk
    rcases h.kept k hk with hs | hold
    · by_cases hin : k.id ∈ ids
      · exact Or.inr (hids k.id hin (List.mem_map_of_mem hk))
      · exact Or.inl (KeyTable.mem_seen.2 (KeyTable.mem_remove.2 ⟨KeyTable.mem_seen.1 hs, hin⟩))
    · exact Or.inr hold
  · intro k hk
    exact h.seen k (KeyTable.mem_seen.2 (KeyTable.mem_remove.1 (KeyTable.mem_seen.1 hk)).1)
  · intro t m i ht
    exact KeyTable.mem_remove.2 ⟨h.held t m i ht, hheld t m i ht⟩

/-- an id is used up -/
theorem burn : Inv { s with table := s.table.burn } :=
  { h with
    recorded_lt := fun k hk => Nat.lt_succ_of_lt (h.recorded_lt k hk)
    row_lt := fun t i ht => Nat.lt_succ_of_lt (h.row_lt t i ht) }

theorem insert {t : ℕ} {m : InboundMessage} (ht : s.phase t = .marking m)
    (hx : m.externalMessageId ∉ s.table.rows.map fun r => r.externalId) :
    Inv { s.put t (.inserted m s.table.nextId) with table := s.table.insert m.externalMessageId hx } := by
  have hnew : ∀ j i, ((s.put t (.inserted m s.table.nextId)).phase j).row = some i →
      (j = t ∧ i = s.table.nextId) ∨ (s.phase j).row = some i := by
    intro j i hj
    rw [phase_put] at hj
    split_ifs at hj with hjt
    · exact Or.inl ⟨hjt, (Option.some.inj hj).symm⟩
    · exact Or.inr hj
  refine
    { h with
      kept := ?_, seen := ?_, recorded_lt := ?_, doomed := ?_, held := ?_, fresh := ?_, key := ?_, owner := ?_,
      row_lt := ?_, numbered := ?_, listed := ?_ }
  · intro k hk
    refine (h.kept k hk).imp (fun hs => ?_) id
    exact KeyTable.mem_seen.2 ((KeyTable.mem_insert (h := hx)).2 (Or.inl (KeyTable.mem_seen.1 hs)))
  · intro k hk
    rcases (KeyTable.mem_insert (h := hx)).1 (KeyTable.mem_seen.1 hk) with hr | hr
    · exact h.seen k (KeyTable.mem_seen.2 hr)
    · cases hr
  · intro k hk
    exact Nat.lt_succ_of_lt (h.recorded_lt k hk)
  · intro j m' i ids hj
    rw [phase_put] at hj
    split_ifs at hj
    exact h.doomed j m' i ids hj
  · intro j m' i hj
    rw [phase_put] at hj
    split_ifs at hj with hjt
    · cases hj
      exact (KeyTable.mem_insert (h := hx)).2 (Or.inr rfl)
    · exact (KeyTable.mem_insert (h := hx)).2 (Or.inl (h.held j m' i hj))
  · intro j m' i hj hin
    rw [phase_put] at hj
    split_ifs at hj with hjt
    · cases hj
      obtain ⟨k, hk, hid⟩ := List.mem_map.1 hin
      have hlt := h.recorded_lt k hk
      omega
    · exact h.fresh j m' i hj hin
  · intro j k hj
    rw [phase_put] at hj
    split_ifs at hj
    · cases hj
    · exact h.key j k hj
  · intro j j' i hj hj'
    rcases hnew j i hj with ⟨hjt, hi⟩ | hold
    · rcases hnew j' i hj' with ⟨hjt', -⟩ | hold'
      · rw [hjt, hjt']
      · exact absurd (h.row_lt j' i hold') (by omega)
    · rcases hnew j' i hj' with ⟨-, hi⟩ | hold'
      · exact absurd (h.row_lt j i hold) (by omega)
      · exact h.owner j j' i hold hold'
  · intro j i hj
    rcases hnew j i hj with ⟨-, rfl⟩ | hj
    · exact Nat.lt_succ_self _
    · exact Nat.lt_succ_of_lt (h.row_lt j i hj)
  · intro j m' hj
    rw [phase_put] at hj
    split_ifs at hj
    · rcases hj with hj | hj <;> cases hj
    · exact h.numbered j m' hj
  · intro e he
    obtain ⟨r, hr⟩ := h.listed e he
    refine ⟨r, ?_⟩
    rw [phase_put, if_neg]
    · exact hr
    · intro het
      rw [het, ht] at hr
      cases hr

/-- **The key is committed.** An older key with its id is not in the table any more. -/
theorem commit {t : ℕ} {m : InboundMessage} {i : ℕ} (ht : s.phase t = .inserted m i) :
    Inv { s.put t (.counting m i) with
      table := s.table.commit i, recorded := s.recorded ++ [⟨i, m.externalMessageId⟩] } := by
  have hheld := h.held t m i ht
  have hmono : ∀ j, newer s.recorded j ≤ newer (s.recorded ++ [⟨i, m.externalMessageId⟩]) j := newer_append_le _ _
  have hrow' : ∀ j a, ((s.put t (.counting m i)).phase j).row = some a → (s.phase j).row = some a := by
    intro j a hj
    rw [phase_put] at hj
    split_ifs at hj with hjt
    · rw [hjt, ht]; exact hj
    · exact hj
  have hold : ∀ k ∈ s.recorded, k.externalId = m.externalMessageId → seenMax ≤ newer s.recorded k.id := by
    intro k hk hx
    refine (h.kept k hk).resolve_left ?_
    intro hs
    cases KeyTable.eq_of_externalId (KeyTable.mem_seen.1 hs) hheld hx
  constructor
  case kept =>
    intro k hk
    rcases List.mem_append.1 hk with hk | hk
    · refine (h.kept k hk).imp (fun hs => ?_) (fun hn => hn.trans (hmono _))
      have hr := KeyTable.mem_seen.1 hs
      refine KeyTable.mem_seen.2 (KeyTable.mem_commit.2 ?_)
      by_cases hi : k.id = i
      · exact Or.inr ⟨hi, rfl, true, hr⟩
      · exact Or.inl ⟨hr, hi⟩
    · rw [List.mem_singleton.1 hk]
      exact Or.inl (KeyTable.mem_seen.2 (KeyTable.mem_commit.2 (Or.inr ⟨rfl, rfl, false, hheld⟩)))
  case seen =>
    intro k hk
    rcases KeyTable.mem_commit.1 (KeyTable.mem_seen.1 hk) with ⟨hr, -⟩ | ⟨hi, -, c, hr⟩
    · exact List.mem_append_left _ (h.seen k (KeyTable.mem_seen.2 hr))
    · have := KeyTable.eq_of_id hr hheld hi
      cases this
      exact List.mem_append_right _ (List.mem_singleton_self _)
  case twins =>
    intro k hk k' hk' hx hne
    rcases List.mem_append.1 hk with hk | hk
    · rcases List.mem_append.1 hk' with hk' | hk'
      · exact (h.twins k hk k' hk' hx hne).imp (fun hn => hn.trans (hmono _)) fun hn => hn.trans (hmono _)
      · rw [List.mem_singleton.1 hk'] at hx
        exact Or.inl ((hold k hk hx).trans (hmono _))
    · rw [List.mem_singleton.1 hk] at hx hne
      rcases List.mem_append.1 hk' with hk' | hk'
      · exact Or.inr ((hold k' hk' hx.symm).trans (hmono _))
      · exact absurd (List.mem_singleton.1 hk').symm hne
  case recorded_lt =>
    intro k hk
    rcases List.mem_append.1 hk with hk | hk
    · exact h.recorded_lt k hk
    · rw [List.mem_singleton.1 hk]
      exact s.table.below _ hheld
  case doomed =>
    intro j m' a ids hj b hb
    rw [phase_put] at hj
    split_ifs at hj
    obtain ⟨hin, hn⟩ := h.doomed j m' a ids hj b hb
    rw [List.map_append]
    exact ⟨List.mem_append_left _ hin, hn.trans (hmono _)⟩
  case held =>
    intro j m' a hj
    rw [phase_put] at hj
    split_ifs at hj with hjt
    refine KeyTable.mem_commit.2 (Or.inl ⟨h.held j m' a hj, ?_⟩)
    intro hai
    refine hjt (h.owner j t i ?_ (by rw [ht]; rfl))
    rw [hj, ← hai]
    rfl
  case fresh =>
    intro j m' a hj
    rw [phase_put] at hj
    split_ifs at hj with hjt
    rw [List.map_append, List.mem_append]
    rintro (hin | hin)
    · exact h.fresh j m' a hj hin
    · have hai : a = i := by simpa using hin
      refine hjt (h.owner j t i ?_ (by rw [ht]; rfl))
      rw [hj, ← hai]
      rfl
  case key =>
    intro j k hj
    rw [phase_put] at hj
    split_ifs at hj
    · cases hj
      exact List.mem_append_right _ (List.mem_singleton_self _)
    · exact List.mem_append_left _ (h.key j k hj)
  case owner => exact fun j j' a hj hj' => h.owner j j' a (hrow' j a hj) (hrow' j' a hj')
  case row_lt => exact fun j a hj => h.row_lt j a (hrow' j a hj)
  case numbered =>
    intro j m' hj
    rw [phase_put] at hj
    split_ifs at hj
    · rcases hj with hj | hj <;> cases hj
    · exact h.numbered j m' hj
  case listed =>
    intro e he
    obtain ⟨r, hr⟩ := h.listed e he
    refine ⟨r, ?_⟩
    rw [phase_put, if_neg]
    · exact hr
    · intro het
      rw [het, ht] at hr
      cases hr
  case nodup => exact h.nodup

theorem publish {t : ℕ} {m : InboundMessage} {r : Option ℕ} (ht : s.phase t = .publishing m r) :
    Inv { s.put t (.published m r) with published := s.published ++ [(t, m)] } := by
  have hput : Inv (s.put t (.published m r)) := by
    refine h.put ?_ ?_ ?_ nofun nofun ?_
    · intro i hi
      rw [ht]
      exact hi
    · intro k hk
      rw [ht]
      cases r <;> exact hk
    · intro m' r' ht'
      rw [ht] at ht'
      cases ht'
    · rintro m' (hm | hm)
      · cases hm
      · cases hm
        exact h.numbered t m (Or.inl ht)
  refine { hput with listed := ?_, nodup := ?_ }
  · intro e he
    rcases List.mem_append.1 he with he | he
    · exact hput.listed e he
    · rw [List.mem_singleton.1 he]
      exact ⟨r, phase_put_self _ _ _⟩
  · rw [List.map_append, List.nodup_append]
    refine ⟨h.nodup, by simp, ?_⟩
    intro a ha b hb hab
    have hb' : b = t := by simpa using hb
    obtain ⟨e, he, hea⟩ := List.mem_map.1 ha
    obtain ⟨r', hr'⟩ := h.listed e he
    rw [hea, hab, hb', ht] at hr'
    cases hr'

end Inv

theorem Move.inv {s s' : Sys} {o : Op} (hm : Move s o s') (h : Inv s) : Inv s' := by
  cases hm with
  | walk w =>
    refine h.put ?_ ?_ ?_ w.inserted w.doomed w.numbered
    · exact fun i hi => w.row ▸ hi
    · exact fun k hk => w.key ▸ hk
    · exact fun m r hm => absurd hm (w.published m r)
  | leave hrow hpub => exact h.put nofun nofun (fun m r hm => absurd hm (hpub m r)) nofun nofun nofun
  | @rollback t m i ht =>
    have hput : Inv (s.put t .ended) :=
      h.put nofun nofun (fun m r hm => by rw [ht] at hm; cases hm) nofun nofun nofun
    refine hput.remove ?_ ?_
    · intro j hj hin
      rw [List.mem_singleton.1 hj] at hin
      exact absurd hin (h.fresh t m i ht)
    · intro j m' a hj hin
      rw [phase_put] at hj
      split_ifs at hj with hjt
      rw [List.mem_singleton.1 hin] at hj
      exact hjt (h.owner j t i (by rw [hj]; rfl) (by rw [ht]; rfl))
  | @duplicate t m ht hx =>
    have hput : Inv (s.put t .ended) :=
      h.put nofun nofun (fun m r hm => by rw [ht] at hm; cases hm) nofun nofun nofun
    exact { hput.burn with }
  | insert ht hx => exact h.insert ht hx
  | commit ht => exact h.commit ht
  | @prune t m i ids ht =>
    have hput : Inv (s.put t (.publishing m (some i))) := by
      refine h.put ?_ ?_ ?_ nofun nofun nofun
      · exact fun a ha => by rw [ht]; exact ha
      · exact fun k hk => by rw [ht]; exact hk
      · exact fun m r hm => by rw [ht] at hm; cases hm
    refine hput.remove (fun j hj _ => (h.doomed t m i ids ht j hj).2) ?_
    intro j m' a hj hin
    rw [phase_put] at hj
    split_ifs at hj
    exact h.fresh j m' a hj (h.doomed t m i ids ht a hin).1
  | publish ht => exact h.publish ht

theorem step_inv {s : Sys} (o : Op) (h : Inv s) : Inv (step s o) := by
  rcases step_move s o with hs | hs
  · rw [hs]; exact h
  · exact hs.inv h

/-- **The store keeps what it must.** In every run a recorded key is in the table unless `_SEEN_MAX` newer ones were
recorded. -/
theorem inv_run (ops : List Op) : Inv (run step Sys.init ops) := run_inv_all (fun _ o => step_inv o) _ _ inv_init

/-! ## What is published, and what is turned away -/

/-- the deliveries of an id that were published -/
def publishedOf (s : Sys) (x : Str) : List (ℕ × InboundMessage) :=
  s.published.filter fun e => e.2.externalMessageId = x

/-- fewer newer keys than the table may keep were recorded after those of `x` -/
def Retained (s : Sys) (x : Str) : Prop :=
  ∀ k ∈ s.recorded, k.externalId = x → newer s.recorded k.id < seenMax

/-- a delivery of `x` has committed its key, and has not published -/
def OnItsWay (s : Sys) (x : Str) : Prop := ∃ t m, (s.phase t).guarded = some m ∧ m.externalMessageId = x

def Published (s : Sys) (x : Str) : Prop := ∃ e ∈ s.published, e.2.externalMessageId = x

/-- no delivery ends between the commit of its key and its publication -/
def Carried (s : Sys) : Op → Prop
  | .abort t => (s.phase t).guarded = none
  | _ => True

/-- no delivery tries an id while another one of it is between its commit and its publication -/
def Alone (s : Sys) : Op → Prop
  | .insert t => ∀ m, s.phase t = .marking m → ¬ OnItsWay s m.externalMessageId
  | _ => True

/-- a published delivery has its key among the recorded ones -/
theorem Inv.published_key {s : Sys} (h : Inv s) {e : ℕ × InboundMessage} (he : e ∈ s.published)
    (hx : e.2.externalMessageId ≠ []) :
    ∃ i, s.phase e.1 = .published e.2 (some i) ∧ (⟨i, e.2.externalMessageId⟩ : Key) ∈ s.recorded := by
  obtain ⟨r, hr⟩ := h.listed e he
  cases r with
  | none => exact absurd (h.numbered e.1 e.2 (Or.inr hr)) hx
  | some i => exact ⟨i, hr, h.key e.1 _ (by rw [hr]; rfl)⟩

theorem Inv.publishedOf_le {s : Sys} (h : Inv s) {x : Str} (hx : x ≠ []) (hkeep : Retained s x) :
    (publishedOf s x).length ≤ 1 := by
  have hsame : ∀ e ∈ publishedOf s x, ∀ e' ∈ publishedOf s x, e.1 = e'.1 := by
    intro e he e' he'
    obtain ⟨hin, hex⟩ := List.mem_filter.1 he
    obtain ⟨hin', hex'⟩ := List.mem_filter.1 he'
    have hex : e.2.externalMessageId = x := by simpa using hex
    have hex' : e'.2.externalMessageId = x := by simpa using hex'
    obtain ⟨i, hi, hk⟩ := h.published_key hin (hex ▸ hx)
    obtain ⟨i', hi', hk'⟩ := h.published_key hin' (hex' ▸ hx)
    have hii : i = i' := by
      by_contra hne
      rcases h.twins _ hk _ hk' (hex.trans hex'.symm) (fun heq => hne (congrArg Key.id heq)) with hn | hn
      · exact absurd (hkeep _ hk hex) (Nat.not_lt.2 hn)
      · exact absurd (hkeep _ hk' hex') (Nat.not_lt.2 hn)
    exact h.owner e.1 e'.1 i (by rw [hi]; rfl) (by rw [hi', hii]; rfl)
  have hnd : ((publishedOf s x).map Prod.fst).Nodup := h.nodup.sublist (List.filter_sublist.map _)
  match hp : publishedOf s x with
  | [] => simp
  | [e] => simp
  | e :: e' :: l =>
    rw [hp] at hnd hsame
    have heq := hsame e (by simp) e' (by simp)
    simp [heq] at hnd

/-- every recorded key was published, or is about to be -/
def Sent (s : Sys) : Prop := ∀ k ∈ s.recorded, Published s k.externalId ∨ OnItsWay s k.externalId

theorem Sent.put {s : Sys} (h : Sent s) {t : ℕ} {p : Phase} (hg : p.guarded = (s.phase t).guarded) : Sent (s.put t p) := by
  intro k hk
  rcases h k hk with hp | ⟨j, m, hj, hm⟩
  · exact Or.inl hp
  · refine Or.inr ⟨j, m, ?_, hm⟩
    rw [phase_put]
    split_ifs with hjt
    · rw [hg, ← hjt]; exact hj
    · exact hj

theorem Move.sent {s s' : Sys} {o : Op} (hm : Move s o s') (hc : Carried s o) (h : Sent s) : Sent s' := by
  cases hm with
  | walk w => exact h.put w.guarded
  | leave hrow hpub => exact h.put (by rw [hc]; rfl)
  | rollback ht => exact h.put (by rw [ht]; rfl)
  | duplicate ht hx => exact h.put (by rw [ht]; rfl)
  | insert ht hx => exact h.put (by rw [ht]; rfl)
  | @commit t m i ht =>
    intro k hk
    rcases List.mem_append.1 hk with hk | hk
    · rcases h k hk with hp | ⟨j, m', hj, hm'⟩
      · exact Or.inl hp
      · refine Or.inr ⟨j, m', ?_, hm'⟩
        have hjt : j ≠ t := by
          rintro rfl
          rw [ht] at hj
          cases hj
        exact (congrArg Phase.guarded (Function.update_of_ne hjt _ _)).trans hj
    · rw [List.mem_singleton.1 hk]
      exact Or.inr ⟨t, m, congrArg Phase.guarded (phase_put_self _ _ _), rfl⟩
  | prune ht => exact h.put (by rw [ht]; rfl)
  | @publish t m r ht =>
    intro k hk
    rcases h k hk with ⟨e, he, hx⟩ | ⟨j, m', hj, hm'⟩
    · exact Or.inl ⟨e, List.mem_append_left _ he, hx⟩
    · by_cases hjt : j = t
      · rw [hjt, ht] at hj
        cases r with
        | none => cases hj
        | some i =>
          cases hj
          exact Or.inl ⟨(t, m), List.mem_append_right _ (List.mem_singleton_self _), hm'⟩
      · exact Or.inr ⟨j, m', (congrArg Phase.guarded (Function.update_of_ne hjt _ _)).trans hj, hm'⟩

theorem step_sent {s : Sys} {o : Op} (hc : Carried s o) (h : Sent s) : Sent (step s o) := by
  rcases step_move s o with hs | hs
  · rw [hs]; exact h
  · exact hs.sent hc h

/-- what was turned away is among the recorded ids -/
def Known (s : Sys) : Prop := ∀ x ∈ s.rejected, ∃ k ∈ s.recorded, k.externalId = x

theorem step_known {s : Sys} (o : Op) (hi : Inv s) (h : Known s) : Known (step s o) := by
  rcases step_move s o with hs | hs
  · rw [hs]; exact h
  · generalize step s o = s' at hs
    cases hs with
    | @duplicate t m ht hx =>
      intro x hx'
      rcases List.mem_append.1 hx' with hx' | hx'
      · exact h x hx'
      · obtain ⟨k, hk, hkx⟩ := List.mem_map.1 hx
        exact ⟨k, hi.seen k hk, hkx.trans (List.mem_singleton.1 hx').symm⟩
    | commit ht =>
      intro x hx
      obtain ⟨k, hk, hkx⟩ := h x hx
      exact ⟨k, List.mem_append_left _ hk, hkx⟩
    | _ => exact h

/-- what was turned away was published -/
def Answered (s : Sys) : Prop := ∀ x ∈ s.rejected, Published s x

theorem step_answered {s : Sys} {o : Op} (hi : Inv s) (hsent : Sent s) (ha : Alone s o) (h : Answered s) :
    Answered (step s o) := by
  rcases step_move s o with hs | hs
  · rw [hs]; exact h
  · generalize step s o = s' at hs
    cases hs with
    | @duplicate t m ht hx =>
      intro x hx'
      rcases List.mem_append.1 hx' with hx' | hx'
      · exact h x hx'
      · obtain ⟨k, hk, hkx⟩ := List.mem_map.1 hx
        rw [List.mem_singleton.1 hx', ← hkx]
        refine (hsent k (hi.seen k hk)).resolve_right ?_
        rw [hkx]
        exact ha m ht
    | publish ht =>
      intro x hx
      obtain ⟨e, he, hex⟩ := h x hx
      exact ⟨e, List.mem_append_left _ he, hex⟩
    | _ => exact h

/-- **At most once.** In every run, whatever fails, an id is published once at most while fewer newer keys than the table
keeps were recorded. -/
theorem at_most_once (ops : List Op) {x : Str} (hx : x ≠ []) (hkeep : Retained (run step Sys.init ops) x) :
    (publishedOf (run step Sys.init ops) x).length ≤ 1 :=
  (inv_run ops).publishedOf_le hx hkeep

/-- **Nothing is swallowed.** In a run where no delivery ends between the commit of its key and its publication, an id is
turned away only if it was published or a delivery of it is just about to publish; and only if it was published where no
delivery tries an id in that interval of another one. The ids are published once at most. -/
theorem rejected_only_if_published (ops : List Op) (hc : Meets step Carried Sys.init ops) :
    (∀ x ∈ (run step Sys.init ops).rejected, Published (run step Sys.init ops) x ∨ OnItsWay (run step Sys.init ops) x) ∧
      (Meets step Alone Sys.init ops → ∀ x ∈ (run step Sys.init ops).rejected, Published (run step Sys.init ops) x) ∧
      ∀ x ≠ [], Retained (run step Sys.init ops) x → (publishedOf (run step Sys.init ops) x).length ≤ 1 := by
  have hsent : Sent (run step Sys.init ops) := run_inv (fun _ _ hs ho => step_sent ho hs) hc nofun
  refine ⟨?_, ?_, fun x hx hkeep => at_most_once ops hx hkeep⟩
  · intro x hx
    have hknown := run_inv_all (I := fun s => Inv s ∧ Known s) (fun _ o hs => ⟨step_inv o hs.1, step_known o hs.1 hs.2⟩)
      Sys.init ops ⟨inv_init, nofun⟩
    obtain ⟨k, hk, rfl⟩ := hknown.2 x hx
    exact hsent k hk
  · intro ha
    have hboth : Meets step (fun s o => Carried s o ∧ Alone s o) Sys.init ops := meets_and hc ha
    exact (run_inv (I := fun s => Inv s ∧ Sent s ∧ Answered s)
      (fun _ o hs ho => ⟨step_inv o hs.1, step_sent ho.1 hs.2.1, step_answered hs.1 hs.2.1 ho.2 hs.2.2⟩) hboth
      ⟨inv_init, nofun, nofun⟩).2.2

instance (s : Sys) : (o : Op) → Decidable (Carried s o)
  | .abort t => inferInstanceAs (Decidable ((s.phase t).guarded = none))
  | .arrive _ _ | .allow _ _ | .insert _ | .commit _ | .count _ | .delete _ | .commitDelete _ | .pruneFails _
  | .publish _ => isTrue trivial

instance (s : Sys) (x : Str) : Decidable (Retained s x) :=
  inferInstanceAs (Decidable (∀ k ∈ s.recorded, k.externalId = x → newer s.recorded k.id < seenMax))

def photo : InboundMessage :=
  { channel := "linq".toList, senderId := "+1".toList, text := "look".toList, externalMessageId := "lq_7".toList }

/-- a delivery that runs through -/
def delivery (t : ℕ) (m : InboundMessage) : List Op :=
  [.arrive t m, .allow t true, .insert t, .commit t, .count t, .publish t]

theorem rejected_only_if_published_retry :
    Meets step Carried Sys.init (delivery 0 photo ++ delivery 1 photo) ∧
      photo.externalMessageId ∈ (run step Sys.init (delivery 0 photo ++ delivery 1 photo)).rejected ∧
      (Published (run step Sys.init (delivery 0 photo ++ delivery 1 photo)) photo.externalMessageId ∨
        OnItsWay (run step Sys.init (delivery 0 photo ++ delivery 1 photo)) photo.externalMessageId) ∧
      (publishedOf (run step Sys.init (delivery 0 photo ++ delivery 1 photo)) photo.externalMessageId).length ≤ 1 := by
  have h := rejected_only_if_published (delivery 0 photo ++ delivery 1 photo) (by decide)
  have hrej : photo.externalMessageId ∈ (run step Sys.init (delivery 0 photo ++ delivery 1 photo)).rejected := by decide
  exact ⟨by decide, hrej, h.1 _ hrej, h.2.2 _ (by decide) (by decide)⟩

/-- the process goes down while the store is counting its keys; the provider sends the webhook again -/
def crashThenRetry : List Op :=
  [.arrive 0 photo, .allow 0 true, .insert 0, .commit 0, .abort 0] ++ delivery 1 photo

/-- the retry is turned away as a duplicate, and nothing was published or is going to be -/
theorem swallowed :
    ¬ (∀ ops : List Op, ∀ x ∈ (run step Sys.init ops).rejected, Published (run step Sys.init ops) x) ∧
      (run step Sys.init crashThenRetry).rejected = [photo.externalMessageId] ∧
      (run step Sys.init crashThenRetry).published = [] ∧
      (run step Sys.init crashThenRetry).phase 0 = .ended ∧ (run step Sys.init crashThenRetry).phase 1 = .ended := by
  refine ⟨?_, by decide, by decide, by decide, by decide⟩
  intro h
  obtain ⟨e, he, -⟩ := h crashThenRetry photo.externalMessageId (by decide)
  have hnone : (run step Sys.init crashThenRetry).published = [] := by decide
  rw [hnone] at he
  cases he

end Clawbolt.Inbound

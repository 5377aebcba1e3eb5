/-
Dropping rows from the history: the compaction event, the watermark, and what is handed to the compaction model
(`trigger_compaction_for_dropped` and `_advance_trim_watermark_only` in agent/context.py, `_compact_dropped` in
agent/prompt_epoch.py).

A database call may raise. The trigger records its event and the watermark in one transaction and swallows a failure of
it: the transaction rolls back and the call returns. The renderer then moves the watermark past the last dropped row in a
second transaction, which knows nothing of the first; a failure of that one is the caller's.

Results:
- `triggers_refine`: the triggers move the watermark of the session as the seq-level model does;
- `mem_handed`: every dropped message above the watermark is handed over;
- `watermark_follows_record`: for every list of dropped rows and every pattern of failures, what `_compact_dropped`
  leaves keeps the watermark behind the record if and only if the trigger's transaction does not fail, or the second
  write fails too, or has nothing to advance;
- `unrecorded_drop`: the trigger's commit fails, and the watermark moves without an event.
-/
import Mathlib.Tactic
import Clawbolt.Session.Store
import Clawbolt.History.Convert

namespace Clawbolt.History

open Text (Str)
open Session (advance)

/-! ## Model -/

/-- a row of `compaction_events`, pending -/
structure CompactionEvent where
  minMessageSeq : ℕ
  maxMessageSeq : ℕ
  trimmedCount : ℕ
deriving DecidableEq, Repr

structure ChatSession where
  lastTrimSeq : Option ℕ
  historyStubSeq : Option ℕ
deriving DecidableEq, Repr

/-- the user's session row, if there is one, and the compaction events -/
structure Db where
  session : Option ChatSession
  events : List CompactionEvent
deriving DecidableEq, Repr

/-- where a transaction raises; opening the database session and reading the row are one place -/
inductive Fault where
  | select
  | flush
  | commit
deriving DecidableEq, Repr

/-- `cs.last_trim_seq or 0`, 0 without a session -/
def Db.watermark (db : Db) : ℕ := (db.session.bind ChatSession.lastTrimSeq).getD 0

/-- `if m > (cs.last_trim_seq or 0): cs.last_trim_seq = m` -/
def Db.advance (db : Db) (m : ℕ) : Db :=
  { db with session := db.session.map fun cs => { cs with lastTrimSeq := Session.advance cs.lastTrimSeq m } }

/-- `_seqs_from_dropped` -/
def seqsFromDropped (dropped : List AgentMessage) : List ℕ := dropped.filterMap AgentMessage.seq?

/-- the messages above the live watermark; a message without a seq stays -/
def aboveWatermark (current : ℕ) (dropped : List AgentMessage) : List AgentMessage :=
  dropped.filter fun m => m.seq?.all (current < ·)

/-- `trigger_compaction_for_dropped`: the database after it, and the messages handed to `compact_session` -/
def triggerCompactionForDropped (compactionEnabled : Bool) (db : Db) (fault : Option Fault)
    (dropped : List AgentMessage) : Db × Option (List AgentMessage) :=
  if dropped = [] ∨ compactionEnabled = false then (db, none)
  else if seqsFromDropped dropped = [] then (db, none)
  else if fault = some .select then (db, none)
  else
    let current := db.watermark
    let seqs := if current = 0 then seqsFromDropped dropped else (seqsFromDropped dropped).filter (current < ·)
    let kept := if current = 0 then dropped else aboveWatermark current dropped
    match seqs.min?, seqs.max? with
    | some minSeq, some maxSeq =>
      -- a failed flush or commit rolls the event and the watermark back
      if fault ≠ none then (db, none)
      else ({ db.advance maxSeq with events := db.events ++ [⟨minSeq, maxSeq, kept.length⟩] }, some kept)
    | _, _ => (db, none)

/-- `_advance_trim_watermark_only`, none when it raises -/
def advanceTrimWatermarkOnly (db : Db) (raises : Bool) (maxSeq : ℕ) : Option Db :=
  if raises then none else some (db.advance maxSeq)

/-- `_compact_dropped`, none when it raises: the database after it, what it handed over, and the rendered rows -/
def compactDropped (env : Env) (compactionEnabled persist : Bool) (db : Db) (fault : Option Fault) (raises : Bool)
    (droppedRows : List StoredMessage) (tzName : Str) (preceding : List StoredMessage) :
    Option (Db × Option (List AgentMessage) × List AgentMessage) :=
  let dropped := storedMessagesToAgentMessages env droppedRows tzName preceding
  match droppedRows.getLast? with
  | none => some (db, none, dropped)
  | some last =>
    if persist = false ∨ compactionEnabled = false then some (db, none, dropped)
    else
      let (db', handed) := triggerCompactionForDropped compactionEnabled db fault dropped
      (advanceTrimWatermarkOnly db' raises last.seq).map fun db'' => (db'', handed, dropped)

/-! ## The watermark -/

theorem advance_getD (w : Option ℕ) (m : ℕ) : (Session.advance w m).getD 0 = max (w.getD 0) m := by
  unfold Session.advance
  split_ifs with h
  · simp; omega
  · omega

theorem watermark_advance {db : Db} (hs : db.session ≠ none) (m : ℕ) : (db.advance m).watermark = max db.watermark m := by
  cases h : db.session with
  | none => exact absurd h hs
  | some cs => simpa [Db.watermark, Db.advance, h] using advance_getD cs.lastTrimSeq m

theorem watermark_advance_none {db : Db} (hs : db.session = none) (m : ℕ) : (db.advance m).watermark = db.watermark := by
  simp [Db.watermark, Db.advance, hs]

/-- no write lowers the watermark -/
theorem le_watermark_advance (db : Db) (m : ℕ) : db.watermark ≤ (db.advance m).watermark := by
  cases h : db.session with
  | none => rw [watermark_advance_none h]
  | some cs => rw [watermark_advance (by simp [h])]; exact le_max_left _ _

/-! ## The trigger -/

/-- the transaction is entered: something with a seq was dropped -/
def Entered (compactionEnabled : Bool) (dropped : List AgentMessage) : Prop :=
  compactionEnabled = true ∧ seqsFromDropped dropped ≠ []

/-- the transaction gets as far as recording an event -/
def Records (db : Db) (dropped : List AgentMessage) : Prop :=
  db.watermark = 0 ∨ ∃ q ∈ seqsFromDropped dropped, db.watermark < q

/-- the trigger's transaction raises -/
def TriggerFails (compactionEnabled : Bool) (db : Db) (fault : Option Fault) (dropped : List AgentMessage) : Prop :=
  Entered compactionEnabled dropped ∧ (fault = some .select ∨ (fault ≠ none ∧ Records db dropped))

/-- the seqs that an event is recorded for -/
def recordedSeqs (db : Db) (dropped : List AgentMessage) : List ℕ :=
  if db.watermark = 0 then seqsFromDropped dropped else (seqsFromDropped dropped).filter (db.watermark < ·)

/-- the messages handed over when it is -/
def keptMessages (db : Db) (dropped : List AgentMessage) : List AgentMessage :=
  if db.watermark = 0 then dropped else aboveWatermark db.watermark dropped

theorem recordedSeqs_ne_nil {db : Db} {dropped : List AgentMessage} (h : seqsFromDropped dropped ≠ []) :
    recordedSeqs db dropped ≠ [] ↔ Records db dropped := by
  unfold recordedSeqs Records
  split_ifs with h0
  · simp [h, h0]
  · simp [h0, List.filter_eq_nil_iff]

theorem mem_recordedSeqs {db : Db} {dropped : List AgentMessage} {q : ℕ} (hq : q ∈ seqsFromDropped dropped)
    (hlt : db.watermark < q) : q ∈ recordedSeqs db dropped := by
  unfold recordedSeqs
  split_ifs
  · exact hq
  · exact List.mem_filter.2 ⟨hq, by simpa using hlt⟩

/-- **What the trigger does**: nothing, or an event for the seqs above the watermark, the watermark moved to the highest
of them, and the messages above it handed over. -/
theorem trigger_cases (enabled : Bool) (db : Db) (fault : Option Fault) (dropped : List AgentMessage) :
    (triggerCompactionForDropped enabled db fault dropped = (db, none) ∧
        (¬ Entered enabled dropped ∨ ¬ Records db dropped ∨ TriggerFails enabled db fault dropped)) ∨
      (Entered enabled dropped ∧ fault = none ∧ ∃ lo hi, (recordedSeqs db dropped).min? = some lo ∧
        (recordedSeqs db dropped).max? = some hi ∧
        triggerCompactionForDropped enabled db fault dropped =
          ({ db.advance hi with events := db.events ++ [⟨lo, hi, (keptMessages db dropped).length⟩] },
            some (keptMessages db dropped))) := by
  have hdef : triggerCompactionForDropped enabled db fault dropped =
      if dropped = [] ∨ enabled = false then (db, none)
      else if seqsFromDropped dropped = [] then (db, none)
      else if fault = some .select then (db, none)
      else match (recordedSeqs db dropped).min?, (recordedSeqs db dropped).max? with
        | some lo, some hi =>
          if fault ≠ none then (db, none)
          else ({ db.advance hi with events := db.events ++ [⟨lo, hi, (keptMessages db dropped).length⟩] },
            some (keptMessages db dropped))
        | _, _ => (db, none) := rfl
  by_cases h1 : dropped = [] ∨ enabled = false
  · refine Or.inl ⟨by rw [hdef, if_pos h1], Or.inl ?_⟩
    rintro ⟨he, hs⟩
    rcases h1 with rfl | h1
    · exact hs rfl
    · simp [he] at h1
  rw [if_neg h1] at hdef
  push Not at h1
  by_cases h2 : seqsFromDropped dropped = []
  · exact Or.inl ⟨by rw [hdef, if_pos h2], Or.inl fun h => h.2 h2⟩
  have hent : Entered enabled dropped := ⟨by simpa using h1.2, h2⟩
  rw [if_neg h2] at hdef
  by_cases h3 : fault = some .select
  · exact Or.inl ⟨by rw [hdef, if_pos h3], Or.inr (Or.inr ⟨hent, Or.inl h3⟩)⟩
  rw [if_neg h3] at hdef
  by_cases hrec : recordedSeqs db dropped = []
  · refine Or.inl ⟨by rw [hdef, hrec]; rfl, Or.inr (Or.inl fun h => (recordedSeqs_ne_nil h2).2 h hrec)⟩
  obtain ⟨lo, hlo⟩ := Option.ne_none_iff_exists'.1 (mt List.min?_eq_none_iff.1 hrec)
  obtain ⟨hi, hhi⟩ := Option.ne_none_iff_exists'.1 (mt List.max?_eq_none_iff.1 hrec)
  simp only [hlo, hhi] at hdef
  by_cases hf : fault = none
  · exact Or.inr ⟨hent, hf, lo, hi, hlo, hhi, by rw [hdef, if_neg (by simp [hf])]⟩
  · exact Or.inl ⟨by rw [hdef, if_pos hf], Or.inr (Or.inr ⟨hent, Or.inr ⟨hf, (recordedSeqs_ne_nil h2).1 hrec⟩⟩)⟩

/-- a trigger that does not fail moves `last_trim_seq` as the model of the session's seqs says -/
theorem trigger_lastTrimSeq (db : Db) (dropped : List AgentMessage) :
    (triggerCompactionForDropped true db none dropped).1.session = db.session.map fun cs =>
      { cs with lastTrimSeq := Session.triggerCompactionForDropped cs.lastTrimSeq (seqsFromDropped dropped) } := by
  cases hs : db.session with
  | none =>
    rcases trigger_cases true db none dropped with ⟨h, -⟩ | ⟨-, -, lo, hi, -, -, h⟩
    · rw [h, hs]; rfl
    · rw [h]; simp [Db.advance, hs]
  | some cs =>
    have hw : db.watermark = cs.lastTrimSeq.getD 0 := by simp [Db.watermark, hs]
    have hrec : Session.triggerCompactionForDropped cs.lastTrimSeq (seqsFromDropped dropped) =
        (recordedSeqs db dropped).max?.elim cs.lastTrimSeq (advance cs.lastTrimSeq) := by
      unfold recordedSeqs
      rw [hw]
      cases h : (if cs.lastTrimSeq.getD 0 = 0 then seqsFromDropped dropped
          else (seqsFromDropped dropped).filter (cs.lastTrimSeq.getD 0 < ·)).max? <;>
        simp [Session.triggerCompactionForDropped, h]
    rw [Option.map_some, hrec]
    rcases trigger_cases true db none dropped with ⟨h, h' | h' | h'⟩ | ⟨-, -, lo, hi, -, hhi, h⟩
    · have hnil : seqsFromDropped dropped = [] := by_contra fun hne => h' ⟨rfl, hne⟩
      rw [h]
      simp [recordedSeqs, hnil, hs]
    · rw [h]
      by_cases hnil : seqsFromDropped dropped = []
      · simp [recordedSeqs, hnil, hs]
      · rw [by_contra fun hne => h' ((recordedSeqs_ne_nil hnil).1 hne), hs]; rfl
    · rcases h'.2 with h' | h' <;> simp at h'
    · rw [h, hhi]
      simp [Db.advance, hs]

/-- **Refinement.** Over any calls of the trigger, `last_trim_seq` moves as in the model of the session's seqs, in which the
calls that are not enabled or fail do nothing. -/
theorem triggers_refine (db : Db) (calls : List (Bool × Option Fault × List AgentMessage)) :
    (calls.foldl (fun db c => (triggerCompactionForDropped c.1 db c.2.1 c.2.2).1) db).session = db.session.map fun cs =>
      { cs with
        lastTrimSeq := (calls.filter fun c => c.1 && c.2.1.isNone).foldl
          (fun w c => Session.triggerCompactionForDropped w (seqsFromDropped c.2.2)) cs.lastTrimSeq } := by
  induction calls generalizing db with
  | nil => simp
  | cons c calls ih =>
    obtain ⟨enabled, fault, dropped⟩ := c
    rw [List.foldl_cons, ih]
    by_cases hlands : enabled = true ∧ fault = none
    · obtain ⟨rfl, rfl⟩ := hlands
      rw [trigger_lastTrimSeq, Option.map_map]
      rfl
    · have hkept : (triggerCompactionForDropped enabled db fault dropped).1 = db := by
        rcases trigger_cases enabled db fault dropped with ⟨h, -⟩ | ⟨hent, hfault, -⟩
        · rw [h]
        · exact absurd ⟨hent.1, hfault⟩ hlands
      rw [hkept, List.filter_cons_of_neg (by simpa using hlands)]

/-- every dropped message above the watermark is handed over -/
theorem mem_handed {db : Db} {dropped : List AgentMessage} {m : AgentMessage} {q : ℕ} (hm : m ∈ dropped)
    (hq : m.seq? = some q) (hlt : db.watermark < q) :
    ∃ ms, (triggerCompactionForDropped true db none dropped).2 = some ms ∧ m ∈ ms := by
  have hseq : q ∈ seqsFromDropped dropped := List.mem_filterMap.2 ⟨m, hm, hq⟩
  rcases trigger_cases true db none dropped with ⟨-, h | h | h⟩ | ⟨-, -, lo, hi, -, -, h⟩
  · exact absurd ⟨rfl, List.ne_nil_of_mem hseq⟩ h
  · exact absurd (Or.inr ⟨q, hseq, hlt⟩) h
  · rcases h.2 with h | h <;> simp at h
  · refine ⟨_, by rw [h], ?_⟩
    unfold keptMessages
    split_ifs
    · exact hm
    · exact List.mem_filter.2 ⟨hm, by simp [hq, hlt]⟩

/-- the watermark ends at the highest dropped seq, or where it was -/
theorem trigger_watermark (db : Db) (dropped : List AgentMessage) :
    (triggerCompactionForDropped true db none dropped).1.watermark = db.watermark ∨
      ∃ m ∈ dropped, m.seq? = some (triggerCompactionForDropped true db none dropped).1.watermark := by
  rcases trigger_cases true db none dropped with ⟨h, -⟩ | ⟨-, -, lo, hi, -, hhi, h⟩
  · rw [h]; exact Or.inl rfl
  · have hw : (triggerCompactionForDropped true db none dropped).1.watermark = (db.advance hi).watermark := by
      rw [h]; rfl
    rw [hw]
    cases hs : db.session with
    | none => exact Or.inl (watermark_advance_none hs hi)
    | some cs =>
      rw [watermark_advance (by simp [hs])]
      rcases le_total hi db.watermark with hle | hle
      · exact Or.inl (max_eq_left hle)
      · right
        rw [max_eq_right hle]
        have hmem : hi ∈ seqsFromDropped dropped := by
          have := (List.max?_eq_some_iff.1 hhi).1
          unfold recordedSeqs at this
          split_ifs at this
          · exact this
          · exact (List.mem_filter.1 this).1
        obtain ⟨m, hm, hq⟩ := List.mem_filterMap.1 hmem
        exact ⟨m, hm, hq⟩

/-! ## The watermark and the record -/

theorem mem_seqsFromDropped {env : Env} {rows preceding : List StoredMessage} {tzName : Str} {q : ℕ} :
    q ∈ seqsFromDropped (storedMessagesToAgentMessages env rows tzName preceding) ↔
      ∃ r ∈ rendering env preceding rows, r.seq = q := by
  rw [← mem_convert_seq env tzName]
  exact List.mem_filterMap

/-- an event records every seq that a trigger recorded -/
theorem recorded_between {db : Db} {dropped : List AgentMessage} {lo hi q : ℕ}
    (hlo : (recordedSeqs db dropped).min? = some lo) (hhi : (recordedSeqs db dropped).max? = some hi)
    (hq : q ∈ recordedSeqs db dropped) : lo ≤ q ∧ q ≤ hi :=
  ⟨(List.min?_eq_some_iff.1 hlo).2 q hq, (List.max?_eq_some_iff.1 hhi).2 q hq⟩

/-- what a drop promises of the database it leaves: a rendering row that the watermark passed is in the range of a
recorded event, and without a record the watermark has not moved -/
structure FollowsRecord (env : Env) (compactionEnabled : Bool) (db : Db) (fault : Option Fault)
    (droppedRows : List StoredMessage) (tzName : Str) (preceding : List StoredMessage) (db' : Db) : Prop where
  covered : ∀ r ∈ rendering env preceding droppedRows, db.watermark < r.seq → r.seq ≤ db'.watermark →
    ∃ e ∈ db'.events, e.minMessageSeq ≤ r.seq ∧ r.seq ≤ e.maxMessageSeq
  unmoved : TriggerFails compactionEnabled db fault (storedMessagesToAgentMessages env droppedRows tzName preceding) →
    db'.session.map ChatSession.lastTrimSeq = db.session.map ChatSession.lastTrimSeq

/-- the trigger records its event, or the second write leaves the watermark alone: it raises, finds no session, or the
last dropped row is already below the watermark -/
def RecordsOrStays (env : Env) (compactionEnabled persist : Bool) (db : Db) (fault : Option Fault) (raises : Bool)
    (droppedRows : List StoredMessage) (tzName : Str) (preceding : List StoredMessage) : Prop :=
  persist = true →
    TriggerFails compactionEnabled db fault (storedMessagesToAgentMessages env droppedRows tzName preceding) →
    raises = true ∨ db.session = none ∨ ∀ last ∈ droppedRows.getLast?, last.seq ≤ db.watermark

/-- a write that is not above the watermark changes no session -/
theorem advance_session {db : Db} {m : ℕ} (h : db.session = none ∨ m ≤ db.watermark) :
    (db.advance m).session = db.session := by
  cases hs : db.session with
  | none => simp [Db.advance, hs]
  | some cs =>
    have hm : m ≤ cs.lastTrimSeq.getD 0 := by
      rcases h with h | h
      · simp [hs] at h
      · simpa [Db.watermark, hs] using h
    have hadv : Session.advance cs.lastTrimSeq m = cs.lastTrimSeq := by
      unfold Session.advance
      rw [if_neg (by omega)]
    simp [Db.advance, hs, hadv]

/-- the two outcomes of a drop that does not raise: nothing is written, or the trigger runs and the second write after
it -/
theorem compactDropped_cases {env : Env} {enabled persist : Bool} {db db' : Db} {fault : Option Fault} {raises : Bool}
    {rows preceding : List StoredMessage} {tzName : Str} {handed : Option (List AgentMessage)}
    {rendered : List AgentMessage}
    (h : compactDropped env enabled persist db fault raises rows tzName preceding = some (db', handed, rendered)) :
    rendered = storedMessagesToAgentMessages env rows tzName preceding ∧
      ((db' = db ∧ handed = none ∧ (rows = [] ∨ persist = false ∨ enabled = false)) ∨
        ∃ last, rows.getLast? = some last ∧ persist = true ∧ enabled = true ∧ raises = false ∧
          handed = (triggerCompactionForDropped true db fault rendered).2 ∧
          db' = (triggerCompactionForDropped true db fault rendered).1.advance last.seq) := by
  unfold compactDropped at h
  cases hl : rows.getLast? with
  | none =>
    simp only [hl, Option.some.injEq, Prod.mk.injEq] at h
    exact ⟨h.2.2.symm, Or.inl ⟨h.1.symm, h.2.1.symm, Or.inl (List.getLast?_eq_none_iff.1 hl)⟩⟩
  | some last =>
    simp only [hl] at h
    by_cases hp : persist = false ∨ enabled = false
    · simp only [if_pos hp, Option.some.injEq, Prod.mk.injEq] at h
      exact ⟨h.2.2.symm, Or.inl ⟨h.1.symm, h.2.1.symm, Or.inr hp⟩⟩
    · rw [if_neg hp] at h
      simp only [not_or, Bool.not_eq_false] at hp
      obtain ⟨hper, hen⟩ := hp
      subst hper hen
      cases raises with
      | true => simp [advanceTrimWatermarkOnly] at h
      | false =>
        simp only [advanceTrimWatermarkOnly, Bool.false_eq_true, if_false, Option.map_some, Option.some.injEq,
          Prod.mk.injEq] at h
        obtain ⟨rfl, rfl, rfl⟩ := h
        exact ⟨rfl, Or.inr ⟨last, rfl, rfl, rfl, rfl, rfl, rfl⟩⟩

/-- **When the watermark follows the record.** Whatever the database does, what `_compact_dropped` leaves is recorded, or
the watermark has stayed, exactly when the trigger does not fail or the second write leaves the watermark alone. -/
theorem watermark_follows_record (env : Env) (compactionEnabled persist : Bool) (db : Db) (fault : Option Fault)
    (raises : Bool) (droppedRows : List StoredMessage) (tzName : Str) (preceding : List StoredMessage) :
    (∀ db' handed rendered,
      compactDropped env compactionEnabled persist db fault raises droppedRows tzName preceding =
          some (db', handed, rendered) →
        FollowsRecord env compactionEnabled db fault droppedRows tzName preceding db') ↔
      RecordsOrStays env compactionEnabled persist db fault raises droppedRows tzName preceding := by
  constructor
  · intro h hper hfail
    by_contra hcon
    simp only [not_or, Bool.not_eq_true, not_forall, not_le] at hcon
    obtain ⟨hr, hs, last, hlast, hlt⟩ := hcon
    subst hper hr
    have hen : compactionEnabled = true := hfail.1.1
    subst hen
    -- the trigger rolls back, and the second write passes the last row
    have htrig : triggerCompactionForDropped true db fault (storedMessagesToAgentMessages env droppedRows tzName preceding)
        = (db, none) := by
      rcases trigger_cases true db fault (storedMessagesToAgentMessages env droppedRows tzName preceding) with
        ⟨h, -⟩ | ⟨-, hnone, -⟩
      · exact h
      · rcases hfail.2 with h | h <;> simp [hnone] at h
    have hret : compactDropped env true true db fault false droppedRows tzName preceding =
        some (db.advance last.seq, none, storedMessagesToAgentMessages env droppedRows tzName preceding) := by
      unfold compactDropped
      rw [Option.mem_def.1 hlast]
      simp [htrig, advanceTrimWatermarkOnly]
    have hun := (h _ _ _ hret).unmoved hfail
    have hw := watermark_advance hs last.seq
    have heq : (db.advance last.seq).watermark = db.watermark := by
      cases hdb : db.session with
      | none => exact absurd hdb hs
      | some cs => simpa [Db.watermark, Db.advance, hdb] using congrArg (fun w => (w.bind id).getD 0) hun
    omega
  · intro h db' handed rendered hret
    obtain ⟨rfl, ⟨rfl, -, -⟩ | ⟨last, hlast, rfl, rfl, rfl, -, rfl⟩⟩ := compactDropped_cases hret
    · exact ⟨fun r _ h1 h2 => absurd h2 (by omega), fun _ => rfl⟩
    rcases trigger_cases true db fault (storedMessagesToAgentMessages env droppedRows tzName preceding) with
      ⟨htrig, hwhy⟩ | ⟨-, rfl, lo, hi, hlo, hhi, htrig⟩
    · rw [htrig]
      have hseq : ∀ r ∈ rendering env preceding droppedRows, r.seq ∈
          seqsFromDropped (storedMessagesToAgentMessages env droppedRows tzName preceding) :=
        fun r hr => mem_seqsFromDropped.2 ⟨r, hr, rfl⟩
      by_cases hfail : TriggerFails true db fault (storedMessagesToAgentMessages env droppedRows tzName preceding)
      · have hstay : (db.advance last.seq).session = db.session := by
          rcases h rfl hfail with h | h | h
          · simp at h
          · exact advance_session (Or.inl h)
          · exact advance_session (Or.inr (h last hlast))
        refine ⟨fun r _ h1 h2 => ?_, fun _ => by rw [hstay]⟩
        have hw : (db.advance last.seq).watermark = db.watermark := by rw [Db.watermark, hstay]; rfl
        exact absurd (hw ▸ h2 : r.seq ≤ db.watermark) (by omega)
      · -- without a failure no rendering row is above the watermark
        refine ⟨fun r hr h1 _ => ?_, fun hf => absurd hf hfail⟩
        rcases hwhy with hwhy | hwhy | hwhy
        · exact absurd ⟨rfl, List.ne_nil_of_mem (hseq r hr)⟩ hwhy
        · exact absurd (Or.inr ⟨r.seq, hseq r hr, h1⟩) hwhy
        · exact absurd hwhy hfail
    · rw [htrig]
      refine ⟨fun r hr h1 _ => ?_, fun hf => ?_⟩
      · have hrec := mem_recordedSeqs (mem_seqsFromDropped.2 ⟨r, hr, rfl⟩ :
          r.seq ∈ seqsFromDropped (storedMessagesToAgentMessages env droppedRows tzName preceding)) h1
        exact ⟨_, List.mem_append_right _ (List.mem_singleton.2 rfl), recorded_between hlo hhi hrec⟩
      · rcases hf.2 with hf | hf <;> simp at hf

/-- the commit of the trigger fails, and the second write passes both dropped rows without an event -/
theorem unrecorded_drop :
    ∃ db', compactDropped (sampleEnv [] []) true true ⟨some ⟨none, none⟩, []⟩ (some .commit) false
        [⟨.inbound, "hello".toList, [], [], [], [], 1⟩, ⟨.outbound, "hi".toList, [], [], [], [], 2⟩] [] [] =
          some (db', none, [.user "hello".toList (some 1), .assistant (some "hi".toList) [] (some 2)]) ∧
      db'.watermark = 2 ∧ db'.events = [] ∧
      ¬ FollowsRecord (sampleEnv [] []) true ⟨some ⟨none, none⟩, []⟩ (some .commit)
        [⟨.inbound, "hello".toList, [], [], [], [], 1⟩, ⟨.outbound, "hi".toList, [], [], [], [], 2⟩] [] [] db' := by
  refine ⟨⟨some ⟨some 2, none⟩, []⟩, by decide, by decide, rfl, fun h => ?_⟩
  have hrow : (⟨.inbound, "hello".toList, [], [], [], [], 1⟩ : StoredMessage) ∈ rendering (sampleEnv [] []) []
      [⟨.inbound, "hello".toList, [], [], [], [], 1⟩, ⟨.outbound, "hi".toList, [], [], [], [], 2⟩] := by decide
  obtain ⟨e, he, -⟩ := h.covered _ hrow (by decide) (by decide)
  exact absurd he (List.not_mem_nil)

end Clawbolt.History

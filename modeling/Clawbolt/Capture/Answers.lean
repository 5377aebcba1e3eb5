/-
Whether a captured response answers the request it is stored beside.

The upsert moves the request columns of an era and leaves the response columns where they are, and the rounds of one turn share
a request id. So the pairing needs a condition on the steps, and the condition is exact:

- `response_answers_request`: in a run every row is paired in every state exactly when each request capture that overwrites a
  row finds no response in the way, and each response UPDATE that matches an era matches the era of its own request;
- `answers_another`: a response stands beside the next request of its era, or of the next era, or beside the request of a
  later round of its turn.
-/
import Mathlib.Tactic
import Clawbolt.Core.Runs
import Clawbolt.Capture.Rows

namespace Clawbolt.Capture

open Text (Str)
open Runs

/-! ## The property -/

namespace LLMPayloadCapture

/-- the calls whose requests a row stores -/
def requests (row : LLMPayloadCapture) : List ℕ :=
  row.currentEraPayload.call :: row.previousEraPayload.toList.map Captured.call

/-- the calls whose responses it stores -/
def responses (row : LLMPayloadCapture) : List ℕ :=
  (row.currentEraResponse.toList ++ row.previousEraResponse.toList).map Captured.call

end LLMPayloadCapture

/-- the response of an era is the response of its request, and a response is stored with its request only -/
structure Paired (row : LLMPayloadCapture) : Prop where
  current : ∀ r ∈ row.currentEraResponse, r.call = row.currentEraPayload.call
  previous : ∀ r ∈ row.previousEraResponse, ∃ q ∈ row.previousEraPayload, r.call = q.call
  overwritten : ∀ call, call ∉ row.requests → call ∉ row.responses

/-- every row is paired after the operation -/
def Good (size : Dict Json → ℕ) (s : Sys) (op : Op) : Prop := ∀ userId row, (step size s op).rows userId = some row → Paired row

/-- no response is in the way of a request with this era marker -/
def Clear (row : LLMPayloadCapture) (marker : Option ℤ) : Prop :=
  row.currentEraResponse = none ∧ (row.currentEraMinMessageSeq ≠ marker → row.previousEraResponse = none)

/-- an era that the next UPDATE matches holds the request of its own call -/
def Pairing.Own (p : Pairing) (row : LLMPayloadCapture) : Prop :=
  if p.missedCurrent then
    row.previousEraRequestId = some p.requestId → ∃ q ∈ row.previousEraPayload, p.serialized.call = q.call
  else row.currentEraRequestId = some p.requestId → p.serialized.call = row.currentEraPayload.call

/-- a request that is captured, and neither dropped nor refused -/
def Upserts (size : Dict Json → ℕ) (p : LLMRequestPayload) (consent : Option Bool) : Prop :=
  p.purpose = purposeAgentMain ∧ size (payloadToJsonDict p) ≤ maxCaptureBytes ∧ consent = some true

/-- requests overwrite no response, and a response finds its own request -/
def Fits (size : Dict Json → ℕ) (s : Sys) : Op → Prop
  | .captureRequest call payload consent _ =>
    call ∉ s.calls → Upserts size payload consent → ∀ row, s.rows payload.userId = some row → Clear row payload.minMessageSeqInPrompt
  | .update t => ∀ p row, s.tasks t = some p → s.rows p.userId = some row → p.Own row
  | _ => True

/-! ## One row -/

section

variable {row row' : LLMPayloadCapture}

theorem Paired.of (hcurrent : ∀ r ∈ row.currentEraResponse, r.call = row.currentEraPayload.call)
    (hprevious : ∀ r ∈ row.previousEraResponse, ∃ q ∈ row.previousEraPayload, r.call = q.call) : Paired row := by
  refine ⟨hcurrent, hprevious, fun call hnot hmem => hnot ?_⟩
  obtain ⟨r, hr, rfl⟩ := List.mem_map.1 hmem
  rcases List.mem_append.1 hr with hr | hr
  · rw [hcurrent r (Option.mem_toList.1 hr)]
    exact List.mem_cons_self
  · obtain ⟨q, hq, hcall⟩ := hprevious r (Option.mem_toList.1 hr)
    rw [hcall]
    exact List.mem_cons_of_mem _ (List.mem_map_of_mem (Option.mem_toList.2 hq))

/-- the requests of a row are those of two calls that were captured -/
structure Kept (calls : List ℕ) (row : LLMPayloadCapture) : Prop where
  current : row.currentEraPayload.call ∈ calls
  previous : ∀ q ∈ row.previousEraPayload, q.call ∈ calls ∧ q.call ≠ row.currentEraPayload.call

theorem Kept.mono {calls calls' : List ℕ} (h : Kept calls row) (hsub : calls ⊆ calls') : Kept calls' row :=
  ⟨hsub h.current, fun q hq => ⟨hsub (h.previous q hq).1, (h.previous q hq).2⟩⟩

theorem paired_inserted (call : ℕ) (p : LLMRequestPayload) (capturedAt bytes : ℕ) :
    Paired (inserted call p capturedAt bytes) :=
  Paired.of nofun nofun

/-- a request of a new call leaves the row paired exactly when no response is in its way -/
theorem paired_onConflict {calls : List ℕ} (h : Paired row) (hkept : Kept calls row) {call : ℕ} (hcall : call ∉ calls)
    (p : LLMRequestPayload) (capturedAt bytes : ℕ) :
    Paired (onConflict row (inserted call p capturedAt bytes)) ↔ Clear row p.minMessageSeqInPrompt := by
  constructor
  · intro hpaired
    constructor
    · -- a response that stays would answer two calls
      refine Option.eq_none_iff_forall_not_mem.2 fun r hr => hcall ?_
      have hnew : r.call = call := hpaired.current r hr
      rw [← hnew, h.current r hr]
      exact hkept.current
    · intro hera
      refine Option.eq_none_iff_forall_not_mem.2 fun r hr => ?_
      obtain ⟨q, hq, hrq⟩ := h.previous r hr
      obtain ⟨q', hq', hrq'⟩ := hpaired.previous r hr
      have hq'' : q' = row.currentEraPayload := by
        have hpayload : (onConflict row (inserted call p capturedAt bytes)).previousEraPayload = some row.currentEraPayload :=
          if_pos hera
        rw [hpayload] at hq'
        exact (Option.some.inj hq').symm
      exact (hkept.previous q hq).2 (by rw [← hrq, hrq', hq''])
  · rintro ⟨hcurrent, hprevious⟩
    refine Paired.of (fun r hr => ?_) (fun r hr => ?_)
    · rw [onConflict, hcurrent] at hr
      cases hr
    · by_cases hera : row.currentEraMinMessageSeq ≠ p.minMessageSeqInPrompt
      · rw [onConflict, hprevious hera] at hr
        cases hr
      · obtain ⟨q, hq, hrq⟩ := h.previous r hr
        have hpayload : (onConflict row (inserted call p capturedAt bytes)).previousEraPayload = row.previousEraPayload :=
          if_neg hera
        exact ⟨q, hpayload ▸ hq, hrq⟩

theorem kept_onConflict {calls : List ℕ} (hkept : Kept calls row) {call : ℕ} (hcall : call ∉ calls)
    (p : LLMRequestPayload) (capturedAt bytes : ℕ) :
    Kept (call :: calls) (onConflict row (inserted call p capturedAt bytes)) := by
  refine ⟨List.mem_cons_self, fun q hq => ?_⟩
  have hmem : q.call ∈ calls := by
    simp only [onConflict] at hq
    split_ifs at hq
    · rw [← Option.some.inj hq]
      exact hkept.current
    · exact (hkept.previous q hq).1
  refine ⟨List.mem_cons_of_mem _ hmem, fun heq => hcall ?_⟩
  have hnew : q.call = call := heq
  exact hnew ▸ hmem

/-- an UPDATE leaves the requests, and the row paired exactly when it matched its own call -/
theorem paired_update {p : Pairing} (h : Paired row) (hupdate : p.update row = some row') :
    (Paired row' ↔ p.Own row) ∧ row'.currentEraPayload = row.currentEraPayload ∧
      row'.previousEraPayload = row.previousEraPayload := by
  unfold Pairing.update at hupdate
  unfold Pairing.Own
  split_ifs at hupdate ⊢ with hmissed
  · unfold Pairing.updatePrevious at hupdate
    split_ifs at hupdate with hid
    obtain rfl := Option.some.inj hupdate
    refine ⟨⟨fun hpaired _ => hpaired.previous p.serialized rfl, fun hown => ?_⟩, rfl, rfl⟩
    refine Paired.of h.current fun r hr => ?_
    obtain rfl := Option.some.inj hr
    exact hown hid
  · unfold Pairing.updateCurrent at hupdate
    split_ifs at hupdate with hid
    obtain rfl := Option.some.inj hupdate
    refine ⟨⟨fun hpaired _ => hpaired.current p.serialized rfl, fun hown => ?_⟩, rfl, rfl⟩
    refine Paired.of (fun r hr => ?_) h.previous
    obtain rfl := Option.some.inj hr
    exact hown hid

/-- where no era has the id there is nothing to match -/
theorem own_of_missed {p : Pairing} (hupdate : p.update row = none) : p.Own row := by
  unfold Pairing.update at hupdate
  unfold Pairing.Own
  split_ifs at hupdate ⊢ with hmissed
  · unfold Pairing.updatePrevious at hupdate
    split_ifs at hupdate with hid
    exact fun h => absurd h hid
  · unfold Pairing.updateCurrent at hupdate
    split_ifs at hupdate with hid
    exact fun h => absurd h hid

end

/-! ## Runs -/

structure Inv (s : Sys) : Prop where
  paired : ∀ userId row, s.rows userId = some row → Paired row
  kept : ∀ userId row, s.rows userId = some row → Kept s.calls row

theorem inv_init : Inv Sys.init :=
  ⟨fun _ row h => absurd h.symm (Option.some_ne_none row), fun _ row h => absurd h.symm (Option.some_ne_none row)⟩

/-- a property of the rows, after a write to one of them -/
theorem forall_rows_update {P : LLMPayloadCapture → Prop} {rows : Str → Option LLMPayloadCapture} (userId : Str)
    (new : Option LLMPayloadCapture) (hrows : ∀ u row, rows u = some row → P row) :
    (∀ u row, Function.update rows userId new u = some row → P row) ↔ ∀ row, new = some row → P row := by
  constructor
  · intro h row hrow
    exact h userId row (by rwa [Function.update_self])
  · intro h u row hrow
    by_cases hu : u = userId
    · subst hu
      rw [Function.update_self] at hrow
      exact h row hrow
    · rw [Function.update_of_ne hu] at hrow
      exact hrows u row hrow

section

variable {size : Dict Json → ℕ} {s : Sys}

/-- what a request capture leaves of the row: the row as it was, none, or the new request -/
theorem captureLlmRequest_cases (size : Dict Json → ℕ) (call : ℕ) (p : LLMRequestPayload) (consent : Option Bool) (capturedAt : ℕ)
    (row : Option LLMPayloadCapture) :
    (¬Upserts size p consent ∧ (captureLlmRequest size call p consent capturedAt row = row ∨
      captureLlmRequest size call p consent capturedAt row = none)) ∨
    (Upserts size p consent ∧ captureLlmRequest size call p consent capturedAt row =
      some (upsert row (inserted call p capturedAt (size (payloadToJsonDict p))))) := by
  unfold captureLlmRequest Upserts
  split_ifs with hpurpose hsize hconsent
  · exact Or.inl ⟨fun h => hpurpose h.1, Or.inl rfl⟩
  · exact Or.inl ⟨fun h => absurd h.2.1 (not_le.2 hsize), Or.inl rfl⟩
  · exact Or.inl ⟨fun h => hconsent h.2.2, Or.inr rfl⟩
  · exact Or.inr ⟨⟨not_not.1 hpurpose, not_lt.1 hsize, not_not.1 hconsent⟩, rfl⟩

theorem good_captureRequest (h : Inv s) {call : ℕ} (hcall : call ∉ s.calls) (p : LLMRequestPayload) (consent : Option Bool)
    (capturedAt : ℕ) :
    Good size s (.captureRequest call p consent capturedAt) ↔
      (Upserts size p consent → ∀ row, s.rows p.userId = some row → Clear row p.minMessageSeqInPrompt) := by
  unfold Good
  rw [step, if_neg hcall]
  rw [forall_rows_update _ _ h.paired]
  rcases captureLlmRequest_cases size call p consent capturedAt (s.rows p.userId) with ⟨hno, heq⟩ | ⟨hyes, heq⟩
  · refine iff_of_true (fun row hrow => ?_) fun hyes => absurd hyes hno
    rcases heq with heq | heq
    · rw [heq] at hrow
      exact h.paired p.userId row hrow
    · rw [heq] at hrow
      cases hrow
  · rw [heq]
    simp only [hyes, true_imp_iff, Option.some.injEq, forall_eq']
    cases hrow : s.rows p.userId with
    | none => exact iff_of_true (paired_inserted _ _ _ _) fun row h => absurd h.symm (Option.some_ne_none row)
    | some row =>
      simp only [Option.some.injEq, forall_eq']
      exact paired_onConflict (h.paired _ row hrow) (h.kept _ row hrow) hcall p _ _

theorem good_update (h : Inv s) (t : ℕ) :
    Good size s (.update t) ↔ ∀ p row, s.tasks t = some p → s.rows p.userId = some row → p.Own row := by
  unfold Good
  cases htask : s.tasks t with
  | none =>
    rw [step, htask]
    exact iff_of_true h.paired fun p _ hp => absurd hp.symm (Option.some_ne_none p)
  | some p =>
    have hone : ∀ {P : Pairing → LLMPayloadCapture → Prop},
        (∀ q row, some p = some q → s.rows q.userId = some row → P q row) ↔ ∀ row, s.rows p.userId = some row → P p row :=
      ⟨fun h row => h p row rfl, fun h q row hq => by obtain rfl := Option.some.inj hq; exact h row⟩
    rw [hone]
    cases hrow : s.rows p.userId with
    | none =>
      rw [step, htask]
      simp only [hrow, Option.bind_none]
      exact iff_of_true h.paired fun row h => absurd h.symm (Option.some_ne_none row)
    | some row =>
      simp only [Option.some.injEq, forall_eq']
      cases hupdate : p.update row with
      | none =>
        rw [step, htask]
        simp only [hrow, Option.bind_some, hupdate]
        exact iff_of_true h.paired (own_of_missed hupdate)
      | some row' =>
        rw [step, htask]
        simp only [hrow, Option.bind_some, hupdate]
        have hrows := forall_rows_update p.userId (some row') h.paired
        simp only [Option.some.injEq, forall_eq'] at hrows
        exact hrows.trans (paired_update (h.paired _ row hrow) hupdate).1

theorem good_iff_fits (h : Inv s) (op : Op) : Good size s op ↔ Fits size s op := by
  cases op with
  | captureRequest call p consent capturedAt =>
    by_cases hcall : call ∈ s.calls
    · refine iff_of_true ?_ fun hnot => absurd hcall hnot
      unfold Good
      rw [step, if_pos hcall]
      exact h.paired
    · rw [good_captureRequest h hcall, Fits]
      simp only [hcall, not_false_eq_true, true_imp_iff]
  | captureResponse t call p capturedAt =>
    refine iff_of_true ?_ trivial
    unfold Good
    rw [step]
    split_ifs
    · exact h.paired
    · exact h.paired
  | update t => exact good_update h t
  | abandon t => exact iff_of_true h.paired trivial
  | purge userId => exact iff_of_true ((forall_rows_update _ _ h.paired).2 fun row h => absurd h.symm (Option.some_ne_none row)) trivial

theorem kept_step (h : Inv s) (op : Op) : ∀ userId row, (step size s op).rows userId = some row → Kept (step size s op).calls row := by
  cases op with
  | captureRequest call p consent capturedAt =>
    rw [step]
    split_ifs with hcall
    · exact h.kept
    · have hsub : s.calls ⊆ call :: s.calls := List.subset_cons_self _ _
      have hkept : ∀ u row, s.rows u = some row → Kept (call :: s.calls) row := fun u row hrow => (h.kept u row hrow).mono hsub
      refine (forall_rows_update _ _ hkept).2 fun row hrow => ?_
      rcases captureLlmRequest_cases size call p consent capturedAt (s.rows p.userId) with
        ⟨-, heq | heq⟩ | ⟨-, heq⟩
      · rw [heq] at hrow
        exact hkept _ row hrow
      · rw [heq] at hrow
        cases hrow
      · rw [heq] at hrow
        obtain rfl := Option.some.inj hrow
        cases hold : s.rows p.userId with
        | none => exact ⟨List.mem_cons_self, fun q h => absurd h.symm (Option.some_ne_none q)⟩
        | some old => exact kept_onConflict (h.kept _ old hold) hcall p _ _
  | captureResponse t call p capturedAt =>
    rw [step]
    split_ifs
    · exact h.kept
    · exact h.kept
  | update t =>
    rw [step]
    split
    · exact h.kept
    · rename_i p _
      split
      · rename_i row' hbind
        obtain ⟨row, hrow, hupdate⟩ := Option.bind_eq_some_iff.1 hbind
        refine (forall_rows_update _ _ h.kept).2 fun r hr => ?_
        obtain rfl := Option.some.inj hr
        obtain ⟨-, hcurrent, hprevious⟩ := paired_update (h.paired _ row hrow) hupdate
        have hkept := h.kept _ row hrow
        exact ⟨hcurrent ▸ hkept.current, by rw [hprevious, hcurrent]; exact hkept.previous⟩
      · exact h.kept
  | abandon t => exact h.kept
  | purge userId => exact (forall_rows_update _ _ h.kept).2 fun row h => absurd h.symm (Option.some_ne_none row)

theorem inv_step (h : Inv s) {op : Op} (hfits : Fits size s op) : Inv (step size s op) :=
  ⟨(good_iff_fits h op).2 hfits, kept_step h op⟩

end

/-- **A captured response answers its captured request.** Every row is paired in every state of a run exactly when requests
overwrite no response and responses find their own requests. -/
theorem response_answers_request (size : Dict Json → ℕ) (ops : List Op) :
    Meets (step size) (Good size) Sys.init ops ↔ Meets (step size) (Fits size) Sys.init ops :=
  meets_iff (fun _ op h => good_iff_fits h op) (fun _ _ h hfits => inv_step h hfits) inv_init

/-! ## Mismatched pairs -/

/-- a request of the agent loop, in an era -/
def request (requestId : String) (era : ℤ) : LLMRequestPayload :=
  ⟨1, purposeAgentMain, "u1".toList, none, some requestId.toList, [], [], 1024, .null, .null, [], .null, some era, []⟩

def response (requestId : String) : LLMResponsePayload :=
  ⟨1, purposeAgentMain, "u1".toList, none, some requestId.toList, [], [], [], none, none, none, none, none, [], []⟩

/-- the first call is captured, with its response -/
def answered : List Op :=
  [.captureRequest 0 (request "r0" 5) (some true) 0, .captureResponse 0 0 (response "r0") 1, .update 0]

/-- the next request of the era stands beside the response of the one before; so does the request of the next era; and a late
response is stored with a later round of its turn -/
theorem answers_another :
    ¬Meets (step fun _ => 0) (Good fun _ => 0) Sys.init (answered ++ [.captureRequest 1 (request "r1" 5) (some true) 2]) ∧
    ¬Meets (step fun _ => 0) (Good fun _ => 0) Sys.init (answered ++ [.captureRequest 1 (request "r1" 9) (some true) 2]) ∧
    ¬Meets (step fun _ => 0) (Good fun _ => 0) Sys.init
      [.captureRequest 0 (request "r0" 5) (some true) 0, .captureRequest 1 (request "r0" 5) (some true) 1,
        .captureResponse 0 0 (response "r0") 2, .update 0] := by
  have hpaired : ∀ {ops : List Op}, Meets (step fun _ => 0) (Good fun _ => 0) Sys.init ops →
      ∀ row, (run (step fun _ => 0) Sys.init ops).rows "u1".toList = some row → Paired row := fun h =>
    (run_inv (I := Inv) (fun _ op hinv hgood => inv_step hinv ((good_iff_fits hinv op).1 hgood)) h inv_init).paired _
  refine ⟨fun h => ?_, fun h => ?_, fun h => ?_⟩
  · exact absurd ((hpaired h _ rfl).current _ rfl) (by decide)
  · exact absurd ((hpaired h _ rfl).current _ rfl) (by decide)
  · exact absurd ((hpaired h _ rfl).current _ rfl) (by decide)

end Clawbolt.Capture

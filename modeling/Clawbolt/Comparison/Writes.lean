/-
What a candidate did about the writes of the live turn (services/model_comparison/report.py): for each write the best reading
of the candidate's calls to that tool, and for the turn the worst of them.

- `comparable_eq_iff`: two argument sets are compared up to the order of keys and the spelling of integral numbers;
- `mem_differingArguments`: the arguments that are named;
- `compareCalls_best`, `compareCalls_compared`: what the reading of a write is;
- `writes_compared`: the readings of a turn and its outcome;
- `null_unnamed`: a difference that is not named, and a silent turn.
-/
import Mathlib.Tactic
import Clawbolt.Core.Canonical
import Clawbolt.Comparison.Replay

namespace Clawbolt.Report

open Text (Str)
open Clawbolt.History (Args)
open Clawbolt.Checks (Env Tool acceptArgs canonicalArgs collectIds idProperties intText isMutatingCall strLe)
open Clawbolt.Replay (ModelCallResult RecordedToolResult ToolCall)

/-! ## Model -/

/-- `_validated` -/
def validated (env : Env) (tool : Tool) (args : Args) : Args :=
  match acceptArgs env tool args with
  | .error _ => args
  | .ok (_, model) => model

mutual

/-- `_number_spellings` -/
def numberSpellings : Json → Json
  | .int n => .str (intText n)
  | .float x => if x.den = 1 then .str (intText x.num) else .float x
  | .arr l => .arr (numberSpellingsItems l)
  | .obj d => .obj (numberSpellingsFields d)
  | v => v

def numberSpellingsItems : List Json → List Json
  | [] => []
  | v :: l => numberSpellings v :: numberSpellingsItems l

def numberSpellingsFields : List (Str × Json) → List (Str × Json)
  | [] => []
  | (k, v) :: d => (k, numberSpellings v) :: numberSpellingsFields d

end

/-- `comparable` -/
def comparable (env : Env) (args : Args) : Str := canonicalArgs env (numberSpellingsFields args)

/-- `key_arguments` -/
def keyArguments (env : Env) (tool : Tool) (args : Args) : Args := validated env tool args

/-- `grouped.setdefault(path, []).append(value)`, for all of them -/
def grouped (l : List (Str × Str)) : Dict (List Str) :=
  l.foldl (fun (grouped : Dict (List Str)) p => Dict.set p.1 ((grouped.lookup p.1).getD [] ++ [p.2]) grouped) []

/-- `record_ids` -/
def recordIds (env : Env) (tool : Tool) (args : Args) : Dict (List Str) :=
  Orders.sorted (Orders.onKey Prod.fst strLe)
    ((grouped (collectIds env (idProperties env tool.properties) [] args)).map fun kv => (kv.1, Orders.sorted strLe kv.2))

/-- whether a parameter differs; one that is absent counts as null -/
def differs (env : Env) (expected actual : Args) (name : Str) : Bool :=
  comparable env [("v".toList, (expected.lookup name).getD .null)] ≠
    comparable env [("v".toList, (actual.lookup name).getD .null)]

/-- `_differing_arguments` -/
def differingArguments (env : Env) (expected actual : Args) : List Str :=
  Orders.sorted strLe (((expected ++ actual).map Prod.fst).dedup.filter (differs env expected actual))

inductive WriteOutcome where
  | matched
  | sameRecordDifferentArgs
  | sameToolDifferentArgs
  | missed
  | notReached
  | notReplayed
deriving DecidableEq

/-- `_WRITE_RANK` -/
def WriteOutcome.rank : WriteOutcome → ℕ
  | .matched => 0
  | .sameRecordDifferentArgs => 1
  | .sameToolDifferentArgs => 2
  | .missed => 3
  | .notReached => 4
  | .notReplayed => 5

structure WriteComparison where
  toolName : Str
  outcome : WriteOutcome
  keyArguments : Args
  candidateArguments : Option Args := none
  recordIds : Dict (List Str)
  differingArguments : List Str := []

/-- how one call to the tool reads against a write -/
def callOutcome (env : Env) (tool : Tool) (expected : Args) (expectedIds : Dict (List Str)) (call : ToolCall) : WriteOutcome :=
  if comparable env (keyArguments env tool call.arguments) = comparable env expected then .matched
  else if expectedIds ≠ [] ∧ recordIds env tool call.arguments = expectedIds then .sameRecordDifferentArgs
  else .sameToolDifferentArgs

/-- the reading that one call gives -/
def readingOf (env : Env) (tool : Tool) (name : Str) (expected : Args) (expectedIds : Dict (List Str)) (call : ToolCall) :
    WriteComparison where
  toolName := name
  outcome := callOutcome env tool expected expectedIds call
  keyArguments := expected
  candidateArguments := some call.arguments
  recordIds := expectedIds
  differingArguments :=
    if callOutcome env tool expected expectedIds call = .matched then []
    else differingArguments env expected (keyArguments env tool call.arguments)

def better (reading best : WriteComparison) : WriteComparison :=
  if reading.outcome.rank < best.outcome.rank then reading else best

/-- the loop of `_compare_one_write`, with the best reading so far -/
def compareCalls (env : Env) (tool : Tool) (name : Str) (expected : Args) (expectedIds : Dict (List Str)) :
    List ToolCall → WriteComparison → WriteComparison
  | [], best => best
  | call :: calls, best =>
    if call.name ≠ name then compareCalls env tool name expected expectedIds calls best
    else
      let best := better (readingOf env tool name expected expectedIds call) best
      if callOutcome env tool expected expectedIds call = .matched then best
      else compareCalls env tool name expected expectedIds calls best

/-- `_compare_one_write` -/
def compareOneWrite (env : Env) (tool : Tool) (name : Str) (candidate : ModelCallResult) (expected : Args)
    (expectedIds : Dict (List Str)) : WriteComparison :=
  let reading (outcome : WriteOutcome) : WriteComparison :=
    { toolName := name, outcome, keyArguments := expected, recordIds := expectedIds }
  if candidate.error ≠ [] then reading .notReplayed
  else if candidate.hitReadRoundCap then reading .notReached
  else compareCalls env tool name expected expectedIds candidate.toolCalls (reading .missed)

/-- `production_writes`, with the tool of each -/
def productionWrites (toolsByName : Dict Tool) (productionToolCalls : List RecordedToolResult) :
    List (Tool × RecordedToolResult) :=
  productionToolCalls.filterMap fun call =>
    match toolsByName.lookup call.name with
    | none => none
    | some tool => if isMutatingCall tool call.arguments then some (tool, call) else none

/-- `compare_writes` -/
def compareWrites (env : Env) (toolsByName : Dict Tool) (productionToolCalls : List RecordedToolResult)
    (candidate : ModelCallResult) : List WriteComparison :=
  (productionWrites toolsByName productionToolCalls).map fun write =>
    compareOneWrite env write.1 write.2.name candidate (keyArguments env write.1 write.2.arguments)
      (recordIds env write.1 write.2.arguments)

inductive TurnOutcome where
  | notReplayed
  | noCandidateOutput
  | replayIncomplete
  | noWrite
  | writeMatched
  | writeSameRecord
  | writeArgsDiffer
  | writeMissed
deriving DecidableEq

/-- `ModelCallResult.produced_nothing` -/
def producedNothing (candidate : ModelCallResult) : Bool :=
  candidate.error = [] && candidate.toolCalls.isEmpty && Text.strip candidate.text = []

/-- `turn_outcome` -/
def turnOutcome (candidate : ModelCallResult) (writes : List WriteComparison) (productionActed : Bool) : TurnOutcome :=
  if candidate.error ≠ [] then .notReplayed
  else if candidate.hitReadRoundCap then .replayIncomplete
  else if productionActed && producedNothing candidate then .noCandidateOutput
  else if writes = [] then .noWrite
  else if WriteOutcome.missed ∈ writes.map (·.outcome) then .writeMissed
  else if WriteOutcome.sameToolDifferentArgs ∈ writes.map (·.outcome) then .writeArgsDiffer
  else if WriteOutcome.sameRecordDifferentArgs ∈ writes.map (·.outcome) then .writeSameRecord
  else .writeMatched

/-! ## What is claimed -/

/-- the same value, up to the order of keys and the spelling of integral numbers, at any depth -/
def Agree (v w : Json) : Prop := Json.eqv (numberSpellings v) (numberSpellings w) = true

/-- the same arguments after validation, or as given where they do not validate -/
def SameArgs (env : Env) (tool : Tool) (a b : Args) : Prop := Agree (.obj (validated env tool a)) (.obj (validated env tool b))

/-- the values of the record IDs at a place -/
def idsAt (env : Env) (tool : Tool) (args : Args) (path : Str) : List Str :=
  ((collectIds env (idProperties env tool.properties) [] args).filter fun p => p.1 = path).map Prod.snd

/-- both argument sets have a parameter, or neither has it, wherever one of them has it as null -/
def NullsShared (a b : Args) : Prop :=
  ∀ name, (a.lookup name = some .null → (b.lookup name).isSome = true) ∧
    (b.lookup name = some .null → (a.lookup name).isSome = true)

/-- what the reading of a write says of the candidate's calls to its tool -/
structure Compared (env : Env) (tool : Tool) (write : RecordedToolResult) (calls : List ToolCall) (c : WriteComparison) :
    Prop where
  matched : c.outcome = .matched ↔
    ∃ call ∈ calls, call.name = write.name ∧ SameArgs env tool call.arguments write.arguments
  missed : c.outcome = .missed ↔ ∀ call ∈ calls, call.name ≠ write.name
  explained : c.outcome ≠ .matched → c.outcome ≠ .missed →
    ∃ call ∈ calls, call.name = write.name ∧ c.candidateArguments = some call.arguments ∧
      (∀ name ∈ c.differingArguments,
        ¬ Agree (((validated env tool write.arguments).lookup name).getD .null)
          (((validated env tool call.arguments).lookup name).getD .null)) ∧
      (NullsShared (validated env tool write.arguments) (validated env tool call.arguments) → c.differingArguments ≠ [])
  sameRecord : c.outcome = .sameRecordDifferentArgs →
    ∃ call ∈ calls, call.name = write.name ∧ (∃ path, idsAt env tool write.arguments path ≠ []) ∧
      ∀ path, (idsAt env tool call.arguments path).Perm (idsAt env tool write.arguments path)
  outcome : c.outcome.rank ≤ 3

/-! ## The comparison of arguments -/

theorem numberSpellingsFields_eq (d : List (Str × Json)) :
    numberSpellingsFields d = d.map fun kv => (kv.1, numberSpellings kv.2) := by
  induction d with
  | nil => rfl
  | cons kv d ih => rw [numberSpellingsFields, List.map_cons, ih]

mutual

theorem settled_numberSpellings : ∀ v : Json, Json.Settled (numberSpellings v)
  | .null => trivial
  | .bool _ => trivial
  | .int _ => trivial
  | .float x => by
    rw [numberSpellings]
    split_ifs with h
    · trivial
    · exact h
  | .str _ => trivial
  | .arr l => settled_numberSpellingsItems l
  | .obj d => settled_numberSpellingsFields d

theorem settled_numberSpellingsItems : ∀ l : List Json, Json.SettledItems (numberSpellingsItems l)
  | [] => trivial
  | v :: l => ⟨settled_numberSpellings v, settled_numberSpellingsItems l⟩

theorem settled_numberSpellingsFields : ∀ d : List (Str × Json), Json.SettledFields (numberSpellingsFields d)
  | [] => trivial
  | (_, v) :: d => ⟨settled_numberSpellings v, settled_numberSpellingsFields d⟩

end

mutual

theorem wellFormed_numberSpellings : ∀ v : Json, Json.WellFormed v → Json.WellFormed (numberSpellings v)
  | .null, h => h
  | .bool _, h => h
  | .int _, _ => trivial
  | .float x, _ => by
    rw [numberSpellings]
    split_ifs <;> trivial
  | .str _, h => h
  | .arr l, h => wellFormed_numberSpellingsItems l h
  | .obj d, h => by
    rw [Json.WellFormed] at h
    refine ⟨?_, wellFormed_numberSpellingsFields d h.2⟩
    rw [numberSpellingsFields_eq, List.map_map]
    exact h.1

theorem wellFormed_numberSpellingsItems : ∀ l : List Json, Json.WellFormedList l →
    Json.WellFormedList (numberSpellingsItems l)
  | [], h => h
  | v :: l, h => ⟨wellFormed_numberSpellings v h.1, wellFormed_numberSpellingsItems l h.2⟩

theorem wellFormed_numberSpellingsFields : ∀ d : List (Str × Json), Json.WellFormedDict d →
    Json.WellFormedDict (numberSpellingsFields d)
  | [], h => h
  | (_, v) :: d, h => ⟨wellFormed_numberSpellings v h.1, wellFormed_numberSpellingsFields d h.2⟩

end

theorem keyOrder_strLe : Json.KeyOrder strLe := ⟨Checks.weak_strLe, fun _ _ => Checks.strLe_antisymm⟩

variable {env : Env} {tool : Tool} {name : Str} {expected actual : Args}

/-- **Arguments are compared** up to the order of keys and the spelling of integral numbers. -/
theorem comparable_eq_iff (hfloat : Json.FloatTexts env.floatText) {a b : Args} (ha : Json.WellFormed (.obj a))
    (hb : Json.WellFormed (.obj b)) : comparable env a = comparable env b ↔ Agree (.obj a) (.obj b) :=
  Json.dumps_eq_iff hfloat keyOrder_strLe (settled_numberSpellings (.obj a)) (settled_numberSpellings (.obj b))
    (wellFormed_numberSpellings _ ha) (wellFormed_numberSpellings _ hb)

theorem agree_singleton (k : Str) (v w : Json) : Agree (.obj [(k, v)]) (.obj [(k, w)]) ↔ Agree v w := by
  simp [Agree, numberSpellings, numberSpellingsFields, Json.eqv, Json.eqvDict]

theorem wellFormed_getD {args : Args} (h : Json.WellFormed (.obj args)) (name : Str) :
    Json.WellFormed ((args.lookup name).getD .null) := by
  cases hv : args.lookup name with
  | none => trivial
  | some v => exact Json.wellFormed_of_lookup h hv

theorem wellFormed_singleton {k : Str} {v : Json} (h : Json.WellFormed v) : Json.WellFormed (.obj [(k, v)]) :=
  ⟨List.nodup_singleton _, h, trivial⟩

theorem differs_iff (hfloat : Json.FloatTexts env.floatText) (he : Json.WellFormed (.obj expected))
    (ha : Json.WellFormed (.obj actual)) :
    differs env expected actual name = true ↔
      ¬ Agree ((expected.lookup name).getD .null) ((actual.lookup name).getD .null) := by
  rw [differs, decide_eq_true_eq, Ne, comparable_eq_iff hfloat (wellFormed_singleton (wellFormed_getD he name))
    (wellFormed_singleton (wellFormed_getD ha name)), agree_singleton]

theorem mem_keys_iff {α : Type} {d : Dict α} {k : Str} : k ∈ d.map Prod.fst ↔ (d.lookup k).isSome = true := by
  rw [List.lookup_isSome_iff, List.mem_map]
  exact exists_congr fun kv => and_congr_right fun _ => by rw [beq_iff_eq, eq_comm]

theorem mem_differingArguments : name ∈ differingArguments env expected actual ↔
    ((expected.lookup name).isSome = true ∨ (actual.lookup name).isSome = true) ∧ differs env expected actual name = true := by
  rw [differingArguments, (Orders.perm_sorted _ _).mem_iff, List.mem_filter, List.mem_dedup, List.map_append, List.mem_append,
    mem_keys_iff, mem_keys_iff]

theorem agree_null_iff {v : Json} : Agree v .null ↔ v = .null := by
  cases v with
  | float x =>
    rw [Agree, numberSpellings]
    split_ifs <;> simp [numberSpellings, Json.eqv, Json.number]
  | _ => simp [Agree, numberSpellings, Json.eqv, Json.number]

theorem null_agree_iff {v : Json} : Agree .null v ↔ v = .null := by
  cases v with
  | float x => simp [Agree, numberSpellings, Json.eqv, apply_ite]
  | _ => simp [Agree, numberSpellings, Json.eqv]

/-- arguments that differ at no parameter are the same, when none is null on one side and absent on the other -/
theorem agree_of_fields (he : Json.WellFormed (.obj expected)) (ha : Json.WellFormed (.obj actual))
    (hnulls : NullsShared expected actual)
    (hall : ∀ name, Agree ((expected.lookup name).getD .null) ((actual.lookup name).getD .null)) :
    Agree (.obj expected) (.obj actual) := by
  rw [Json.WellFormed] at he ha
  have hsame : ∀ name, (expected.lookup name).isSome = true ↔ (actual.lookup name).isSome = true := by
    intro name
    have hname := hall name
    cases hx : expected.lookup name with
    | none =>
      cases hy : actual.lookup name with
      | none => exact Iff.rfl
      | some w =>
        rw [hx, hy, Option.getD_none, Option.getD_some, null_agree_iff] at hname
        have hsome := (hnulls name).2 (hname ▸ hy)
        rw [hx] at hsome
        exact absurd hsome Bool.false_ne_true
    | some v =>
      cases hy : actual.lookup name with
      | none =>
        rw [hx, hy, Option.getD_none, Option.getD_some, agree_null_iff] at hname
        have hsome := (hnulls name).1 (hname ▸ hx)
        rw [hy] at hsome
        exact absurd hsome Bool.false_ne_true
      | some w => exact Iff.rfl
  have hkeys : (expected.map Prod.fst).Perm (actual.map Prod.fst) :=
    (List.perm_ext_iff_of_nodup he.1 ha.1).2 fun name => by rw [mem_keys_iff, mem_keys_iff, hsame name]
  rw [Agree, numberSpellings, numberSpellings, Json.eqv, Bool.and_eq_true, beq_iff_eq, Json.eqvDict_iff,
    numberSpellingsFields_eq, numberSpellingsFields_eq]
  refine ⟨by simpa using hkeys.length_eq, fun kv hkv => ?_⟩
  obtain ⟨⟨k, v⟩, hmem, rfl⟩ := List.mem_map.1 hkv
  have hv := Dict.lookup_of_mem he.1 hmem
  obtain ⟨w, hw⟩ := Option.isSome_iff_exists.1 ((hsame k).1 (by rw [hv]; rfl))
  have hagree := hall k
  rw [hv, hw] at hagree
  have hnodup : ((actual.map fun kv => (kv.1, numberSpellings kv.2)).map Prod.fst).Nodup := by
    rw [List.map_map]
    exact ha.1
  exact ⟨numberSpellings w, Dict.lookup_of_mem hnodup (List.mem_map.2 ⟨(k, w), Dict.mem_of_lookup hw, rfl⟩), hagree⟩

/-! ## Record IDs -/

theorem grouped_concat (l : List (Str × Str)) (p : Str × Str) :
    grouped (l ++ [p]) = Dict.set p.1 (((grouped l).lookup p.1).getD [] ++ [p.2]) (grouped l) := by
  rw [grouped, List.foldl_append]
  rfl

theorem nodup_grouped (l : List (Str × Str)) : ((grouped l).map Prod.fst).Nodup := by
  induction l using List.reverseRecOn with
  | nil => exact List.nodup_nil
  | append_singleton l p ih =>
    rw [grouped_concat]
    exact Dict.nodup_set ih _ _

/-- what stands under a key -/
theorem lookup_grouped (l : List (Str × Str)) (path : Str) :
    (grouped l).lookup path =
      if (l.filter fun p => p.1 = path) = [] then none else some ((l.filter fun p => p.1 = path).map Prod.snd) := by
  induction l using List.reverseRecOn with
  | nil => rfl
  | append_singleton l p ih =>
    rw [grouped_concat, Dict.lookup_set, List.filter_append]
    by_cases hp : p.1 = path
    · subst hp
      rw [if_pos rfl, ih, List.filter_cons_of_pos (by simp), List.filter_nil, if_neg (List.concat_ne_nil _ _), List.map_append]
      split_ifs with hnil
      · rw [hnil]
        rfl
      · rfl
    · rw [if_neg (Ne.symm hp), ih, List.filter_cons_of_neg (by simpa using hp), List.filter_nil, List.append_nil]

/-- the record IDs of a call, by place -/
theorem mem_recordIds {args : Args} {path : Str} {values : List Str} :
    (path, values) ∈ recordIds env tool args ↔ idsAt env tool args path ≠ [] ∧ values = Orders.sorted strLe (idsAt env tool args path) := by
  have hlookup := lookup_grouped (collectIds env (idProperties env tool.properties) [] args) path
  rw [recordIds, (Orders.perm_sorted _ _).mem_iff, List.mem_map]
  constructor
  · rintro ⟨⟨k, vs⟩, hmem, heq⟩
    obtain ⟨rfl, rfl⟩ := Prod.mk.inj heq
    have hk := Dict.lookup_of_mem (nodup_grouped _) hmem
    rw [hk] at hlookup
    split_ifs at hlookup with hnil
    exact ⟨fun h => hnil (List.map_eq_nil_iff.1 h), congrArg (Orders.sorted strLe) (Option.some.inj hlookup)⟩
  · rintro ⟨hne, rfl⟩
    rw [if_neg fun h => hne (by rw [idsAt, h]; rfl)] at hlookup
    exact ⟨_, Dict.mem_of_lookup hlookup, rfl⟩

/-- calls with the same record IDs have them at the same places -/
theorem idsAt_perm {a b : Args} (h : recordIds env tool a = recordIds env tool b) (path : Str) :
    (idsAt env tool a path).Perm (idsAt env tool b path) := by
  by_cases ha : idsAt env tool a path = []
  · by_cases hb : idsAt env tool b path = []
    · rw [ha, hb]
    · have hmem := mem_recordIds.2 ⟨hb, rfl⟩
      rw [← h] at hmem
      exact absurd ha (mem_recordIds.1 hmem).1
  · have hmem := mem_recordIds.2 ⟨ha, rfl⟩
    rw [h] at hmem
    have hsorted := (mem_recordIds.1 hmem).2
    exact (Orders.perm_sorted strLe _).symm.trans (hsorted ▸ Orders.perm_sorted strLe _)

theorem exists_idsAt {args : Args} (h : recordIds env tool args ≠ []) : ∃ path, idsAt env tool args path ≠ [] := by
  obtain ⟨⟨path, values⟩, hmem⟩ := List.exists_mem_of_ne_nil _ h
  exact ⟨path, (mem_recordIds.1 hmem).1⟩

/-! ## The reading of a write -/

theorem rank_injective {a b : WriteOutcome} (h : a.rank = b.rank) : a = b := by
  cases a <;> cases b <;> first | rfl | exact absurd h (by decide)

theorem callOutcome_rank (expectedIds : Dict (List Str)) (call : ToolCall) :
    (callOutcome env tool expected expectedIds call).rank ≤ 2 := by
  rw [callOutcome]
  split_ifs <;> decide

/-- the best of the readings so far and of those of the calls -/
structure Best (env : Env) (tool : Tool) (name : Str) (expected : Args) (expectedIds : Dict (List Str))
    (calls : List ToolCall) (best c : WriteComparison) : Prop where
  from_call : c = best ∨ ∃ call ∈ calls, call.name = name ∧ c = readingOf env tool name expected expectedIds call
  le_call : ∀ call ∈ calls, call.name = name → c.outcome.rank ≤ (callOutcome env tool expected expectedIds call).rank
  le_best : c.outcome.rank ≤ best.outcome.rank

theorem better_spec (reading best : WriteComparison) :
    (better reading best = best ∨ better reading best = reading) ∧
      (better reading best).outcome.rank ≤ reading.outcome.rank ∧ (better reading best).outcome.rank ≤ best.outcome.rank := by
  rw [better]
  split_ifs with hlt
  · exact ⟨.inr rfl, le_rfl, hlt.le⟩
  · exact ⟨.inl rfl, not_lt.1 hlt, le_rfl⟩

/-- **The reading of a write** is the best one. -/
theorem compareCalls_best (expectedIds : Dict (List Str)) (calls : List ToolCall) (best : WriteComparison) :
    Best env tool name expected expectedIds calls best (compareCalls env tool name expected expectedIds calls best) := by
  induction calls generalizing best with
  | nil => exact ⟨.inl rfl, fun call hcall => absurd hcall List.not_mem_nil, le_rfl⟩
  | cons call calls ih =>
    by_cases hname : call.name = name
    · obtain ⟨hfrom, hcall, hbest⟩ := better_spec (readingOf env tool name expected expectedIds call) best
      rw [compareCalls, if_neg (not_not_intro hname)]
      by_cases hmatched : callOutcome env tool expected expectedIds call = .matched
      · -- nothing is better than a match
        simp only [hmatched, if_true]
        have hzero : (better (readingOf env tool name expected expectedIds call) best).outcome.rank = 0 :=
          Nat.le_zero.1 (hcall.trans (by rw [readingOf, hmatched]; exact le_rfl))
        exact ⟨hfrom.imp id fun h => ⟨call, List.mem_cons_self, hname, h⟩, fun c _ _ => hzero ▸ Nat.zero_le _, hbest⟩
      · simp only [hmatched, if_false]
        have hrest := ih (better (readingOf env tool name expected expectedIds call) best)
        refine ⟨?_, fun c hc hcname => ?_, hrest.le_best.trans hbest⟩
        · obtain h | ⟨c, hc, hcname, h⟩ := hrest.from_call
          · exact hfrom.imp h.trans fun hread => ⟨call, List.mem_cons_self, hname, h.trans hread⟩
          · exact .inr ⟨c, List.mem_cons_of_mem _ hc, hcname, h⟩
        · obtain rfl | hc := List.mem_cons.1 hc
          · exact hrest.le_best.trans hcall
          · exact hrest.le_call c hc hcname
    · have hrest := ih best
      rw [compareCalls, if_pos hname]
      refine ⟨hrest.from_call.imp id ?_, fun c hc hcname => ?_, hrest.le_best⟩
      · rintro ⟨c, hc, hread⟩
        exact ⟨c, List.mem_cons_of_mem _ hc, hread⟩
      · obtain rfl | hc := List.mem_cons.1 hc
        · exact absurd hcname hname
        · exact hrest.le_call c hc hcname

/-- the models that a tool validates to have no key twice -/
def Dumps (tool : Tool) : Prop := ∀ args model, tool.validate args = .ok model → Json.WellFormed (.obj model)

theorem wellFormed_validated (env : Env) (hdumps : Dumps tool) {args : Args} (h : Json.WellFormed (.obj args)) :
    Json.WellFormed (.obj (validated env tool args)) := by
  rw [validated]
  cases haccept : acceptArgs env tool args with
  | error errors => exact h
  | ok accepted =>
    rw [acceptArgs] at haccept
    cases hvalid : tool.validate args with
    | ok model =>
      rw [hvalid] at haccept
      obtain rfl := Except.ok.inj haccept
      exact hdumps args model hvalid
    | error errors =>
      rw [hvalid] at haccept
      dsimp only at haccept
      cases hcoerced : Checks.stringifyNumbers env args errors with
      | none =>
        rw [hcoerced] at haccept
        exact absurd haccept (by simp)
      | some coerced =>
        rw [hcoerced] at haccept
        dsimp only at haccept
        cases hagain : tool.validate coerced with
        | error errors =>
          rw [hagain] at haccept
          exact absurd haccept (by simp [Except.map])
        | ok model =>
          rw [hagain] at haccept
          obtain rfl := Except.ok.inj haccept
          exact hdumps coerced model hagain

section Reading

variable {write : RecordedToolResult} {calls : List ToolCall} (hfloat : Json.FloatTexts env.floatText) (hdumps : Dumps tool)
  (hwrite : Json.WellFormed (.obj write.arguments))
include hfloat hdumps hwrite

theorem callOutcome_matched {call : ToolCall} (hcall : Json.WellFormed (.obj call.arguments)) :
    callOutcome env tool (keyArguments env tool write.arguments) (recordIds env tool write.arguments) call = .matched ↔
      SameArgs env tool call.arguments write.arguments := by
  rw [SameArgs, ← comparable_eq_iff hfloat (wellFormed_validated env hdumps hcall) (wellFormed_validated env hdumps hwrite), callOutcome]
  split_ifs with heq
  · exact iff_of_true rfl heq
  · exact iff_of_false id heq
  · exact iff_of_false id heq

/-- the arguments that a reading names differ, and there are some unless it is for a null -/
theorem differing_explained {call : ToolCall} (hcall : Json.WellFormed (.obj call.arguments))
    (hdiffers : ¬ SameArgs env tool call.arguments write.arguments) :
    (∀ name ∈ differingArguments env (keyArguments env tool write.arguments) (keyArguments env tool call.arguments),
      ¬ Agree (((validated env tool write.arguments).lookup name).getD .null)
        (((validated env tool call.arguments).lookup name).getD .null)) ∧
      (NullsShared (validated env tool write.arguments) (validated env tool call.arguments) →
        differingArguments env (keyArguments env tool write.arguments) (keyArguments env tool call.arguments) ≠ []) := by
  have he := wellFormed_validated env hdumps hwrite
  have ha := wellFormed_validated env hdumps hcall
  refine ⟨fun name hname => (differs_iff hfloat he ha).1 (mem_differingArguments.1 hname).2, fun hnulls hnil => ?_⟩
  refine hdiffers ?_
  rw [SameArgs, ← comparable_eq_iff hfloat ha he, eq_comm, comparable_eq_iff hfloat he ha]
  refine agree_of_fields he ha hnulls fun name => ?_
  by_contra hnot
  have hname : name ∉ differingArguments env (validated env tool write.arguments) (validated env tool call.arguments) := by
    rw [show differingArguments env (validated env tool write.arguments) (validated env tool call.arguments) = [] from hnil]
    exact List.not_mem_nil
  rw [mem_differingArguments, not_and_or, not_or] at hname
  obtain ⟨hnone, hnone'⟩ | hsame := hname
  · rw [Bool.not_eq_true, Option.isSome_eq_false_iff, Option.isNone_iff_eq_none] at hnone hnone'
    rw [hnone, hnone'] at hnot
    exact hnot (agree_null_iff.2 rfl)
  · exact hsame ((differs_iff hfloat he ha).2 hnot)

/-- **A reading explains itself.** -/
theorem compareCalls_compared (hcalls : ∀ call ∈ calls, Json.WellFormed (.obj call.arguments)) (c : WriteComparison)
    (hbest : Best env tool write.name (keyArguments env tool write.arguments) (recordIds env tool write.arguments) calls
      ⟨write.name, .missed, keyArguments env tool write.arguments, none, recordIds env tool write.arguments, []⟩ c) :
    Compared env tool write calls c where
  matched := by
    constructor
    · intro h
      obtain rfl | ⟨call, hcall, hname, rfl⟩ := hbest.from_call
      · exact absurd h WriteOutcome.noConfusion
      · exact ⟨call, hcall, hname, (callOutcome_matched hfloat hdumps hwrite (hcalls call hcall)).1 h⟩
    · rintro ⟨call, hcall, hname, hsame⟩
      have hle := hbest.le_call call hcall hname
      rw [(callOutcome_matched hfloat hdumps hwrite (hcalls call hcall)).2 hsame] at hle
      exact rank_injective (Nat.le_zero.1 hle)
  missed := by
    constructor
    · intro h call hcall hname
      have hle := (hbest.le_call call hcall hname).trans (callOutcome_rank _ _)
      rw [h] at hle
      exact absurd hle (by decide)
    · intro h
      obtain rfl | ⟨call, hcall, hname, -⟩ := hbest.from_call
      · rfl
      · exact absurd hname (h call hcall)
  explained := by
    intro hmatched hmissed
    obtain rfl | ⟨call, hcall, hname, rfl⟩ := hbest.from_call
    · exact absurd rfl hmissed
    · have hdiffers : ¬ SameArgs env tool call.arguments write.arguments := fun hsame =>
        hmatched ((callOutcome_matched hfloat hdumps hwrite (hcalls call hcall)).2 hsame)
      refine ⟨call, hcall, hname, rfl, ?_⟩
      have hnot : callOutcome env tool (keyArguments env tool write.arguments) (recordIds env tool write.arguments) call ≠
        .matched := hmatched
      rw [readingOf, if_neg hnot]
      exact differing_explained hfloat hdumps hwrite (hcalls call hcall) hdiffers
  sameRecord := by
    intro h
    obtain rfl | ⟨call, hcall, hname, rfl⟩ := hbest.from_call
    · exact absurd h WriteOutcome.noConfusion
    · have houtcome : callOutcome env tool (keyArguments env tool write.arguments) (recordIds env tool write.arguments) call =
        .sameRecordDifferentArgs := h
      rw [callOutcome] at houtcome
      split_ifs at houtcome with hmatched hids
      exact ⟨call, hcall, hname, exists_idsAt hids.1, idsAt_perm hids.2⟩
  outcome := hbest.le_best

end Reading

/-! ## The turn -/

/-- the outcome of a turn whose worst write has this outcome -/
def TurnOutcome.ofWrite : WriteOutcome → TurnOutcome
  | .matched => .writeMatched
  | .sameRecordDifferentArgs => .writeSameRecord
  | .sameToolDifferentArgs => .writeArgsDiffer
  | .missed => .writeMissed
  | .notReached => .replayIncomplete
  | .notReplayed => .notReplayed

/-- the outcome of a turn that was replayed to its end: silence first, and else the worst of its writes -/
structure TurnRead (candidate : ModelCallResult) (writes : List WriteComparison) (productionActed : Bool) (turn : TurnOutcome) :
    Prop where
  silent : productionActed = true → producedNothing candidate = true → turn = .noCandidateOutput
  none : (productionActed && producedNothing candidate) = false → writes = [] → turn = .noWrite
  worst : (productionActed && producedNothing candidate) = false → ∀ w ∈ writes,
    (∀ w' ∈ writes, w'.outcome.rank ≤ w.outcome.rank) → turn = .ofWrite w.outcome

theorem turnOutcome_read {candidate : ModelCallResult} {writes : List WriteComparison} (herror : candidate.error = [])
    (hcap : candidate.hitReadRoundCap = false) (hwrites : ∀ w ∈ writes, w.outcome.rank ≤ 3) (productionActed : Bool) :
    TurnRead candidate writes productionActed (turnOutcome candidate writes productionActed) := by
  have hstart : turnOutcome candidate writes productionActed =
      if productionActed && producedNothing candidate then .noCandidateOutput
      else if writes = [] then .noWrite
      else if WriteOutcome.missed ∈ writes.map (·.outcome) then .writeMissed
      else if WriteOutcome.sameToolDifferentArgs ∈ writes.map (·.outcome) then .writeArgsDiffer
      else if WriteOutcome.sameRecordDifferentArgs ∈ writes.map (·.outcome) then .writeSameRecord
      else .writeMatched := by
    rw [turnOutcome, if_neg (not_not_intro herror), hcap]
    rfl
  rw [hstart]
  refine ⟨fun hacted hsilent => ?_, fun hnot hnil => ?_, fun hnot w hw hworst => ?_⟩
  · rw [hacted, hsilent]
    rfl
  · rw [hnot, if_pos hnil]
    rfl
  · have hmem : w.outcome ∈ writes.map (·.outcome) := List.mem_map_of_mem hw
    have hbelow : ∀ outcome : WriteOutcome, w.outcome.rank < outcome.rank → outcome ∉ writes.map (·.outcome) := by
      intro outcome hlt hin
      obtain ⟨w', hw', rfl⟩ := List.mem_map.1 hin
      exact absurd (hworst w' hw') (not_le.2 hlt)
    have hne : writes ≠ [] := List.ne_nil_of_mem hw
    have hle := hwrites w hw
    rw [hnot]
    cases houtcome : w.outcome with
    | missed =>
      rw [houtcome] at hmem
      simp [hne, hmem, TurnOutcome.ofWrite]
    | sameToolDifferentArgs =>
      rw [houtcome] at hmem hbelow
      simp [hne, hmem, hbelow .missed (by decide), TurnOutcome.ofWrite]
    | sameRecordDifferentArgs =>
      rw [houtcome] at hmem hbelow
      simp [hne, hmem, hbelow .missed (by decide), hbelow .sameToolDifferentArgs (by decide), TurnOutcome.ofWrite]
    | matched =>
      rw [houtcome] at hbelow
      simp [hne, hbelow .missed (by decide), hbelow .sameToolDifferentArgs (by decide),
        hbelow .sameRecordDifferentArgs (by decide), TurnOutcome.ofWrite]
    | notReached =>
      rw [houtcome] at hle
      exact absurd hle (by decide)
    | notReplayed =>
      rw [houtcome] at hle
      exact absurd hle (by decide)

variable {toolsByName : Dict Tool} {production : List RecordedToolResult} {candidate : ModelCallResult}

theorem mem_productionWrites {write : Tool × RecordedToolResult} (h : write ∈ productionWrites toolsByName production) :
    toolsByName.lookup write.2.name = some write.1 ∧ write.2 ∈ production := by
  obtain ⟨call, hcall, hread⟩ := List.mem_filterMap.1 h
  cases htool : toolsByName.lookup call.name with
  | none =>
    rw [htool] at hread
    exact absurd hread (by simp)
  | some tool =>
    rw [htool] at hread
    dsimp only at hread
    split_ifs at hread
    obtain rfl := Option.some.inj hread
    exact ⟨htool, hcall⟩

theorem compareOneWrite_best (herror : candidate.error = []) (hcap : candidate.hitReadRoundCap = false)
    (expectedIds : Dict (List Str)) :
    Best env tool name expected expectedIds candidate.toolCalls ⟨name, .missed, expected, none, expectedIds, []⟩
      (compareOneWrite env tool name candidate expected expectedIds) := by
  rw [compareOneWrite, if_neg (not_not_intro herror), hcap]
  exact compareCalls_best expectedIds candidate.toolCalls _

/-- the best readings of the same calls in another order have one outcome -/
theorem Best.outcome_eq {expectedIds : Dict (List Str)} {calls calls' : List ToolCall} {best c c' : WriteComparison}
    (h : Best env tool name expected expectedIds calls best c) (h' : Best env tool name expected expectedIds calls' best c')
    (hperm : calls.Perm calls') : c.outcome = c'.outcome := by
  refine rank_injective (le_antisymm ?_ ?_)
  · obtain rfl | ⟨call, hcall, hname, rfl⟩ := h'.from_call
    · exact h.le_best
    · exact h.le_call call (hperm.mem_iff.2 hcall) hname
  · obtain rfl | ⟨call, hcall, hname, rfl⟩ := h.from_call
    · exact h'.le_best
    · exact h'.le_call call (hperm.mem_iff.1 hcall) hname

/-- **Writes.** For a replay without an error that did not hit the cap, the readings of the writes that production made explain
themselves, their outcomes do not depend on the order of the candidate's calls, and the outcome of the turn is that of the
worst of them. -/
theorem writes_compared (hfloat : Json.FloatTexts env.floatText)
    (hdumps : ∀ name tool, toolsByName.lookup name = some tool → Dumps tool)
    (hproduction : ∀ write ∈ production, Json.WellFormed (.obj write.arguments))
    (hcalls : ∀ call ∈ candidate.toolCalls, Json.WellFormed (.obj call.arguments)) (herror : candidate.error = [])
    (hcap : candidate.hitReadRoundCap = false) :
    List.Forall₂ (fun write c => Compared env write.1 write.2 candidate.toolCalls c) (productionWrites toolsByName production)
        (compareWrites env toolsByName production candidate) ∧
      (∀ calls, calls.Perm candidate.toolCalls →
        (compareWrites env toolsByName production { candidate with toolCalls := calls }).map (·.outcome) =
          (compareWrites env toolsByName production candidate).map (·.outcome)) ∧
      ∀ productionActed, TurnRead candidate (compareWrites env toolsByName production candidate) productionActed
        (turnOutcome candidate (compareWrites env toolsByName production candidate) productionActed) := by
  have hcompared : ∀ write ∈ productionWrites toolsByName production, Compared env write.1 write.2 candidate.toolCalls
      (compareOneWrite env write.1 write.2.name candidate (keyArguments env write.1 write.2.arguments)
        (recordIds env write.1 write.2.arguments)) := by
    intro write hwrite
    obtain ⟨htool, hmem⟩ := mem_productionWrites hwrite
    exact compareCalls_compared hfloat (hdumps _ _ htool) (hproduction _ hmem) hcalls _ (compareOneWrite_best herror hcap _)
  refine ⟨?_, fun calls hperm => ?_, turnOutcome_read herror hcap fun w hw => ?_⟩
  · rw [compareWrites, List.forall₂_map_right_iff, List.forall₂_same]
    exact hcompared
  · rw [compareWrites, compareWrites, List.map_map, List.map_map]
    refine List.map_congr_left fun write _ => ?_
    have hbest := @compareOneWrite_best env write.1 write.2.name (keyArguments env write.1 write.2.arguments)
      { candidate with toolCalls := calls } herror hcap (recordIds env write.1 write.2.arguments)
    exact hbest.outcome_eq (compareOneWrite_best herror hcap _) hperm
  · obtain ⟨write, hwrite, rfl⟩ := List.mem_map.1 hw
    exact (hcompared write hwrite).outcome

/-- as many ones as the number of the float says, and one more -/
def counting : Env := { Checks.plain with floatText := fun x => List.replicate (Encodable.encode x + 1) '1' }

theorem floatTexts_counting : Json.FloatTexts counting.floatText where
  nonempty x := by simp [counting]
  numeric x c hc := by
    rw [List.eq_of_mem_replicate hc]
    decide
  injective x y h := by
    have hlength := congrArg List.length h
    simp only [counting, List.length_replicate, Nat.add_right_cancel_iff] at hlength
    exact Encodable.encode_injective hlength

/-- a tool with two texts for its parameters -/
def addNote : Tool where
  tags := []
  properties := some [("work_order_id".toList, []), ("body".toList, [])]
  validate args :=
    let wrong (k : Str) : List Checks.ErrorDetails :=
      match args.lookup k with
      | some (.str _) => []
      | v => [⟨"string_type".toList, [.key k], "Input should be a valid string".toList, v.getD .null⟩]
    match args.lookup "work_order_id".toList, args.lookup "body".toList with
    | some (.str workOrder), some (.str body) =>
      .ok [("work_order_id".toList, .str workOrder), ("body".toList, .str body)]
    | _, _ => .error (wrong "work_order_id".toList ++ wrong "body".toList)
  readOnlyWhen := none
  precheck := none

theorem dumps_addNote : Dumps addNote := by
  intro args model h
  simp only [addNote] at h
  split at h
  · obtain rfl := Except.ok.inj h
    refine ⟨?_, trivial, trivial, trivial⟩
    show ["work_order_id".toList, "body".toList].Nodup
    decide
  · exact absurd h (by simp)

/-- the note of the live turn -/
def noted : RecordedToolResult :=
  ⟨"add_note".toList, [("work_order_id".toList, .str "118600".toList), ("body".toList, .str "done".toList)], [], false⟩

/-- the candidate gives the number of the work order as a number, and other words -/
def rephrased : ModelCallResult where
  toolCalls := [⟨"add_note".toList, [("work_order_id".toList, .int 118600), ("body".toList, .str "finished".toList)], []⟩]

theorem writes_compared_rephrased :
    ((compareWrites counting [("add_note".toList, addNote)] [noted] rephrased).map fun c =>
      (c.outcome, c.differingArguments)) = [(.sameRecordDifferentArgs, ["body".toList])] ∧
    List.Forall₂ (fun write c => Compared counting write.1 write.2 rephrased.toolCalls c)
      (productionWrites [("add_note".toList, addNote)] [noted])
      (compareWrites counting [("add_note".toList, addNote)] [noted] rephrased) := by
  refine ⟨by decide +kernel, (writes_compared floatTexts_counting ?_ ?_ ?_ rfl rfl).1⟩
  · intro name tool htool
    obtain ⟨-, rfl⟩ := Prod.mk.inj (List.mem_singleton.1 (Dict.mem_of_lookup htool))
    exact dumps_addNote
  · intro write hwrite
    obtain rfl := List.mem_singleton.1 hwrite
    exact ⟨by decide, trivial, trivial, trivial⟩
  · intro call hcall
    obtain rfl := List.mem_singleton.1 hcall
    exact ⟨by decide, trivial, trivial, trivial⟩

/-- a tool that takes no arguments at all -/
def refusing : Tool := { addNote with validate := fun _ => .error [] }

/-- A null that is absent from the other call is not named, and a candidate that did nothing is not said to have missed the
write. -/
theorem null_unnamed :
    ((compareWrites counting [("add_note".toList, refusing)] [⟨"add_note".toList, [("body".toList, .null)], [], false⟩]
      { toolCalls := [⟨"add_note".toList, [], []⟩] }).map fun c => (c.outcome, c.differingArguments)) =
        [(.sameToolDifferentArgs, [])] ∧
    ((compareWrites counting [("add_note".toList, addNote)] [noted] {}).map (·.outcome) = [.missed] ∧
      turnOutcome {} (compareWrites counting [("add_note".toList, addNote)] [noted] {}) true = .noCandidateOutput) := by
  decide +kernel

end Clawbolt.Report

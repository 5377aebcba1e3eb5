/-
The writers of one user's permissions row, side by side (`_save`, `ensure_complete` and `set_permission` of
agent/approval.py, `_permissions_write` and `_permissions_edit` of agent/tools/workspace_tools.py, and the page of
routers/user_permissions.py), split at every await.

Each write takes the advisory lock of the user, reads the row and commits; a commit or a rollback gives the lock back.
`ensure_complete` reads the row in a transaction of its own before that, and saves what it read with the defaults filled in.
The lock excludes, and a read sees what is committed. `Write` is what an operation alone does to the row.

- `step_sound`: the row is what the completed operations make of it, one after the other;
- `no_change_lost`: a run loses no change, if every save of `ensure_complete` is the backfill of the row it replaces;
- `never_forgotten`: a never that is set between the read and the save of a backfill.
-/
import Mathlib.Tactic
import Clawbolt.Core.Register
import Clawbolt.Approval.StoredPermissions

namespace Clawbolt.Approval.Writers

open Text (Str)

/-! ## Model -/

inductive Op where
  /-- `set_permission`, `ensure_complete`, `_permissions_write` or `_permissions_edit` -/
  | single (w : Write)
  /-- the page: `_save` of an object -/
  | replace (data : Permissions)

def Op.isEnsureComplete : Op → Bool
  | .single .ensureComplete => true
  | _ => false

/-- where an operation stands -/
inductive At where
  | begun
  /-- before the lock, with the data that `ensure_complete` saves -/
  | filled (data : Permissions)
  /-- in the transaction, before it reads the row, and before it commits; what it saves, when it has read it before -/
  | locked (saving : Option Permissions)
  | read (saving : Option Permissions) (row : Row)
  | done

structure Task where
  op : Op
  began : ℕ
  at_ : At

/-- a completed operation, with the clock when it began and when it ended -/
structure Completed where
  op : Op
  began : ℕ
  ended : ℕ

structure Sys where
  row : Row
  /-- the task that holds the advisory lock -/
  lock : Option ℕ := none
  tasks : List Task := []
  clock : ℕ := 0
  /-- the completed operations, in the order in which they ended -/
  log : List Completed := []

def Sys.put (s : Sys) (i : ℕ) (t : Task) (at_ : At) : Sys := { s with tasks := s.tasks.set i { t with at_ := at_ } }

def Sys.finish (s : Sys) (i : ℕ) (t : Task) : Sys :=
  { s.put i t .done with log := s.log ++ [⟨t.op, t.began, s.clock⟩] }

/-- `_lock_user_permissions`, if the lock is free -/
def Sys.take (s : Sys) (i : ℕ) (t : Task) (saving : Option Permissions) : Sys :=
  if s.lock = none then { s.put i t (.locked saving) with lock := some i } else s

inductive Event where
  | start (op : Op)
  /-- the operation with this number goes on -/
  | go (i : ℕ)

section

variable (loads : Str → Option Json) (dumps : Json → Str) (defaults : Dict Str)

/-- what an operation alone makes of the row -/
def Op.effect (row : Row) : Op → Row
  | .single w => write loads dumps defaults row w
  | .replace data => some (.json (.obj data))

/-- an operation up to its next await -/
def taskStep (s : Sys) (i : ℕ) (t : Task) : Sys :=
  match t.at_ with
  | .begun =>
    if t.op.isEnsureComplete then
      match ensureComplete defaults (parseRowData s.row) with
      | none => s.finish i t
      | some data => if data = parseRowData s.row then s.finish i t else s.put i t (.filled data)
    else s.take i t none
  | .filled data => s.take i t (some data)
  | .locked saving => s.put i t (.read saving s.row)
  | .read saving row =>
    { s with
      row := saving.elim (t.op.effect loads dumps defaults row) fun data => some (.json (.obj data))
      lock := none }.finish i t
  | .done => s

def step (s : Sys) (event : Event) : Sys :=
  let s' : Sys :=
    match event with
    | .start op => { s with tasks := s.tasks ++ [⟨op, s.clock, .begun⟩] }
    | .go i => (s.tasks[i]?).elim s fun t => taskStep loads dumps defaults s i t
  { s' with clock := s.clock + 1 }

/-! ## What is claimed -/

/-- some order of the completed operations that respects their real-time order makes the row of the first one -/
def Explained (first : Row) (s : Sys) : Prop :=
  ∃ order : List Completed, order.Perm s.log ∧ order.Pairwise (fun a b => a.began < b.ended) ∧
    Register.replay (fun op row => some (Op.effect loads dumps defaults row op)) first (order.map Completed.op) = some s.row

/-- it sets the level of the tool, or may write the whole file -/
def Op.Names (tool : Str) : Op → Prop
  | .single (.setPermission t _ none) => t = tool
  | .single (.setPermission _ _ (some _)) => False
  | .single .ensureComplete => False
  | .single (.writeFile _) => True
  | .single (.editFile _ _) => True
  | .replace _ => True

/-- a level of a tool that a step changes is changed by an operation that names the tool, and is completed by the step -/
def KeepsLevels (s s' : Sys) : Prop :=
  ∀ tool v, toolEntry (parseRowData s.row) tool = some v → toolEntry (parseRowData s'.row) tool = some v ∨
    ∃ c : Completed, s'.log = s.log ++ [c] ∧ c.op.Names tool

/-- a save of `ensure_complete` is the backfill of the row that it replaces -/
def Guarded (s : Sys) : Event → Prop
  | .start _ => True
  | .go i =>
    (s.tasks[i]?).elim True fun t =>
      match t.at_ with
      | .read (some data) _ => write loads dumps defaults s.row .ensureComplete = some (.json (.obj data))
      | _ => True

end

/-! ## Levels -/

theorem complete_entry {e : Str × Str} {data data' : Permissions} (h : complete e data = some data') {tool : Str} {v : Json}
    (hv : toolEntry data tool = some v) : toolEntry data' tool = some v := by
  obtain ⟨tools, htools, hlookup⟩ := tools_of_entry hv
  unfold complete at h
  rw [htools] at h
  split at h
  · obtain rfl := Option.some.inj h
    exact hv
  · rename_i hmissing
    rw [updateAt_isSome (f := fun tools => some (Dict.set e.1 (.str e.2) tools)) htools rfl] at h
    obtain rfl := Option.some.inj h
    rw [toolEntry_set, Dict.lookup_set]
    split_ifs with heq
    · -- the tool is there
      have hhas : Dict.has tool tools = true := by rw [Dict.has, hlookup]; rfl
      have hnot : Dict.has e.1 tools = false := by
        simpa [contains] using hmissing
      rw [← heq, hhas] at hnot
      cases hnot
    · exact hlookup
  · cases h

/-- a backfill keeps the levels that are there -/
theorem ensureComplete_entry {defaults : Dict Str} {data data' : Permissions} (h : ensureComplete defaults data = some data')
    {tool : Str} {v : Json} (hv : toolEntry data tool = some v) : toolEntry data' tool = some v := by
  induction defaults generalizing data with
  | nil =>
    obtain rfl := Option.some.inj h
    exact hv
  | cons e defaults ih =>
    obtain ⟨mid, hmid, hrest⟩ := Option.bind_eq_some_iff.1 h
    exact ih hrest (complete_entry hmid hv)

variable {loads : Str → Option Json} {dumps : Json → Str} {defaults : Dict Str}

/-- an operation alone changes the level of a tool only if it names it -/
theorem effect_entry {row : Row} {op : Op} {tool : Str} {v : Json} (hv : toolEntry (parseRowData row) tool = some v) :
    toolEntry (parseRowData (op.effect loads dumps defaults row)) tool = some v ∨ op.Names tool := by
  cases op with
  | replace data => exact .inr trivial
  | single w =>
    cases w with
    | writeFile content => exact .inr trivial
    | editFile old new => exact .inr trivial
    | setPermission t level resource =>
      by_cases hnames : (tool, none) = (t, resource)
      · obtain ⟨rfl, rfl⟩ := Prod.mk.inj hnames
        exact .inr rfl
      · refine .inl ?_
        simp only [Op.effect, write]
        split
        · rename_i data hset
          exact (setPermission_keeps hset).tools tool v hnames hv
        · exact hv
    | ensureComplete =>
      refine .inl ?_
      simp only [Op.effect, write]
      split
      · rename_i data hfill
        split_ifs
        · exact hv
        · exact ensureComplete_entry hfill hv
      · exact hv

/-! ## The invariant -/

def At.holds : At → Bool
  | .locked _ => true
  | .read _ _ => true
  | _ => false

/-- what it saves, when it has read it before -/
def At.saves : At → Option Permissions
  | .filled data => some data
  | .locked saving => saving
  | .read saving _ => saving
  | _ => none

structure TaskSound (s : Sys) (i : ℕ) (t : Task) : Prop where
  began : t.began ≤ s.clock
  lock : t.at_.holds = true → s.lock = some i
  fresh : ∀ saving row, t.at_ = .read saving row → row = s.row
  ensures : ∀ data, t.at_.saves = some data → t.op = .single .ensureComplete

structure Sound (loads : Str → Option Json) (dumps : Json → Str) (defaults : Dict Str) (first : Row) (s : Sys) :
    Prop where
  tasks : ∀ i t, s.tasks[i]? = some t → TaskSound s i t
  commits : Register.Commits (fun op row => some (Op.effect loads dumps defaults row op)) first (s.log.map Completed.op) s.row
  ended : ∀ c ∈ s.log, c.began ≤ c.ended ∧ c.ended < s.clock
  sorted : s.log.Pairwise fun a b => a.ended < b.ended

variable {first : Row} {s : Sys} {i : ℕ} {t : Task}

/-- the order in which the operations ended respects their real-time order -/
theorem Sound.explained (h : Sound loads dumps defaults first s) : Explained loads dumps defaults first s := by
  refine ⟨s.log, .refl _, ?_, h.commits⟩
  refine h.sorted.imp_of_mem ?_
  intro a b ha _ hlt
  exact lt_of_le_of_lt (h.ended a ha).1 hlt

/-- the tasks after one of them moved -/
theorem tasks_put {at_ : At} {s' : Sys} (h : Sound loads dumps defaults first s)
    (htasks : s'.tasks = s.tasks.set i { t with at_ := at_ }) (hclock : s.clock ≤ s'.clock)
    (hothers : ∀ j u, s.tasks[j]? = some u → j ≠ i → u.at_.holds = true → s'.lock = s.lock ∧ s'.row = s.row)
    (hown : TaskSound s' i { t with at_ := at_ }) : ∀ j u, s'.tasks[j]? = some u → TaskSound s' j u := by
  intro j u hu
  rw [htasks, List.getElem?_set] at hu
  split at hu
  next heq =>
    subst heq
    split at hu
    · obtain rfl := Option.some.inj hu
      exact hown
    · cases hu
  next hne =>
    have hold := h.tasks j u hu
    refine ⟨hold.began.trans hclock, ?_, ?_, hold.ensures⟩
    · intro hholds
      rw [(hothers j u hu (Ne.symm hne) hholds).1]
      exact hold.lock hholds
    · intro saving row hat
      rw [(hothers j u hu (Ne.symm hne) (by rw [hat]; rfl)).2]
      exact hold.fresh saving row hat

/-- an operation ends, and the row is its effect -/
theorem finish_sound (row : Row) (lock : Option ℕ) (h : Sound loads dumps defaults first s) (ht : s.tasks[i]? = some t)
    (hrow : row = t.op.effect loads dumps defaults s.row)
    (hothers : ∀ j u, s.tasks[j]? = some u → j ≠ i → u.at_.holds = true → lock = s.lock ∧ row = s.row) :
    Sound loads dumps defaults first { { s with row := row, lock := lock }.finish i t with clock := s.clock + 1 } := by
  have hbegan := (h.tasks i t ht).began
  refine ⟨?_, ?_, ?_, ?_⟩
  · exact tasks_put h rfl (Nat.le_succ _) hothers
      ⟨hbegan.trans (Nat.le_succ _), fun hholds => (by cases hholds), fun _ _ hat => (by cases hat),
        fun _ hsaves => (by cases hsaves)⟩
  · have hlog := Register.commits_snoc (c := t.op) h.commits (congrArg some hrow.symm)
    simp only [Sys.finish, List.map_append, List.map_singleton]
    exact hlog
  · intro c hc
    obtain hold | hnew := List.mem_append.1 hc
    · exact ⟨(h.ended c hold).1, (h.ended c hold).2.trans (Nat.lt_succ_self _)⟩
    · obtain rfl := List.mem_singleton.1 hnew
      exact ⟨hbegan, Nat.lt_succ_self _⟩
  · refine List.pairwise_append.2 ⟨h.sorted, List.pairwise_singleton _ _, ?_⟩
    intro a ha b hb
    obtain rfl := List.mem_singleton.1 hb
    exact (h.ended a ha).2

/-- a task that moves without a change of the row -/
theorem move_sound (lock : Option ℕ) (h : Sound loads dumps defaults first s) {at_ : At}
    (hothers : ∀ j u, s.tasks[j]? = some u → j ≠ i → u.at_.holds = true → lock = s.lock)
    (hown : TaskSound { s with lock := lock } i { t with at_ := at_ }) :
    Sound loads dumps defaults first { { s with lock := lock }.put i t at_ with clock := s.clock + 1 } := by
  refine ⟨?_, h.commits, ?_, h.sorted⟩
  · exact tasks_put h rfl (Nat.le_succ _) (fun j u hu hne hholds => ⟨hothers j u hu hne hholds, rfl⟩)
      ⟨hown.began.trans (Nat.le_succ _), hown.lock, hown.fresh, hown.ensures⟩
  · exact fun c hc => ⟨(h.ended c hc).1, (h.ended c hc).2.trans (Nat.lt_succ_self _)⟩

/-- the clock goes on -/
theorem tick_sound (h : Sound loads dumps defaults first s) :
    Sound loads dumps defaults first { s with clock := s.clock + 1 } :=
  ⟨fun i t ht => ⟨(h.tasks i t ht).began.trans (Nat.le_succ _), (h.tasks i t ht).lock, (h.tasks i t ht).fresh,
      (h.tasks i t ht).ensures⟩,
    h.commits, fun c hc => ⟨(h.ended c hc).1, (h.ended c hc).2.trans (Nat.lt_succ_self _)⟩, h.sorted⟩

/-- the lock is taken while nobody has it -/
theorem take_sound (h : Sound loads dumps defaults first s) (ht : s.tasks[i]? = some t) {saving : Option Permissions}
    (hsaving : ∀ data, saving = some data → t.op = .single .ensureComplete) :
    Sound loads dumps defaults first { s.take i t saving with clock := s.clock + 1 } := by
  unfold Sys.take
  split
  next hfree =>
    refine move_sound (some i) h ?_ ?_
    · intro j u hu _ hholds
      have hheld := (h.tasks j u hu).lock hholds
      rw [hfree] at hheld
      cases hheld
    · exact ⟨(h.tasks i t ht).began, fun _ => rfl, fun _ _ hat => (by cases hat), hsaving⟩
  next => exact tick_sound h

/-- a step keeps the invariant, and changes a level only by an operation that names its tool -/
theorem taskStep_sound (h : Sound loads dumps defaults first s) (ht : s.tasks[i]? = some t)
    (hguard : Guarded loads dumps defaults s (.go i)) :
    Sound loads dumps defaults first { taskStep loads dumps defaults s i t with clock := s.clock + 1 } ∧
      KeepsLevels s { taskStep loads dumps defaults s i t with clock := s.clock + 1 } := by
  have hsound := h.tasks i t ht
  have hsame : ∀ s' : Sys, s'.row = s.row → KeepsLevels s s' := by
    intro s' hrow tool v hv
    rw [hrow]
    exact .inl hv
  have htake : ∀ saving, (s.take i t saving).row = s.row := by
    intro saving
    unfold Sys.take
    split <;> rfl
  unfold taskStep
  split
  next hat =>
    split
    next hensures =>
      have hop : t.op = .single .ensureComplete := by
        unfold Op.isEnsureComplete at hensures
        split at hensures
        next hop => exact hop
        next => cases hensures
      -- nothing is missing, or the stored tools are no object: it ends at its read
      have hends : t.op.effect loads dumps defaults s.row = s.row →
          Sound loads dumps defaults first { s.finish i t with clock := s.clock + 1 } :=
        fun heffect => finish_sound s.row s.lock h ht heffect.symm fun _ _ _ _ _ => ⟨rfl, rfl⟩
      split
      next hraises =>
        exact ⟨hends (by rw [hop, Op.effect, write, hraises]), hsame _ rfl⟩
      next data hfill =>
        split
        next hcomplete =>
          refine ⟨hends ?_, hsame _ rfl⟩
          rw [hop, Op.effect, write, hfill]
          exact if_pos hcomplete
        next =>
          refine ⟨move_sound s.lock h (fun _ _ _ _ _ => rfl) ?_, hsame _ rfl⟩
          exact ⟨hsound.began, fun hholds => (by cases hholds), fun _ _ hread => (by cases hread), fun _ _ => hop⟩
    next => exact ⟨take_sound h ht fun _ hsome => (by cases hsome), hsame _ (htake none)⟩
  next data hat =>
    exact ⟨take_sound h ht fun _ _ => hsound.ensures data (by rw [hat]; rfl), hsame _ (htake (some data))⟩
  next saving hat =>
    refine ⟨move_sound s.lock h (fun _ _ _ _ _ => rfl) ?_, hsame _ rfl⟩
    refine ⟨hsound.began, fun _ => hsound.lock (by rw [hat]; rfl), ?_, ?_⟩
    rotate_left
    · exact fun data hsaves => hsound.ensures data (by rw [hat]; exact hsaves)
    intro saving' row hread
    cases hread
    rfl
  next saving row hat =>
    have hrow : saving.elim (t.op.effect loads dumps defaults row) (fun data => some (.json (.obj data))) =
        t.op.effect loads dumps defaults s.row := by
      cases saving with
      | none => rw [hsound.fresh none row hat]; rfl
      | some data =>
        have hop := hsound.ensures data (by rw [hat]; rfl)
        simp only [Guarded, ht, Option.elim, hat] at hguard
        rw [hop]
        exact hguard.symm
    have hheld : s.lock = some i := hsound.lock (by rw [hat]; rfl)
    refine ⟨finish_sound _ none h ht hrow ?_, ?_⟩
    · intro j u hu hne hholds
      have hother := (h.tasks j u hu).lock hholds
      rw [hheld] at hother
      exact absurd (Option.some.inj hother).symm hne
    · intro tool v hv
      obtain hkept | hnames := @effect_entry loads dumps defaults s.row t.op tool v hv
      · refine .inl ?_
        rw [← hrow] at hkept
        exact hkept
      · exact .inr ⟨_, rfl, hnames⟩
  next => exact ⟨tick_sound h, hsame _ rfl⟩

theorem step_sound (h : Sound loads dumps defaults first s) (event : Event) (hguard : Guarded loads dumps defaults s event) :
    Sound loads dumps defaults first (step loads dumps defaults s event) ∧
      KeepsLevels s (step loads dumps defaults s event) := by
  cases event with
  | start op =>
    refine ⟨tick_sound ⟨?_, h.commits, h.ended, h.sorted⟩, fun _ _ hv => .inl hv⟩
    intro i t ht
    rw [List.getElem?_append] at ht
    split at ht
    · exact ⟨(h.tasks i t ht).began, (h.tasks i t ht).lock, (h.tasks i t ht).fresh, (h.tasks i t ht).ensures⟩
    · obtain rfl := List.mem_singleton.1 (List.mem_of_getElem? ht)
      exact ⟨le_rfl, fun hholds => (by cases hholds), fun _ _ hat => (by cases hat), fun _ hsaves => (by cases hsaves)⟩
  | go i =>
    simp only [step]
    cases ht : s.tasks[i]? with
    | none => exact ⟨tick_sound h, fun _ _ hv => .inl hv⟩
    | some t => exact taskStep_sound h ht hguard

/-- **No permission change is lost.** In every run whose saves of `ensure_complete` are backfills of the rows they replace,
some order of the completed operations makes the row, and a step changes the level of a tool only by an operation that names
it. -/
theorem no_change_lost (loads : Str → Option Json) (dumps : Json → Str) (defaults : Dict Str) (first : Row)
    (events : List Event)
    (hguarded : Runs.Meets (step loads dumps defaults) (Guarded loads dumps defaults) { row := first } events) :
    Explained loads dumps defaults first (Runs.run (step loads dumps defaults) { row := first } events) ∧
      ∀ before event after, events = before ++ event :: after →
        KeepsLevels (Runs.run (step loads dumps defaults) { row := first } before)
          (step loads dumps defaults (Runs.run (step loads dumps defaults) { row := first } before) event) := by
  have hfirst : Sound loads dumps defaults first { row := first } :=
    ⟨by rintro i t ⟨⟩, Register.commits_nil first, by rintro c ⟨⟩, .nil⟩
  have hrun : ∀ before, Runs.Meets (step loads dumps defaults) (Guarded loads dumps defaults) { row := first } before →
      Sound loads dumps defaults first (Runs.run (step loads dumps defaults) { row := first } before) :=
    fun before hmeets =>
      Runs.run_inv (I := Sound loads dumps defaults first) (fun s e h hg => (step_sound h e hg).1) hmeets hfirst
  refine ⟨(hrun events hguarded).explained, ?_⟩
  rintro before event after rfl
  obtain ⟨hbefore, hevent, -⟩ := (Runs.meets_append _ _ _ _ _).1 hguarded
  exact (step_sound (hrun before hbefore) event hevent).2

/-- `json.loads` and `json.dumps` of a store that holds no text -/
def noText (_ : Str) : Option Json := none

def noDump (_ : Json) : Str := []

/-- a tool that is registered and not stored yet -/
def newTool : Dict Str := [("web_fetch".toList, "ask".toList)]

/-- the user allowed a deletion before -/
def allowed : Row := some (.json (.obj [("tools".toList, .obj [("delete_file".toList, .str "always".toList)])]))

def neverDelete : Op := .single (.setPermission "delete_file".toList .never none)

/-- a turn has filled in the new tool before the user decides -/
theorem no_change_lost_after : Explained noText noDump newTool allowed
    (Runs.run (step noText noDump newTool) { row := allowed }
      [.start (.single .ensureComplete), .go 0, .go 0, .go 0, .go 0, .start neverDelete, .go 1, .go 1, .go 1]) := by
  have hkept := no_change_lost noText noDump newTool allowed
    [.start (.single .ensureComplete), .go 0, .go 0, .go 0, .go 0, .start neverDelete, .go 1, .go 1, .go 1]
    ⟨trivial, trivial, trivial, trivial, rfl, trivial, trivial, trivial, trivial, trivial⟩
  exact hkept.1

/-- the turn has read the row, the user decides, and the turn saves what it read -/
def decidedMeanwhile : List Event :=
  [.start (.single .ensureComplete), .go 0, .start neverDelete, .go 1, .go 1, .go 1, .go 0, .go 0, .go 0]

/-- both are completed, and the tool that the user forbade is allowed -/
theorem never_forgotten : ¬ Explained noText noDump newTool allowed
    (Runs.run (step noText noDump newTool) { row := allowed } decidedMeanwhile) := by
  rintro ⟨order, hperm, -, hreplay⟩
  have hlevel : toolEntry (parseRowData (Runs.run (step noText noDump newTool) { row := allowed } decidedMeanwhile).row)
      "delete_file".toList = some (.str "always".toList) := by decide +kernel
  have hops : (Runs.run (step noText noDump newTool) { row := allowed } decidedMeanwhile).log.map Completed.op =
      [neverDelete, .single .ensureComplete] := rfl
  have hexplained := Register.explained_pair.1 ⟨order.map Completed.op, hops ▸ hperm.map Completed.op, hreplay⟩
  obtain h | h := hexplained
  · have hrow := congrArg (fun row : Option Row => row.map fun r => toolEntry (parseRowData r) "delete_file".toList) h
    dsimp only [Option.map_some] at hrow
    rw [hlevel] at hrow
    revert hrow
    decide +kernel
  · have hrow := congrArg (fun row : Option Row => row.map fun r => toolEntry (parseRowData r) "delete_file".toList) h
    dsimp only [Option.map_some] at hrow
    rw [hlevel] at hrow
    revert hrow
    decide +kernel

end Clawbolt.Approval.Writers

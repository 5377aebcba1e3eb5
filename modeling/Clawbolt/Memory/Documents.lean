/-
MEMORY.md, USER.md and SOUL.md of one user, as the database stores them (agent/tools/workspace_tools.py,
agent/memory_db.py, agent/compaction.py, agent/markdown_registry.py). The user and memory rows exist; a missing memory
row reads as the empty text.

A step is one transaction of one caller:
- `writeFile` stores its content if it fits the budget;
- `editFile` reads the text; the call's next segment checks that `old_text` occurs exactly once, applies the edit to the
  text it read, and stores the result in a second transaction;
- `compactSession` reads the three documents one after the other, waits for the model (`answer`), and handles the three
  updates one after the other, each a compare-and-set on the normalized text it read. A compaction that stops early (no
  memory to audit, a failed model call) is one that is not resumed.

Ghost data, read by no step: `St.log`, the changes that landed on each document, with the text each one replaced.
-/
import Mathlib.Tactic
import Clawbolt.Core.Runs
import Clawbolt.Core.Text
import Clawbolt.Core.Register

namespace Clawbolt.Memory

open Text

/-! ## Model -/

inductive Doc where
  | memory
  | user
  | soul
deriving DecidableEq, Repr

/-- the registry name of a document -/
def Doc.surface : Doc → String
  | .memory => "MEMORY.md"
  | .user => "USER.md"
  | .soul => "SOUL.md"

/-- `DEFAULT_BUDGET`, the same for every surface -/
def byteBudget : ℕ := 25 * 1024

inductive ToolErrorKind where
  | notFound
  | validation
deriving DecidableEq, Repr

structure ToolResult where
  content : String
  isError : Bool
  errorKind : Option ToolErrorKind
deriving DecidableEq, Repr

structure BudgetExceededError where
  surfaceName : String
  sizeBytes : ℕ
  budgetBytes : ℕ
deriving DecidableEq, Repr

def BudgetExceededError.message (e : BudgetExceededError) : String :=
  e.surfaceName ++ " write of " ++ toString e.sizeBytes ++ " bytes exceeds the " ++ toString e.budgetBytes ++
    "-byte budget by " ++ toString (e.sizeBytes - e.budgetBytes) ++ " bytes. Trim the content to fit within " ++
    toString e.budgetBytes ++ " bytes."

def assertWithinBudget (d : Doc) (stored : Str) : Except BudgetExceededError Unit :=
  if byteBudget < utf8Size stored then .error ⟨d.surface, utf8Size stored, byteBudget⟩ else .ok ()

inductive EditError where
  | notFound
  | ambiguous (count : ℕ)
  | overBudget (e : BudgetExceededError)
deriving DecidableEq, Repr

def EditError.result (path : String) : EditError → ToolResult
  | .notFound =>
    ⟨"Text not found in " ++ path ++ ". Read the file first to see current contents.", true, some .notFound⟩
  | .ambiguous n =>
    ⟨"Found " ++ toString n ++ " matches in " ++ path ++ ". Provide more context to match uniquely.", true,
      some .validation⟩
  | .overBudget e => ⟨e.message, true, some .validation⟩

/-- what `edit_file` computes from the text it read -/
def editText (d : Doc) (old new text : Str) : Except EditError Str :=
  if contains old text = false then .error .notFound
  else if 1 < count old text then .error (.ambiguous (count old text))
  else
    let updated := replaceFirst old new text
    match assertWithinBudget d updated with
    | .error e => .error (.overBudget e)
    | .ok () => .ok updated

/-- `_strip_section_prefix` -/
def stripSectionPrefix (raw pre : Str) : Str :=
  if startsWith pre (strip raw) then strip ((strip raw).drop pre.length) else strip raw

/-- what `read_memory_async`, `read_user_async` and `read_soul_async` return -/
def readForm : Doc → Str → Str
  | .memory, t => strip t
  | .user, t => stripSectionPrefix t "# User".toList
  | .soul, t => stripSectionPrefix t "# Soul".toList

/-- what `write_memory_async`, `write_user_async` and `write_soul_async` store -/
def storedForm : Doc → Str → Str
  | .memory, c => rstrip c ++ "\n".toList
  | .user, c => "# User\n\n".toList ++ c ++ "\n".toList
  | .soul, c => "# Soul\n\n".toList ++ c ++ "\n".toList

/-- the compare-and-set of the three writers: nothing when the text changed or the value is over budget -/
def writeIfUnchanged (d : Doc) (content expectedCurrent current : Str) : Option Str :=
  match assertWithinBudget d (storedForm d content) with
  | .error _ => none
  | .ok () => if readForm d current ≠ strip expectedCurrent then none else some (storedForm d content)

/-- the model's answer: an empty update leaves the document alone -/
structure CompactionResult where
  memoryUpdate : Str
  userProfileUpdate : Str
  soulUpdate : Str
deriving DecidableEq, Repr

def CompactionResult.update (r : CompactionResult) : Doc → Str
  | .memory => r.memoryUpdate
  | .user => r.userProfileUpdate
  | .soul => r.soulUpdate

/-- the order in which a compaction reads and writes the documents -/
def docs : List Doc := [.memory, .user, .soul]

structure Compaction where
  hygieneOnly : Bool
  /-- the texts read so far, in the order of `docs` -/
  reads : List Str
  answer : Option CompactionResult
  /-- documents whose update was handled -/
  handled : ℕ
deriving DecidableEq, Repr

/-- `memory_changed`, `user_changed`, `soul_changed` -/
def Compaction.changed (hygieneOnly : Bool) (d : Doc) (update current : Str) : Bool :=
  update ≠ [] && strip update ≠ strip current && !(hygieneOnly && d ≠ .memory)

inductive Call where
  | edit (d : Doc) (path : String) (old new text : Str)
  | compaction (c : Compaction)
  | returned (r : ToolResult)
  | finished
deriving DecidableEq, Repr

/-- a change that landed, with the text it was computed from -/
inductive Change where
  | wrote (content : Str)
  | edited (old new text : Str)
  | compacted (content expectedCurrent : Str)
deriving DecidableEq, Repr

structure Commit where
  change : Change
  replaced : Str
deriving DecidableEq, Repr

structure St where
  texts : Doc → Str
  calls : List Call
  log : Doc → List Commit

inductive Op where
  | writeFile (d : Doc) (path : String) (content : Str)
  | editFile (d : Doc) (path : String) (old new : Str)
  | compactSession (hygieneOnly : Bool)
  /-- call `i` runs to its next await -/
  | resume (i : ℕ)
  /-- the model answers the compaction of call `i` -/
  | answer (i : ℕ) (r : CompactionResult)
deriving DecidableEq, Repr

def init (texts : Doc → Str) : St := ⟨texts, [], fun _ => []⟩

/-- a change lands: document `d` holds `t` -/
def St.store (s : St) (d : Doc) (c : Change) (t : Str) : St :=
  { s with texts := Function.update s.texts d t, log := Function.update s.log d (s.log d ++ [⟨c, s.texts d⟩]) }

def St.setCall (s : St) (i : ℕ) (c : Call) : St := { s with calls := s.calls.set i c }

def writeFile (s : St) (d : Doc) (path : String) (content : Str) : St :=
  match assertWithinBudget d content with
  | .error e => { s with calls := s.calls ++ [.returned ⟨e.message, true, some .validation⟩] }
  | .ok () => { s.store d (.wrote content) content with calls := s.calls ++ [.returned ⟨"Wrote " ++ path, false, none⟩] }

/-- the second segment of `edit_file` -/
def resumeEdit (s : St) (i : ℕ) (d : Doc) (path : String) (old new text : Str) : St :=
  match editText d old new text with
  | .error e => s.setCall i (.returned (e.result path))
  | .ok updated => (s.store d (.edited old new text) updated).setCall i (.returned ⟨"Updated " ++ path, false, none⟩)

/-- the update of one document -/
def compactDoc (s : St) (c : Compaction) (d : Doc) (update expectedCurrent : Str) : St :=
  if Compaction.changed c.hygieneOnly d update expectedCurrent then
    match writeIfUnchanged d update expectedCurrent (s.texts d) with
    | none => s
    | some t => s.store d (.compacted update expectedCurrent) t
  else s

/-- the next transaction of a compaction -/
def resumeCompaction (s : St) (i : ℕ) (c : Compaction) : St :=
  match docs[c.reads.length]? with
  | some d => s.setCall i (.compaction { c with reads := c.reads ++ [readForm d (s.texts d)] })
  | none =>
    match c.answer with
    | none => s
    | some r =>
      match docs[c.handled]?, c.reads[c.handled]? with
      | some d, some t =>
        (compactDoc s c d (r.update d) t).setCall i (.compaction { c with handled := c.handled + 1 })
      | _, _ => s.setCall i .finished

def step (s : St) : Op → St
  | .writeFile d path content => writeFile s d path content
  | .editFile d path old new => { s with calls := s.calls ++ [.edit d path old new (s.texts d)] }
  | .compactSession h => { s with calls := s.calls ++ [.compaction ⟨h, [], none, 0⟩] }
  | .resume i =>
    match s.calls[i]? with
    | some (.edit d path old new text) => resumeEdit s i d path old new text
    | some (.compaction c) => resumeCompaction s i c
    | _ => s
  | .answer i r =>
    match s.calls[i]? with
    | some (.compaction c) =>
      if c.reads.length = docs.length ∧ c.answer = none then s.setCall i (.compaction { c with answer := some r }) else s
    | _ => s

abbrev run (s : St) (ops : List Op) : St := Runs.run step s ops

/-! ## What the functions compute -/

/-- the normalized text has no space around it -/
theorem strip_readForm (d : Doc) (t : Str) : strip (readForm d t) = readForm d t := by
  cases d with
  | memory => exact strip_strip t
  | user => simp only [readForm, stripSectionPrefix]; split_ifs <;> exact strip_strip _
  | soul => simp only [readForm, stripSectionPrefix]; split_ifs <;> exact strip_strip _

/-- a write that lands: the text was the one expected, and the stored form fits the budget -/
theorem writeIfUnchanged_eq_some {d : Doc} {content expected current t : Str} :
    writeIfUnchanged d content expected current = some t ↔
      assertWithinBudget d (storedForm d content) = .ok () ∧ readForm d current = strip expected ∧
        storedForm d content = t := by
  unfold writeIfUnchanged
  cases assertWithinBudget d (storedForm d content) with
  | error e => simp
  | ok u => by_cases h : readForm d current = strip expected <;> simp [h]

@[simp] theorem store_calls (s : St) (d : Doc) (c : Change) (t : Str) : (s.store d c t).calls = s.calls := rfl

theorem store_texts (s : St) (d d' : Doc) (c : Change) (t : Str) :
    (s.store d c t).texts d' = if d' = d then t else s.texts d' := by
  simp only [St.store, Function.update_apply]

theorem store_log (s : St) (d d' : Doc) (c : Change) (t : Str) :
    (s.store d c t).log d' = if d' = d then s.log d ++ [⟨c, s.texts d⟩] else s.log d' := by
  simp only [St.store, Function.update_apply]

end Clawbolt.Memory

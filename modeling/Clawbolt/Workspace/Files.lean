/-
Where the workspace tools go (agent/tools/workspace_tools.py): `read_file`, `write_file`, `edit_file` and `delete_file` map
a path to a column of the user, a column of the memory document, the permissions row or a file on disk. Their calls are
serialized, and their permissions remembered, under the text of the path.

The disk is a parameter: where a path under the user's directory resolves to, links included. `casefold` is a parameter
too. A call is its arguments; the texts of the results are left out but for the refusals of the routers.

- `canonicalName_isSome`, `memoryDocColumn_isSome`: the spellings that the routers of the documents take;
- `same_document_one_key`: two calls share one key and one resource, and none goes to a shadow file, exactly when calls that
  write one document spell its path alike, and the paths of database documents are plain;
- `two_spellings`: `USER.md` and `./USER.md` are one column under two keys, and `memory/../USER.md` is a file.
-/
import Mathlib.Tactic
import Clawbolt.Core.PosixPath
import Clawbolt.Agent.ToolRound

namespace Clawbolt.Workspace

open Text (Str)
open PosixPath (parts kept name parentText suffix)

/-! ## The documents -/

/-- `_ALLOWED_EXTENSIONS` -/
def allowedExtensions : List String := [".md", ".json"]

/-- `_PROTECTED_FILES` -/
def protectedFiles : List String := ["USER.md", "SOUL.md", "HEARTBEAT.md", "MEMORY.md", "HISTORY.md", "PERMISSIONS.json"]

/-- `_DB_FILE_COLUMN` -/
def dbFileColumn : Dict String :=
  [("USER.md".toList, "user_text"), ("SOUL.md".toList, "soul_text"), ("HEARTBEAT.md".toList, "heartbeat_text")]

/-- `_MEMORY_DOC_COLUMN` -/
def memoryDocColumns : Dict String := [("MEMORY.md".toList, "memory_text"), ("HISTORY.md".toList, "history_text")]

/-- `_PERMISSIONS_FILE` -/
def permissionsFile : Str := "PERMISSIONS.json".toList

/-- what a call reads or writes -/
inductive Document where
  | column (name : String)
  | memory (column : String)
  | permissions
  | disk (path : List Str)
deriving DecidableEq, Repr

/-- a user's directory -/
structure Disk where
  /-- `base.resolve()` -/
  base : List Str
  /-- `(base / relative_path).resolve()`, none when it raises -/
  resolve : Str → Option (List Str)
  casefold : Str → Str

/-! ## The routers -/

/-- `relative_path.lstrip("./")` -/
def stripped (path : Str) : Str := path.dropWhile fun c => c = '.' || c = '/'

/-- `_canonical_name` -/
def canonicalName (path : Str) : Option Str :=
  if ('/' ∈ stripped path ∨ Text.startsWith "..".toList path = true) ∧ (dbFileColumn.lookup (name path)).isSome then none
  else if (dbFileColumn.lookup (name path)).isSome then some (name path)
  else none

/-- `_memory_doc_column` -/
def memoryDocColumn (path : Str) : Option String :=
  if (memoryDocColumns.lookup (name path)).isNone then none
  else if '/' ∈ stripped path ∧ parentText (stripped path) ≠ "memory".toList then none
  else memoryDocColumns.lookup (name path)

/-- `_is_permissions_path` -/
def isPermissionsPath (disk : Disk) (path : Str) : Bool :=
  if disk.casefold (name path) ≠ disk.casefold permissionsFile then false
  else !(decide ('/' ∈ stripped path) || Text.startsWith "..".toList path)

/-- `_resolve_path` -/
def resolvePath (disk : Disk) (path : Str) : Except Str (List Str) :=
  match disk.resolve path with
  | none => .error ("Invalid path: ".toList ++ path)
  | some resolved =>
    if disk.base.isPrefixOf resolved = false then .error ("Path escapes workspace: ".toList ++ path)
    else
      let ext := suffix (resolved.getLast?.getD [])
      if ext ∉ allowedExtensions.map String.toList then
        .error ("Only markdown (.md) and JSON (.json) files are supported, got: ".toList ++
          if ext = [] then "(none)".toList else ext)
      else .ok resolved

/-! ## The tools -/

/-- a call, with the arguments of its tool -/
inductive Call where
  | readFile (path : Str)
  | writeFile (path content : Str)
  | editFile (path oldText newText : Str)
  | deleteFile (path : Str)
deriving DecidableEq, Repr

namespace Call

def path : Call → Str
  | .readFile path => path
  | .writeFile path _ => path
  | .editFile path _ _ => path
  | .deleteFile path => path

/-- the validated arguments -/
def args : Call → Dict Json
  | .readFile path => [("path".toList, .str path)]
  | .writeFile path content => [("path".toList, .str path), ("content".toList, .str content)]
  | .editFile path oldText newText =>
    [("path".toList, .str path), ("old_text".toList, .str oldText), ("new_text".toList, .str newText)]
  | .deleteFile path => [("path".toList, .str path)]

end Call

/-- `_extract_path` of validated arguments -/
def extractPath (args : Dict Json) : Option Str :=
  match args.lookup "path".toList with
  | some (.str path) => if path = [] then none else some path
  | _ => none

/-- `_workspace_path_concurrency_key` -/
def workspacePathConcurrencyKey (args : Dict Json) : Option Str :=
  (extractPath args).map fun path => "workspace_path:".toList ++ path

/-- the policy of a tool that writes: its level, its resource and its description -/
def writePolicy (level : Approval.PermissionLevel) (verb : String) : Agent.ApprovalPolicy where
  defaultLevel := level
  resourceExtractor := some extractPath
  descriptionBuilder := some fun args => verb.toList ++ (extractPath args).getD []
  resourceNoun := none
  previewBuilder := none

/-- a path routed as `read_file`, `write_file` and `edit_file` do -/
def routeFile (disk : Disk) (path : Str) : Except Str Document :=
  match canonicalName path with
  | some canon => .ok (.column ((dbFileColumn.lookup canon).getD ""))
  | none =>
    match memoryDocColumn path with
    | some column => .ok (.memory column)
    | none =>
      if isPermissionsPath disk path then .ok .permissions
      else (resolvePath disk path).map .disk

namespace Call

/-- `concurrency_group` of the tool -/
def concurrencyGroup : Call → Option (Dict Json → Option Str)
  | .readFile _ => none
  | .writeFile .. => some workspacePathConcurrencyKey
  | .editFile .. => some workspacePathConcurrencyKey
  | .deleteFile _ => some workspacePathConcurrencyKey

/-- `approval_policy` of the tool -/
def approvalPolicy : Call → Option Agent.ApprovalPolicy
  | .readFile _ => none
  | .writeFile .. => some (writePolicy .always "Write to ")
  | .editFile .. => some (writePolicy .always "Edit ")
  | .deleteFile _ => some (writePolicy .ask "Delete ")

/-- what a call reads, writes or deletes; an error is a refusal -/
def route (disk : Disk) : Call → Except Str Document
  | .readFile path => routeFile disk path
  | .writeFile path _ => routeFile disk path
  | .editFile path _ _ => routeFile disk path
  | .deleteFile path =>
    match resolvePath disk path with
    | .error err => .error err
    | .ok resolved =>
      if resolved.getLast?.getD [] ∈ protectedFiles.map String.toList then
        .error ("Cannot delete protected file: ".toList ++ path)
      else .ok (.disk resolved)

/-- the call changes what it is routed to -/
def writes : Call → Bool
  | .readFile _ => false
  | _ => true

end Call


/-! ## The spellings that are taken -/

/-- the characters that the routers strip -/
def isLead (c : Char) : Bool := c = '.' || c = '/'

/-- nothing, or dots and slashes up to a slash -/
def Lead (pre : Str) : Prop := (∀ c ∈ pre, isLead c = true) ∧ (pre = [] ∨ ∃ before, pre = before ++ ['/'])

theorem stripped_eq (path : Str) : stripped path = path.dropWhile isLead := rfl

/-- a path is its dots and slashes, then the rest -/
theorem lead_append_stripped (path : Str) : path.takeWhile isLead ++ stripped path = path := List.takeWhile_append_dropWhile

theorem stripped_append {pre rest : Str} (hpre : ∀ c ∈ pre, isLead c = true) (hrest : ∀ c ∈ rest.head?, isLead c = false) :
    stripped (pre ++ rest) = rest := by
  rw [stripped_eq, List.dropWhile_append_of_pos hpre]
  cases rest with
  | nil => rfl
  | cons c rest => rw [List.dropWhile_cons_of_neg (by simp [hrest c rfl])]

/-- the name of dots and slashes is made of dots -/
theorem name_of_lead {t : Str} (ht : ∀ c ∈ t, isLead c = true) : ∀ c ∈ name t, c = '.' := by
  intro c hc
  obtain ⟨hin, hno⟩ := PosixPath.mem_parts (PosixPath.name_mem (List.ne_nil_of_mem hc))
  have hne : c ≠ '/' := fun heq => hno (heq ▸ hc)
  simpa [isLead, hne] using ht c (hin.subset hc)

/-- the name of a path without slashes but for its first characters -/
theorem eq_lead_append_name {path : Str} (h : '/' ∉ stripped path) (hname : ∃ c ∈ name path, c ≠ '.') :
    ∃ pre, path = pre ++ name path ∧ Lead pre := by
  obtain ⟨c, hc, hdot⟩ := hname
  by_cases hslash : '/' ∈ path
  · obtain ⟨a, b, rfl, hb⟩ := PosixPath.split_last_slash hslash
    -- the last slash is one of the characters that are stripped
    have hlead : ∀ c ∈ a ++ ['/'], isLead c = true := by
      have hsplit := lead_append_stripped (a ++ '/' :: b)
      rcases List.append_eq_append_iff.1 hsplit with ⟨mid, ha, hmid⟩ | ⟨mid, hl, hmid⟩
      · exact absurd (by rw [hmid]; simp) h
      · cases mid with
        | nil => exact absurd (by rw [← show _ = stripped _ from hmid]; simp) h
        | cons c mid =>
          obtain ⟨rfl, -⟩ := List.cons.inj hmid
          intro c hc
          refine List.mem_takeWhile_imp (l := a ++ '/' :: b) ?_
          rw [hl]
          rcases List.mem_append.1 hc with hc | hc
          · exact List.mem_append_left _ hc
          · rw [List.mem_singleton.1 hc]
            simp
    cases hkept : kept b with
    | true =>
      rw [PosixPath.name_append_slash a hb hkept]
      exact ⟨a ++ ['/'], by simp, hlead, Or.inr ⟨a, rfl⟩⟩
    | false =>
      have hparts : name (a ++ '/' :: b) = name a := by
        rw [name, PosixPath.parts_append_slash, PosixPath.parts_eq_nil hb hkept, List.append_nil]
        rfl
      rw [hparts] at hc
      exact absurd (name_of_lead (fun c hc => hlead c (List.mem_append_left _ hc)) c hc) hdot
  · cases hkept : kept path with
    | true => exact ⟨[], by simp [name, PosixPath.parts_eq_singleton hslash hkept], by simp, Or.inl rfl⟩
    | false =>
      rw [name, PosixPath.parts_eq_nil hslash hkept] at hc
      cases hc

/-- a name after dots and slashes -/
theorem name_lead_append {pre n : Str} (hpre : Lead pre) (hslash : '/' ∉ n) (hkept : kept n = true) : name (pre ++ n) = n := by
  rcases hpre.2 with rfl | ⟨before, rfl⟩
  · simp [name, PosixPath.parts_eq_singleton hslash hkept]
  · rw [List.append_assoc]
    exact PosixPath.name_append_slash before hslash hkept

/-- the texts of the names of the documents -/
theorem document_name {n : Str} (h : (dbFileColumn.lookup n).isSome ∨ (memoryDocColumns.lookup n).isSome) :
    '/' ∉ n ∧ kept n = true ∧ (∀ c ∈ n.head?, isLead c = false) ∧ ∃ c ∈ n, c ≠ '.' := by
  have hmem : n ∈ dbFileColumn.map Prod.fst ++ memoryDocColumns.map Prod.fst := by
    rw [List.mem_append]
    rcases h with h | h
    · obtain ⟨column, h⟩ := Option.isSome_iff_exists.1 h
      exact Or.inl (List.mem_map.2 ⟨_, Dict.mem_of_lookup h, rfl⟩)
    · obtain ⟨column, h⟩ := Option.isSome_iff_exists.1 h
      exact Or.inr (List.mem_map.2 ⟨_, Dict.mem_of_lookup h, rfl⟩)
  have hall : ∀ n ∈ dbFileColumn.map Prod.fst ++ memoryDocColumns.map Prod.fst,
      '/' ∉ n ∧ kept n = true ∧ n.head?.all (fun c => !isLead c) = true ∧ n.any (· != '.') = true := by decide
  obtain ⟨hslash, hkept, hlead, hdot⟩ := hall n hmem
  refine ⟨hslash, hkept, fun c hc => ?_, ?_⟩
  · rw [show n.head? = some c from hc] at hlead
    simpa using hlead
  · simpa using hdot

/-- the spellings of the path of a document in the database -/
inductive Plain (disk : Disk) : Str → Prop
  /-- the name of a column, after dots and slashes that do not start with `..` -/
  | profile {pre n : Str} : Lead pre → (dbFileColumn.lookup n).isSome → Text.startsWith "..".toList (pre ++ n) = false →
      Plain disk (pre ++ n)
  | memory {pre n : Str} : Lead pre → (memoryDocColumns.lookup n).isSome → Plain disk (pre ++ n)
  /-- the name under `memory/`, with nothing but dots and slashes around -/
  | memoryDir {pre rest n : Str} : (∀ c ∈ pre, isLead c = true) → parts rest = [n] → (memoryDocColumns.lookup n).isSome →
      Plain disk (pre ++ ("memory/".toList ++ rest))
  | permissions {path : Str} : isPermissionsPath disk path = true → Plain disk path

/-- the spellings of a column of the user -/
theorem canonicalName_isSome {path : Str} : (canonicalName path).isSome ↔
    ∃ pre n, path = pre ++ n ∧ Lead pre ∧ (dbFileColumn.lookup n).isSome ∧ Text.startsWith "..".toList path = false := by
  unfold canonicalName
  constructor
  · intro h
    split_ifs at h with hout hname
    · cases h
    · have hslash : '/' ∉ stripped path := fun hs => hout ⟨Or.inl hs, hname⟩
      have hup : Text.startsWith "..".toList path = false := Bool.eq_false_iff.2 fun hs => hout ⟨Or.inr hs, hname⟩
      obtain ⟨pre, hpath, hpre⟩ := eq_lead_append_name hslash (document_name (Or.inl hname)).2.2.2
      exact ⟨pre, name path, hpath, hpre, hname, hup⟩
    · cases h
  · intro h
    obtain ⟨pre, n, rfl, hpre, hn, hup⟩ := h
    obtain ⟨hslash, hkept, hhead, -⟩ := document_name (Or.inl hn)
    rw [name_lead_append hpre hslash hkept, stripped_append hpre.1 hhead, if_neg, if_pos hn]
    · rfl
    · rintro ⟨hs | hs, -⟩
      · exact hslash hs
      · rw [hup] at hs
        cases hs

/-- what is left of a path starts with no dot and no slash -/
theorem head_stripped (path : Str) : ∀ c ∈ (stripped path).head?, isLead c = false := by
  intro c hc
  have h := List.head?_dropWhile_not isLead path
  rw [← stripped_eq, show (stripped path).head? = some c from hc] at h
  exact h

/-- a path into `memory/` -/
theorem parts_memoryDir (rest : Str) : parts ("memory/".toList ++ rest) = "memory".toList :: parts rest :=
  PosixPath.parts_append_slash "memory".toList rest

theorem name_memoryDir (pre : Str) {rest n : Str} (h : parts rest = [n]) : name (pre ++ ("memory/".toList ++ rest)) = n := by
  have hsplit : pre ++ ("memory/".toList ++ rest) = (pre ++ "memory".toList) ++ '/' :: rest := by simp
  rw [hsplit, name, PosixPath.parts_append_slash, h, List.getLast?_concat, Option.getD_some]

/-- a path whose parts are `memory` and a name -/
theorem stripped_memoryDir {path n : Str} (h : parts (stripped path) = ["memory".toList, n]) :
    ∃ rest, stripped path = "memory/".toList ++ rest ∧ parts rest = [n] := by
  have hslash : '/' ∈ stripped path := by
    by_contra hno
    cases hkept : kept (stripped path) with
    | true =>
      rw [PosixPath.parts_eq_singleton hno hkept] at h
      simp at h
    | false =>
      rw [PosixPath.parts_eq_nil hno hkept] at h
      cases h
  obtain ⟨u, v, huv, hu⟩ := List.eq_append_cons_of_mem hslash
  have hhead := head_stripped path
  rw [huv] at hhead h
  rw [PosixPath.parts_append_slash] at h
  have hkept : kept u = true := by
    rcases u with _ | ⟨c, u⟩
    · exact absurd (hhead '/' rfl) (by decide)
    · have hc := hhead c rfl
      simp only [kept, Bool.and_eq_true, decide_eq_true_eq]
      exact ⟨List.cons_ne_nil _ _, fun heq => by
        rw [(List.cons.inj heq).1] at hc
        cases hc⟩
  rw [PosixPath.parts_eq_singleton hu hkept] at h
  obtain ⟨rfl, hv⟩ := List.cons.inj h
  exact ⟨v, huv, hv⟩

/-- the spellings of a memory document -/
theorem memoryDocColumn_isSome {path : Str} : (memoryDocColumn path).isSome ↔
    (∃ pre n, path = pre ++ n ∧ Lead pre ∧ (memoryDocColumns.lookup n).isSome) ∨
    ∃ pre rest n, path = pre ++ ("memory/".toList ++ rest) ∧ (∀ c ∈ pre, isLead c = true) ∧ parts rest = [n] ∧
      (memoryDocColumns.lookup n).isSome := by
  have hmemory : '/' ∉ "memory".toList ∧ kept "memory".toList = true := by decide
  unfold memoryDocColumn
  constructor
  · intro h
    split_ifs at h with hnone hout
    · cases h
    · cases h
    · by_cases hslash : '/' ∈ stripped path
      · have hparent := (PosixPath.parentText_eq_iff hmemory.1 hmemory.2).1 (not_not.1 fun hne => hout ⟨hslash, hne⟩)
        obtain ⟨n, hparts⟩ : ∃ n, parts (stripped path) = ["memory".toList, n] := by
          rcases List.eq_nil_or_concat (parts (stripped path)) with hnil | ⟨parents, n, hconcat⟩
          · rw [hnil] at hparent
            cases hparent
          · rw [List.concat_eq_append] at hconcat
            rw [hconcat, List.dropLast_concat] at hparent
            exact ⟨n, by rw [hconcat, hparent]; rfl⟩
        obtain ⟨rest, hrest, hn⟩ := stripped_memoryDir hparts
        have hpath := lead_append_stripped path
        rw [hrest] at hpath
        refine Or.inr ⟨_, rest, n, hpath.symm, fun c hc => List.mem_takeWhile_imp hc, hn, ?_⟩
        rwa [← name_memoryDir (path.takeWhile isLead) hn, hpath]
      · obtain ⟨pre, hpath, hpre⟩ := eq_lead_append_name hslash (document_name (Or.inr h)).2.2.2
        exact Or.inl ⟨pre, name path, hpath, hpre, h⟩
  · intro h
    have hnone : ∀ {n : Str}, (memoryDocColumns.lookup n).isSome → ¬ (memoryDocColumns.lookup n).isNone = true := by
      intro n hn
      rw [← Option.not_isSome, hn]
      exact Bool.false_ne_true
    rcases h with ⟨pre, n, rfl, hpre, hn⟩ | ⟨pre, rest, n, rfl, hpre, hrest, hn⟩
    · obtain ⟨hslash, hkept, hhead, -⟩ := document_name (Or.inr hn)
      rw [name_lead_append hpre hslash hkept, stripped_append hpre.1 hhead, if_neg (hnone hn), if_neg fun h => hslash h.1]
      exact hn
    · have hparent : parentText ("memory/".toList ++ rest) = "memory".toList := by
        rw [PosixPath.parentText_eq_iff hmemory.1 hmemory.2, parts_memoryDir, hrest]
        rfl
      have hhead : ∀ c ∈ ("memory/".toList ++ rest).head?, isLead c = false := by
        intro c hc
        obtain rfl : 'm' = c := Option.some.inj hc
        rfl
      rw [name_memoryDir pre hrest, stripped_append hpre hhead, if_neg (hnone hn), if_neg fun h => h.2 hparent]
      exact hn

/-- the router of a path finds a document in the database -/
def inDatabase (disk : Disk) (path : Str) : Bool :=
  (canonicalName path).isSome || (memoryDocColumn path).isSome || isPermissionsPath disk path

theorem inDatabase_iff (disk : Disk) (path : Str) : inDatabase disk path = true ↔ Plain disk path := by
  unfold inDatabase
  rw [Bool.or_eq_true, Bool.or_eq_true, canonicalName_isSome, memoryDocColumn_isSome]
  constructor
  · intro h
    rcases h with (⟨pre, n, rfl, hpre, hn, hup⟩ | ⟨pre, n, rfl, hpre, hn⟩ | ⟨pre, rest, n, rfl, hpre, hrest, hn⟩) | h
    · exact .profile hpre hn hup
    · exact .memory hpre hn
    · exact .memoryDir hpre hrest hn
    · exact .permissions h
  · intro h
    cases h with
    | profile hpre hn hup => exact Or.inl (Or.inl ⟨_, _, rfl, hpre, hn, hup⟩)
    | memory hpre hn => exact Or.inl (Or.inr (Or.inl ⟨_, _, rfl, hpre, hn⟩))
    | memoryDir hpre hrest hn => exact Or.inl (Or.inr (Or.inr ⟨_, _, _, rfl, hpre, hrest, hn⟩))
    | permissions h => exact Or.inr h

/-! ## One key, and no shadow -/

/-- the places of the documents of the database in a user's directory -/
def databasePlaces : List (List Str) :=
  [["USER.md".toList], ["SOUL.md".toList], ["HEARTBEAT.md".toList], ["MEMORY.md".toList], ["HISTORY.md".toList],
    ["memory".toList, "MEMORY.md".toList], ["memory".toList, "HISTORY.md".toList], ["PERMISSIONS.json".toList]]

/-- the path of a call resolves to the place of a document of the database -/
def Call.AtDatabasePlace (disk : Disk) (c : Call) : Prop :=
  ∃ place ∈ databasePlaces, disk.resolve c.path = some (disk.base ++ place)

/-- two calls that go to one document -/
def SameDocument (disk : Disk) (c c' : Call) : Prop := ∃ doc, c.route disk = .ok doc ∧ c'.route disk = .ok doc

/-- what two calls promise: on one document, one key and one resource wherever they have one; and no shadow of a document -/
structure OneKey (disk : Disk) (c c' : Call) : Prop where
  key : SameDocument disk c c' → ∀ group ∈ c.concurrencyGroup, ∀ group' ∈ c'.concurrencyGroup, group c.args = group' c'.args
  resource : SameDocument disk c c' → ∀ policy ∈ c.approvalPolicy, ∀ policy' ∈ c'.approvalPolicy,
    (policy.resourceExtractor.map fun extract => extract c.args) = policy'.resourceExtractor.map fun extract => extract c'.args
  no_shadow : c.AtDatabasePlace disk → ∀ path, c.route disk ≠ .ok (.disk path)
  no_shadow' : c'.AtDatabasePlace disk → ∀ path, c'.route disk ≠ .ok (.disk path)

/-- a call to the place of a document of the database deletes, which is refused, or spells the path plainly -/
def Call.Direct (disk : Disk) (c : Call) : Prop :=
  c.AtDatabasePlace disk → (∃ path, c = .deleteFile path) ∨ Plain disk c.path

theorem extractPath_args (c : Call) : extractPath c.args = if c.path = [] then none else some c.path := by
  cases c <;> rfl

theorem extractPath_inj (c c' : Call) : extractPath c.args = extractPath c'.args ↔ c.path = c'.path := by
  rw [extractPath_args, extractPath_args]
  constructor
  · intro h
    split_ifs at h with hc hc' hc'
    · rw [hc, hc']
    · exact Option.some.inj h
  · intro h
    rw [h]

theorem key_inj (c c' : Call) : workspacePathConcurrencyKey c.args = workspacePathConcurrencyKey c'.args ↔ c.path = c'.path := by
  rw [← extractPath_inj]
  exact (Option.map_injective (List.append_right_injective _)).eq_iff

/-- a call that writes has the key and the resource of its path -/
theorem groups_of_writes {c : Call} (h : c.writes = true) : c.concurrencyGroup = some workspacePathConcurrencyKey ∧
    ∃ policy, c.approvalPolicy = some policy ∧ policy.resourceExtractor = some extractPath := by
  cases c with
  | readFile => cases h
  | writeFile => exact ⟨rfl, _, rfl, rfl⟩
  | editFile => exact ⟨rfl, _, rfl, rfl⟩
  | deleteFile => exact ⟨rfl, _, rfl, rfl⟩

theorem writes_of_group {c : Call} {group : Dict Json → Option Str} (h : group ∈ c.concurrencyGroup) : c.writes = true := by
  cases c with
  | readFile => cases h
  | _ => rfl

theorem writes_of_policy {c : Call} {policy : Agent.ApprovalPolicy} (h : policy ∈ c.approvalPolicy) : c.writes = true := by
  cases c with
  | readFile => cases h
  | _ => rfl

/-- the place of a document resolves -/
theorem resolvePath_place {disk : Disk} {path : Str} {place : List Str} (hplace : place ∈ databasePlaces)
    (h : disk.resolve path = some (disk.base ++ place)) : resolvePath disk path = .ok (disk.base ++ place) ∧
      (disk.base ++ place).getLast?.getD [] ∈ protectedFiles.map String.toList := by
  have hall : ∀ place ∈ databasePlaces, place ≠ [] ∧ suffix (place.getLast?.getD []) ∈ allowedExtensions.map String.toList ∧
      place.getLast?.getD [] ∈ protectedFiles.map String.toList := by decide
  obtain ⟨hne, hsuffix, hprotected⟩ := hall place hplace
  have hlast : (disk.base ++ place).getLast?.getD [] = place.getLast?.getD [] := by
    rw [List.getLast?_append_of_ne_nil _ hne]
  have hprefix : disk.base.isPrefixOf (disk.base ++ place) = true := List.isPrefixOf_iff_prefix.2 (List.prefix_append _ _)
  refine ⟨?_, by rwa [hlast]⟩
  unfold resolvePath
  simp only [h, hprefix, hlast]
  rw [if_neg (by decide), if_neg (not_not.2 hsuffix)]

/-- a path that no router of a document takes goes to the disk -/
theorem routeFile_disk (disk : Disk) (path : Str) (resolved : List Str) :
    routeFile disk path = .ok (.disk resolved) ↔ inDatabase disk path = false ∧ resolvePath disk path = .ok resolved := by
  unfold routeFile inDatabase
  cases hcanon : canonicalName path with
  | some canon => simp
  | none =>
    cases hmemory : memoryDocColumn path with
    | some column => simp
    | none =>
      cases hperm : isPermissionsPath disk path with
      | true => simp
      | false => cases resolvePath disk path <;> simp [Except.map]

/-- a call goes to no shadow exactly when it is direct -/
theorem no_shadow_iff (disk : Disk) (c : Call) :
    (c.AtDatabasePlace disk → ∀ path, c.route disk ≠ .ok (.disk path)) ↔ c.Direct disk := by
  refine forall_congr' fun hat => ?_
  obtain ⟨place, hplace, hresolve⟩ := hat
  obtain ⟨hok, hprotected⟩ := resolvePath_place hplace hresolve
  have hfile : (∀ path, routeFile disk c.path ≠ .ok (.disk path)) ↔ Plain disk c.path := by
    rw [← inDatabase_iff]
    constructor
    · intro h
      by_contra hno
      exact h _ ((routeFile_disk disk c.path _).2 ⟨Bool.eq_false_iff.2 hno, hok⟩)
    · intro h path hroute
      rw [((routeFile_disk disk c.path path).1 hroute).1] at h
      cases h
  cases c with
  | deleteFile path =>
    refine iff_of_true (fun path' hroute => ?_) (Or.inl ⟨path, rfl⟩)
    simp only [Call.route, show resolvePath disk path = _ from hok, hprotected, if_true] at hroute
    cases hroute
  | readFile path => exact hfile.trans ⟨Or.inr, fun h => h.resolve_left (by rintro ⟨_, h⟩; cases h)⟩
  | writeFile path content => exact hfile.trans ⟨Or.inr, fun h => h.resolve_left (by rintro ⟨_, h⟩; cases h)⟩
  | editFile path oldText newText => exact hfile.trans ⟨Or.inr, fun h => h.resolve_left (by rintro ⟨_, h⟩; cases h)⟩

/-- two calls write one document -/
def BothWrite (disk : Disk) (c c' : Call) : Prop := SameDocument disk c c' ∧ c.writes = true ∧ c'.writes = true

/-- **One document, one key.** The key and the resource of a call are the text of its path, so two spellings of a document
never share them; and a document of the database has spellings that no router takes. -/
theorem same_document_one_key (disk : Disk) (c c' : Call) :
    OneKey disk c c' ↔ (BothWrite disk c c' → c.path = c'.path) ∧ c.Direct disk ∧ c'.Direct disk := by
  constructor
  · intro h
    refine ⟨fun hboth => ?_, (no_shadow_iff disk c).1 h.no_shadow, (no_shadow_iff disk c').1 h.no_shadow'⟩
    obtain ⟨hsame, hc, hc'⟩ := hboth
    exact (key_inj c c').1 (h.key hsame _ (groups_of_writes hc).1 _ (groups_of_writes hc').1)
  · intro h
    obtain ⟨hpath, hdirect, hdirect'⟩ := h
    refine ⟨fun hsame group hg group' hg' => ?_, fun hsame policy hp policy' hp' => ?_, (no_shadow_iff disk c).2 hdirect,
      (no_shadow_iff disk c').2 hdirect'⟩
    · have hc := writes_of_group hg
      have hc' := writes_of_group hg'
      rw [(groups_of_writes hc).1] at hg
      rw [(groups_of_writes hc').1] at hg'
      cases hg
      cases hg'
      exact (key_inj c c').2 (hpath ⟨hsame, hc, hc'⟩)
    · have hc := writes_of_policy hp
      have hc' := writes_of_policy hp'
      obtain ⟨-, _, hpol, hextract⟩ := groups_of_writes hc
      obtain ⟨-, _, hpol', hextract'⟩ := groups_of_writes hc'
      rw [hpol] at hp
      rw [hpol'] at hp'
      cases hp
      cases hp'
      rw [hextract, hextract', Option.map_some, Option.map_some, (extractPath_inj c c').2 (hpath ⟨hsame, hc, hc'⟩)]

/-- a directory without links: a path is read part by part; only ASCII letters are folded -/
def plainDisk (base : List Str) : Disk where
  base := base
  resolve path :=
    if '\x00' ∈ path then none
    else some (PosixPath.walk (if path.head? = some '/' then [] else base) (parts path))
  casefold := List.map Char.toLower

/-- **Two spellings, two keys**; and a detour through `memory/` writes a file where a document of the database is. -/
theorem two_spellings :
    ¬ OneKey (plainDisk ["data".toList, "7".toList]) (.writeFile "USER.md".toList "a".toList)
        (.editFile "./USER.md".toList "a".toList "b".toList) ∧
      ¬ OneKey (plainDisk ["data".toList, "7".toList]) (.writeFile "memory/../USER.md".toList "a".toList)
        (.writeFile "memory/../USER.md".toList "a".toList) := by
  constructor
  · intro h
    have hkey := h.key ⟨.column "user_text", by decide, by decide⟩ workspacePathConcurrencyKey rfl workspacePathConcurrencyKey rfl
    revert hkey
    decide
  · intro h
    refine h.no_shadow ⟨["USER.md".toList], by decide, by decide⟩ ["data".toList, "7".toList, "USER.md".toList] ?_
    decide

end Clawbolt.Workspace

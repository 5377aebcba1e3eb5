/-
Which tools of one user are enabled (`ToolConfigStore` of agent/stores.py), with the requests that change it split at every
await: `update_tool_config` of routers/user_tools.py, and `_handle_enable` and `_handle_disable` of
agent/tools/integration_tools.py.

A save replaces all rows and `set_enabled` writes one, each in one transaction of its own; database calls succeed. Every write
is recorded with the request that makes it.

`_HIDDEN_CORE_FACTORIES` is empty: no factory is hidden, and a toggle has no paired one. The columns that are only displayed
are left out.
-/
import Mathlib.Tactic
import Mathlib.Data.List.Sort
import Clawbolt.Core.Runs
import Clawbolt.Approval.StoredPermissions

namespace Clawbolt.ToolConfig

open Text (Str)
open Approval (PermissionLevel Permissions)

/-! ## The registry -/

/-- what the requests read of a `ToolFactory` -/
structure Factory where
  name : Str
  core : Bool
  dashboardAlwaysEnabled : Bool
  /-- its sub-tools, with their default levels -/
  subTools : List (Str × PermissionLevel)
deriving DecidableEq, Repr

/-- `default_registry`: one factory a name -/
structure Registry where
  factories : List Factory
  nodup : (factories.map Factory.name).Nodup

def Registry.getFactory (R : Registry) (name : Str) : Option Factory := R.factories.find? fun f => f.name = name

/-- the tools of `generate_defaults` -/
def Registry.defaults (R : Registry) : Dict Str :=
  R.factories.flatMap fun f => f.subTools.map fun st => (st.1, st.2.text)

/-! ## The tables -/

/-- a row of `tool_configs` -/
structure Row where
  name : Str
  enabled : Bool
deriving DecidableEq, Repr

structure Tables where
  rows : List Row
  /-- the user's permission data -/
  permissions : Permissions

/-- a user that has changed nothing yet -/
def Tables.empty : Tables := ⟨[], Approval.parseRowData none⟩

/-- `get_disabled_tool_names` -/
def Tables.disabledNames (t : Tables) : List Str := (t.rows.filter fun r => !r.enabled).map Row.name

/-- a committed write -/
inductive Write where
  /-- `save` -/
  | rows (rows : List Row)
  /-- `set_enabled` -/
  | enabled (name : Str) (enabled : Bool)
  /-- `set_permission` -/
  | level (subTool : Str) (level : PermissionLevel)

/-- `set_enabled`: the row of that name, or a new one -/
def setEnabled (rows : List Row) (name : Str) (enabled : Bool) : List Row :=
  if rows.any fun r => r.name = name then rows.map fun r => if r.name = name then { r with enabled := enabled } else r
  else rows ++ [⟨name, enabled⟩]

def Tables.write (R : Registry) (t : Tables) : Write → Tables
  | .rows rows => { t with rows := rows }
  | .enabled name enabled => { t with rows := setEnabled t.rows name enabled }
  | .level subTool level =>
    { t with permissions := (Approval.setPermission R.defaults t.permissions subTool level none).getD t.permissions }

/-! ## What is read -/

/-- `_build_tool_list` -/
def buildToolList (R : Registry) (disabledNames : List Str) : List Row :=
  (R.factories.insertionSort fun f g => ¬ g.name < f.name).map fun f =>
    ⟨f.name, f.dashboardAlwaysEnabled || !disabledNames.contains f.name⟩

/-- GET /user/tools reports the factory enabled -/
def dashboardEnabled (R : Registry) (t : Tables) (f : Factory) : Bool :=
  (buildToolList R t.disabledNames).contains ⟨f.name, true⟩

/-- `_handle_status` reports it enabled -/
def statusEnabled (t : Tables) (f : Factory) : Bool := f.core || !t.disabledNames.contains f.name

/-- `assemble_turn_tools` does not exclude it -/
def assembled (t : Tables) (f : Factory) : Bool := !t.disabledNames.contains f.name

/-! ## A dashboard update -/

/-- `ToolConfigUpdateEntry` -/
structure UpdateEntry where
  name : Str
  enabled : Bool
  subTools : Option (List (Str × Str))

/-- what an update asks for, in order -/
inductive Op where
  | toggle (name : Str) (enabled : Bool)
  | level (subTool level : Str)

/-- one entry: an unknown factory is skipped, and so is an unknown sub-tool -/
def entryOps (R : Registry) (e : UpdateEntry) : List Op :=
  match R.getFactory e.name with
  | none => []
  | some f =>
    .toggle e.name e.enabled ::
      ((e.subTools.getD []).filter fun u => f.subTools.any fun st => st.1 = u.1).map fun u => .level u.1 u.2

/-- an update that is being worked on -/
structure Update where
  /-- the disabled names as it loaded them -/
  loaded : List Str
  disabledNames : List Str
  /-- the toggles it has not ignored, the last one first -/
  toggles : List (Str × Bool)

/-- a toggle of a factory that the dashboard renders as always on is ignored -/
def Update.toggle (R : Registry) (u : Update) (name : Str) (enabled : Bool) : Update :=
  if (R.getFactory name).any Factory.dashboardAlwaysEnabled then u
  else
    { u with
      disabledNames := if enabled then u.disabledNames.filter (· ≠ name) else name :: u.disabledNames
      toggles := (name, enabled) :: u.toggles }

inductive UpdatePhase where
  /-- before the rows are loaded -/
  | load (ops : List Op)
  /-- before a level is stored -/
  | store (u : Update) (subTool : Str) (level : PermissionLevel) (ops : List Op)
  /-- before the permissions are loaded for the list, and before the save -/
  | build (u : Update)
  | save (u : Update)
  | accepted
  | rejected

/-- the loop until its next await -/
def scan (R : Registry) (u : Update) : List Op → UpdatePhase
  | [] => .build u
  | .toggle name enabled :: ops => scan R (u.toggle R name enabled) ops
  | .level subTool level :: ops =>
    match PermissionLevel.parse (.str level) with
    | some level => .store u subTool level ops
    | none => .rejected

/-! ## The system -/

inductive Phase where
  | update (phase : UpdatePhase)
  /-- a chat call in `set_enabled`, before its commit -/
  | set (f : Factory) (enabled : Bool)
  | enabled
  | refused

/-- the request has returned -/
def Phase.returned : Phase → Bool
  | .update .accepted => true
  | .update .rejected => true
  | .enabled => true
  | .refused => true
  | _ => false

structure Sys where
  tables : Tables
  requests : List Phase
  /-- what each request has written -/
  writes : List (ℕ × Write)
  /-- the toggles that were accepted, the last one first -/
  accepted : List (Str × Bool)

def initial : Sys := ⟨.empty, [], [], []⟩

inductive Event where
  /-- PUT /user/tools -/
  | put (tools : List UpdateEntry)
  /-- a chat enable or disable -/
  | chat (target : Str) (enabled : Bool)
  /-- a request goes on until its next await -/
  | resume (i : ℕ)

def Sys.setPhase (s : Sys) (i : ℕ) (p : Phase) : Sys := { s with requests := s.requests.set i p }

def Sys.write (R : Registry) (s : Sys) (i : ℕ) (w : Write) : Sys :=
  { s with tables := s.tables.write R w, writes := s.writes ++ [(i, w)] }

def resume (R : Registry) (s : Sys) (i : ℕ) : Phase → Sys
  | .update (.load ops) =>
    s.setPhase i (.update (scan R ⟨s.tables.disabledNames, s.tables.disabledNames, []⟩ ops))
  | .update (.store u subTool level ops) => (s.write R i (.level subTool level)).setPhase i (.update (scan R u ops))
  | .update (.build u) => s.setPhase i (.update (.save u))
  | .update (.save u) =>
    { (s.write R i (.rows (buildToolList R u.disabledNames))).setPhase i (.update .accepted) with
      accepted := u.toggles ++ s.accepted }
  | .set f enabled =>
    { (s.write R i (.enabled f.name enabled)).setPhase i .enabled with accepted := (f.name, enabled) :: s.accepted }
  | _ => s

/-- a chat call checks the registry first -/
def chatPhase (R : Registry) (target : Str) (enabled : Bool) : Phase :=
  match R.getFactory target with
  | none => .refused
  | some f => if f.core then .refused else .set f enabled

/-- an update of nothing is rejected -/
def putPhase (R : Registry) (tools : List UpdateEntry) : Phase :=
  if tools = [] then .update .rejected else .update (.load (tools.flatMap (entryOps R)))

def step (R : Registry) (s : Sys) : Event → Sys
  | .put tools => { s with requests := s.requests ++ [putPhase R tools] }
  | .chat target enabled => { s with requests := s.requests ++ [chatPhase R target enabled] }
  | .resume i =>
    match s.requests[i]? with
    | none => s
    | some p => resume R s i p

end Clawbolt.ToolConfig

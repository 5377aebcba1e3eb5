/-
The list of tools that a turn offers (agent/tool_assembly.py, `ToolRegistry` of agent/tools/registry.py), with the three
callers that build it: a live turn (`prepare_turn_tools` of agent/router.py), the preview of the system prompt
(`build_initial_turn_tools`), and a comparison run (`build_fixture` of services/model_comparison/sampling.py).

While a list is assembled the user's state stands still, so what a factory makes and what its check answers is a function of
the context. What runs a tool is left out. Each tool stands with the factory that made it.

- `assembled_eq`: the list is what each factory offers, in order, and `list_capabilities`;
- `schemas_iff`: two lists have the same schemas exactly when every factory offers the same ones;
- `one_tool_list`: when the three lists are one, and it has what is connected and nothing else;
- `preview_drops_reply`: a turn offers `send_media_reply`, and its preview does not.
-/
import Mathlib.Tactic
import Mathlib.Data.List.Sort
import Clawbolt.Approval.StoredPermissions

namespace Clawbolt.TurnTools

open Text (Str)
open Approval (PermissionLevel Permissions getNeverToolNames ensureComplete)

/-! ## The registry -/

/-- a `Tool`; what pydantic makes of its params model is a function of the model -/
structure Tool where
  name : Str
  description : Str
  paramsModel : Str
  usageHint : Str
  /-- the default level, and what the description builder returns -/
  approvalPolicy : Option (PermissionLevel × Str)
deriving DecidableEq, Repr

/-- `message_bus.publish_outbound`, or the sink of a comparison run -/
inductive Outbound where
  | bus
  | refuse
deriving DecidableEq, Repr

structure ToolContext (Media : Type) where
  /-- a storage backend, by its access token -/
  storage : Option Str
  publishOutbound : Option Outbound
  channel : Str
  toAddress : Str
  downloadedMedia : List Media
  turnText : Str

structure SubToolInfo where
  name : Str
  description : Str
  defaultPermission : PermissionLevel
deriving DecidableEq, Repr

structure ToolFactory (Media : Type) where
  create : ToolContext Media → List Tool
  requiresStorage : Bool
  requiresOutbound : Bool
  core : Bool
  summary : Str
  subTools : List SubToolInfo
  /-- none when the user is authenticated, or the reason -/
  authCheck : Option (ToolContext Media → Option Str)

/-- the factories in the order of their registration, one a name -/
structure Registry (Media : Type) where
  factories : List (Str × ToolFactory Media)
  nodup : (factories.map Prod.fst).Nodup

section

variable {Media : Type} (R : Registry Media) (c : ToolContext Media) (excludedFactories excludedTools : List Str)

/-- the two checks of each loop: storage and outbound, where the factory requires them -/
def ToolFactory.met (f : ToolFactory Media) : Bool :=
  !(f.requiresStorage && c.storage.isNone) && !(f.requiresOutbound && c.publishOutbound.isNone)

/-- the reason of the check of a factory, if it has one -/
def ToolFactory.reason (f : ToolFactory Media) : Option Str := f.authCheck.bind fun check => check c

/-- the factories by name -/
def Registry.sorted : List (Str × ToolFactory Media) := R.factories.insertionSort fun p q => ¬ q.1 < p.1

/-- a sub-tool of a factory that has no policy gets the default one; the last sub-tool of a name wins -/
def attachPolicy (f : ToolFactory Media) (t : Tool) : Tool :=
  match t.approvalPolicy, f.subTools.reverse.find? fun st => st.name = t.name with
  | none, some sub => { t with approvalPolicy := some (sub.defaultPermission, sub.description) }
  | _, _ => t

/-- what one factory makes, without the tools that are excluded -/
def created (p : Str × ToolFactory Media) : List (Option Str × Tool) :=
  ((p.2.create c).filter fun t => !excludedTools.contains t.name).map fun t => (some p.1, attachPolicy p.2 t)

/-- `create_tools` -/
def createTools (selected : List Str) : List (Option Str × Tool) :=
  R.sorted.flatMap fun p =>
    if !selected.contains p.1 then []
    else if !p.2.met c then []
    else created c excludedTools p

/-- `core_factory_names` -/
def coreFactoryNames : List Str := (R.factories.filter fun p => p.2.core).map Prod.fst

/-- `create_core_tools` -/
def createCoreTools : List (Option Str × Tool) :=
  createTools R c excludedTools ((coreFactoryNames R).filter fun name => !excludedFactories.contains name)

/-- `get_available_specialist_summaries` -/
def getAvailableSpecialistSummaries : List (Str × Str) :=
  R.factories.filterMap fun p =>
    if p.2.core then none
    else if excludedFactories.contains p.1 then none
    else if !p.2.met c then none
    else if (p.2.reason c).isSome then none
    else some (p.1, p.2.summary)

/-- the factories that `create_ready_specialist_tools` finds ready -/
def readySpecialists : List Str :=
  R.factories.filterMap fun p =>
    if p.2.core then none
    else if excludedFactories.contains p.1 then none
    else if !p.2.met c then none
    else if (p.2.reason c).isSome then none
    else some p.1

/-- `create_ready_specialist_tools` -/
def createReadySpecialistTools : List (Option Str × Tool) :=
  if readySpecialists R c excludedFactories = [] then []
  else createTools R c excludedTools (readySpecialists R c excludedFactories)

/-- `get_unauthenticated_specialists` -/
def getUnauthenticatedSpecialists : List (Str × Str) :=
  R.factories.filterMap fun p =>
    if p.2.core then none
    else if excludedFactories.contains p.1 then none
    else if !p.2.met c then none
    else (p.2.reason c).map fun reason => (p.1, reason)

/-- `get_factory_sub_tools` -/
def getFactorySubTools (name : Str) : List SubToolInfo :=
  match R.factories.find? fun p => p.1 = name with
  | some p => p.2.subTools
  | none => []

/-- `get_disabled_specialist_sub_tools` -/
def getDisabledSpecialistSubTools : List (Str × List SubToolInfo) :=
  R.factories.filterMap fun p =>
    if p.2.core then none
    else if p.2.subTools.any fun st => excludedTools.contains st.name then
      some (p.1, p.2.subTools.filter fun st => excludedTools.contains st.name)
    else none

/-- the tools of `generate_defaults`: a tool that two factories name has the level of the last -/
def generateDefaults : Dict Str :=
  Dict.update [] (R.sorted.flatMap fun p => p.2.subTools.map fun st => (st.name, st.defaultPermission.text))

/-! ## The list -/

/-- `", ".join(sorted(names))` -/
def joinSorted (names : List Str) : Str := Text.join ", ".toList (names.insertionSort fun a b => ¬ b < a)

/-- `create_list_capabilities_tool` -/
def createListCapabilitiesTool (summaries unauthenticated : List (Str × Str)) (disabledSubs : List (Str × List SubToolInfo)) :
    Tool where
  name := "list_capabilities".toList
  description := ("Without arguments, list connected and unconnected specialist categories. With a category name, " ++
    "return usage guidance for that category\x27s already-loaded tools.").toList
  paramsModel := "ListCapabilitiesParams".toList
  usageHint := Text.join [' ']
    ((if summaries = [] then [] else
      ["list_capabilities: connected categories (tools already loaded): ".toList ++ joinSorted (summaries.map Prod.fst) ++
        ". Call it with a category name for usage guidance on that category\x27s tools.".toList]) ++
    (if unauthenticated = [] then [] else
      ["Configured but not connected: ".toList ++ joinSorted (unauthenticated.map Prod.fst) ++
        ". If the user asks about one, tell them to connect it first.".toList]) ++
    if disabledSubs = [] then [] else
      [("Some tools are disabled by the user. If a request fits an available category but no loaded tool, it may be a " ++
        "disabled one; tell the user they can re-enable it.").toList])
  approvalPolicy := none

/-- `list_capabilities`, when there is something to list -/
def listCapabilities : List (Option Str × Tool) :=
  let summaries := getAvailableSpecialistSummaries R c excludedFactories
  let unauthenticated := getUnauthenticatedSpecialists R c excludedFactories
  if summaries ≠ [] ∨ unauthenticated ≠ [] then
    [(none, createListCapabilitiesTool summaries unauthenticated (getDisabledSpecialistSubTools R excludedTools))]
  else []

/-- `assemble_turn_tools` -/
def assembleTurnTools : List (Option Str × Tool) :=
  createCoreTools R c excludedFactories excludedTools ++ createReadySpecialistTools R c excludedFactories excludedTools ++
    listCapabilities R c excludedFactories excludedTools

end

/-! ## Its callers -/

structure UserState where
  /-- `get_disabled_tool_names` -/
  disabledGroups : List Str
  /-- the permission data, as parsed -/
  permissions : Permissions
  preferredChannel : Str
  /-- a client id and a client secret are set -/
  driveConfigured : Bool
  /-- the access token of `load_token` for Drive; none without a token, or when it raises -/
  loadToken : Option Str
  /-- that of `get_valid_token`, which refreshes one that has expired -/
  validToken : Option Str

/-- `init_storage` -/
def initStorage (u : UserState) (refresh : Bool) : Option Str :=
  if u.driveConfigured then (if refresh then u.validToken else u.loadToken).filter (· ≠ []) else none

/-- what a live turn is given -/
structure Turn (Media : Type) where
  body : Str
  toAddress : Str
  downloadedMedia : List Media
  channel : Str

section

variable {Media : Type} (R : Registry Media) (u : UserState)

/-- the context of `prepare_turn_tools`, with the storage that `prepare_media` initializes -/
def turnContext (turn : Turn Media) : ToolContext Media where
  storage := initStorage u true
  publishOutbound := if turn.channel ≠ [] then some .bus else none
  channel := turn.channel
  toAddress := turn.toAddress
  downloadedMedia := turn.downloadedMedia
  turnText := turn.body

/-- `prepare_turn_tools`: none when `ensure_complete` raises; the permissions are read again after it -/
def prepareTurnTools (turn : Turn Media) : Option (List (Option Str × Tool)) :=
  (ensureComplete (generateDefaults R) u.permissions).map fun permissions =>
    assembleTurnTools R (turnContext u turn) u.disabledGroups (getNeverToolNames permissions)

def previewContext (channel toAddress : Str) : ToolContext Media where
  storage := none
  publishOutbound := none
  channel := channel
  toAddress := toAddress
  downloadedMedia := []
  turnText := []

/-- `build_initial_turn_tools` -/
def buildInitialTurnTools (channel toAddress : Str) : List (Option Str × Tool) :=
  assembleTurnTools R (previewContext channel toAddress) u.disabledGroups (getNeverToolNames u.permissions)

def fixtureContext : ToolContext Media where
  storage := initStorage u false
  publishOutbound := some .refuse
  channel := u.preferredChannel
  toAddress := []
  downloadedMedia := []
  turnText := []

/-- the tools of `build_fixture`, assembled by hand -/
def buildFixtureTools : List (Option Str × Tool) :=
  let disabledGroups := u.disabledGroups
  let disabledSubTools := getNeverToolNames u.permissions
  let tools := createCoreTools R (fixtureContext u) disabledGroups disabledSubTools ++
    createReadySpecialistTools R (fixtureContext u) disabledGroups disabledSubTools
  let specialistSummaries := getAvailableSpecialistSummaries R (fixtureContext u) disabledGroups
  let unauthenticated := getUnauthenticatedSpecialists R (fixtureContext u) disabledGroups
  if specialistSummaries ≠ [] ∨ unauthenticated ≠ [] then
    tools ++ [(none, createListCapabilitiesTool specialistSummaries unauthenticated
      (getDisabledSpecialistSubTools R disabledSubTools))]
  else tools

end

/-! ## What is claimed, and when -/

/-- an entry of the tools of a request -/
structure FunctionSchema where
  name : Str
  description : Str
  inputSchema : Json

/-- `tool_to_function_schema`; `inputSchema` is what becomes of a params model -/
def toolToFunctionSchema (inputSchema : Str → Json) (t : Tool) : FunctionSchema :=
  ⟨t.name, t.description, inputSchema t.paramsModel⟩

def schemas (inputSchema : Str → Json) (tools : List (Option Str × Tool)) : List FunctionSchema :=
  tools.map fun t => toolToFunctionSchema inputSchema t.2

section

variable {Media : Type} (R : Registry Media) (c : ToolContext Media) (D N : List Str)

/-- the list has the tools of what is connected, and none of what is not connected, disabled or set to never -/
structure Sound (tools : List (Option Str × Tool)) : Prop where
  connected : ∀ s ∈ getAvailableSpecialistSummaries R c D, ∀ st ∈ getFactorySubTools R s.1, st.name ∉ N →
    ∃ t ∈ tools, t.1 = some s.1 ∧ t.2.name = st.name
  unconnected : ∀ s ∈ getUnauthenticatedSpecialists R c D, ∀ t ∈ tools, t.1 ≠ some s.1
  never : ∀ t ∈ tools, t.2.name ∉ N
  disabled : ∀ t ∈ tools, ∀ name ∈ D, t.1 ≠ some name

/-- what one factory offers in a context -/
def offered (p : Str × ToolFactory Media) : List (Option Str × Tool) :=
  if D.contains p.1 || !p.2.met c || (!p.2.core && (p.2.reason c).isSome) then [] else created c N p

/-- some specialist that is not disabled has what it requires -/
def discovers : Bool := R.factories.any fun p => !p.2.core && !D.contains p.1 && p.2.met c

/-- `list_capabilities` is not set to never when it is listed, and a connected specialist makes all its sub-tools -/
structure Kept : Prop where
  listed : discovers R c D = true → "list_capabilities".toList ∉ N
  made : ∀ p ∈ R.factories, p.2.core = false → p.1 ∉ D → p.2.met c = true → p.2.reason c = none →
    ∀ st ∈ p.2.subTools, st.name ∉ N → ∃ t ∈ p.2.create c, t.name = st.name

end

section

variable {Media : Type} (inputSchema : Str → Json) (R : Registry Media) (u : UserState) (turn : Turn Media)
  (channel toAddress : Str)

/-- the list of the turn is there, it is that of the preview and that of the comparison run, and each is sound -/
structure OneList : Prop where
  returns : (prepareTurnTools R u turn).isSome = true
  preview : ∀ tools ∈ prepareTurnTools R u turn,
    schemas inputSchema tools = schemas inputSchema (buildInitialTurnTools R u channel toAddress)
  replay : ∀ tools ∈ prepareTurnTools R u turn, schemas inputSchema tools = schemas inputSchema (buildFixtureTools R u)
  turnSound : ∀ tools ∈ prepareTurnTools R u turn, ∀ permissions ∈ ensureComplete (generateDefaults R) u.permissions,
    Sound R (turnContext u turn) u.disabledGroups (getNeverToolNames permissions) tools
  previewSound : Sound R (previewContext channel toAddress) u.disabledGroups (getNeverToolNames u.permissions)
    (buildInitialTurnTools R u channel toAddress)
  replaySound : Sound R (fixtureContext u) u.disabledGroups (getNeverToolNames u.permissions) (buildFixtureTools R u)

/-- two contexts, each with the tools set to never, are the same to every factory -/
structure Alike (c c' : ToolContext Media) (N N' : List Str) : Prop where
  offers : ∀ p ∈ R.factories,
    schemas inputSchema (offered c u.disabledGroups N p) = schemas inputSchema (offered c' u.disabledGroups N' p)
  discovers : discovers R c u.disabledGroups = discovers R c' u.disabledGroups

/-- the permissions can be completed, each factory offers the same in the three contexts, and nothing is missing there -/
def Uniform : Prop :=
  ∃ permissions, ensureComplete (generateDefaults R) u.permissions = some permissions ∧
    Alike inputSchema R u (turnContext u turn) (previewContext channel toAddress) (getNeverToolNames permissions)
      (getNeverToolNames u.permissions) ∧
    Alike inputSchema R u (turnContext u turn) (fixtureContext u) (getNeverToolNames permissions)
      (getNeverToolNames u.permissions) ∧
    Kept R (turnContext u turn) u.disabledGroups (getNeverToolNames permissions) ∧
    Kept R (previewContext channel toAddress) u.disabledGroups (getNeverToolNames u.permissions) ∧
    Kept R (fixtureContext u) u.disabledGroups (getNeverToolNames u.permissions)

/-- a tool's name tells which factory makes it -/
structure Owned (owner : Str → Option Str) : Prop where
  made : ∀ p ∈ R.factories, ∀ c, ∀ t ∈ p.2.create c, owner t.name = some p.1
  capabilities : owner "list_capabilities".toList = none

end

/-! ## One list -/

section

variable {Media : Type} {R : Registry Media} {c c' : ToolContext Media} {D N N' : List Str}

theorem mem_sorted {p : Str × ToolFactory Media} : p ∈ R.sorted ↔ p ∈ R.factories := List.mem_insertionSort _

theorem eq_of_name {p q : Str × ToolFactory Media} (hp : p ∈ R.factories) (hq : q ∈ R.factories) (h : p.1 = q.1) : p = q :=
  List.inj_on_of_nodup_map R.nodup hp hq h

/-- a name is that of the factories that have `P`, when its factory has it -/
theorem name_mem_iff {P : Str × ToolFactory Media → Bool} {p : Str × ToolFactory Media} (hp : p ∈ R.factories) :
    p.1 ∈ (R.factories.filter P).map Prod.fst ↔ P p = true := by
  constructor
  · intro h
    obtain ⟨q, hq, hname⟩ := List.mem_map.1 h
    obtain ⟨hmem, hP⟩ := List.mem_filter.1 hq
    rw [eq_of_name hp hmem hname.symm]
    exact hP
  · intro h
    exact List.mem_map_of_mem (List.mem_filter.2 ⟨hp, h⟩)

/-- the core factories in order, then the specialists -/
def Registry.order (R : Registry Media) : List (Str × ToolFactory Media) :=
  (R.sorted.filter fun p => p.2.core) ++ R.sorted.filter fun p => !p.2.core

theorem mem_order {p : Str × ToolFactory Media} : p ∈ R.order ↔ p ∈ R.factories := by
  rw [Registry.order, List.mem_append, List.mem_filter, List.mem_filter, mem_sorted, ← and_or_left]
  cases p.2.core <;> simp

theorem order_nodup : (R.order.map Prod.fst).Nodup := by
  have hperm : R.order.Perm R.factories := (List.filter_append_perm _ _).trans (List.perm_insertionSort _ _)
  exact (hperm.map _).nodup_iff.2 R.nodup

theorem flatMap_filter {α β : Type} (q : α → Bool) (g : α → List β) (l : List α) :
    (l.filter q).flatMap g = l.flatMap fun x => if q x = true then g x else [] := by
  induction l with
  | nil => rfl
  | cons x l ih =>
    rw [List.filter_cons, List.flatMap_cons, ← ih]
    split <;> rfl

/-- `create_tools` of the factories of one kind that are ready -/
theorem createTools_eq {kind : Bool} {selected : List Str}
    (h : ∀ p ∈ R.factories, p.2.met c = true →
      (p.1 ∈ selected ↔ p.2.core = kind ∧ p.1 ∉ D ∧ (p.2.core = false → p.2.reason c = none))) :
    createTools R c N selected = (R.sorted.filter fun p => p.2.core = kind).flatMap (offered c D N) := by
  rw [createTools, flatMap_filter]
  refine List.flatMap_congr fun p hp => ?_
  cases hmet : p.2.met c with
  | false => simp [offered, hmet]
  | true =>
    have hiff := h p (mem_sorted.1 hp) hmet
    by_cases hselected : p.1 ∈ selected
    · obtain ⟨hkind, hD, hreason⟩ := hiff.1 hselected
      have hoffered : offered c D N p = created c N p := by
        rw [offered, if_neg]
        cases hcore : p.2.core with
        | true => simp [hD, hmet]
        | false => simp [hD, hmet, hreason hcore]
      simp [hselected, hkind, hoffered]
    · have hoffered : p.2.core = kind → offered c D N p = [] := by
        intro hkind
        rw [offered, if_pos]
        by_contra hnot
        refine hselected (hiff.2 ⟨hkind, ?_, ?_⟩)
        · intro hD
          exact hnot (by simp [hD])
        · intro hcore
          by_contra hreason
          exact hnot (by simp [hcore, Option.isSome_iff_ne_none.2 hreason])
      by_cases hkind : p.2.core = kind
      · simp [hselected, hkind, hoffered hkind]
      · simp [hselected, hkind]

theorem createCoreTools_eq : createCoreTools R c D N = (R.sorted.filter fun p => p.2.core).flatMap (offered c D N) := by
  have hkind : (R.sorted.filter fun p => p.2.core) = R.sorted.filter fun p => p.2.core = true := by simp
  rw [createCoreTools, hkind]
  refine createTools_eq fun p hp _ => ?_
  rw [List.mem_filter, coreFactoryNames, name_mem_iff hp]
  constructor
  · rintro ⟨hcore, hD⟩
    refine ⟨hcore, by simpa using hD, ?_⟩
    intro h
    exact absurd (h.symm.trans hcore) Bool.false_ne_true
  · rintro ⟨hcore, hD, -⟩
    exact ⟨hcore, by simpa using hD⟩

theorem mem_ready {name : Str} : name ∈ readySpecialists R c D ↔
    ∃ p ∈ R.factories, p.1 = name ∧ p.2.core = false ∧ p.1 ∉ D ∧ p.2.met c = true ∧ p.2.reason c = none := by
  rw [readySpecialists, List.mem_filterMap]
  refine exists_congr fun p => and_congr_right fun _ => ?_
  split_ifs with hcore hD hmet hreason <;> simp_all [Option.isSome_iff_ne_none]

theorem mem_summaries {s : Str × Str} : s ∈ getAvailableSpecialistSummaries R c D ↔
    ∃ p ∈ R.factories, (p.1, p.2.summary) = s ∧ p.2.core = false ∧ p.1 ∉ D ∧ p.2.met c = true ∧ p.2.reason c = none := by
  rw [getAvailableSpecialistSummaries, List.mem_filterMap]
  refine exists_congr fun p => and_congr_right fun _ => ?_
  split_ifs with hcore hD hmet hreason <;> simp_all [Option.isSome_iff_ne_none]

theorem mem_unauthenticated {s : Str × Str} : s ∈ getUnauthenticatedSpecialists R c D ↔
    ∃ p ∈ R.factories, p.1 = s.1 ∧ p.2.core = false ∧ p.1 ∉ D ∧ p.2.met c = true ∧ p.2.reason c = some s.2 := by
  rw [getUnauthenticatedSpecialists, List.mem_filterMap]
  refine exists_congr fun p => and_congr_right fun _ => ?_
  split_ifs with hcore hD hmet
  · simp_all
  · simp_all
  · simp_all
  · cases hreason : p.2.reason c <;> simp_all [Prod.ext_iff]

theorem createReadySpecialistTools_eq :
    createReadySpecialistTools R c D N = (R.sorted.filter fun p => !p.2.core).flatMap (offered c D N) := by
  have hkind : (R.sorted.filter fun p => !p.2.core) = R.sorted.filter fun p => p.2.core = false := by simp
  have hready : createReadySpecialistTools R c D N = createTools R c N (readySpecialists R c D) := by
    rw [createReadySpecialistTools]
    split
    · rename_i h
      simp [createTools, h]
    · rfl
  rw [hready, hkind]
  refine createTools_eq fun p hp hmet => ?_
  rw [mem_ready]
  constructor
  · rintro ⟨q, hq, hname, hcore, hD, -, hreason⟩
    obtain rfl := eq_of_name hq hp hname
    exact ⟨hcore, hD, fun _ => hreason⟩
  · rintro ⟨hcore, hD, hreason⟩
    exact ⟨p, hp, rfl, hcore, hD, hmet, hreason hcore⟩

/-- **What a list is.** What each factory offers, the core ones first, and `list_capabilities`. -/
theorem assembled_eq : assembleTurnTools R c D N = R.order.flatMap (offered c D N) ++ listCapabilities R c D N := by
  rw [assembleTurnTools, createCoreTools_eq, createReadySpecialistTools_eq, Registry.order, List.flatMap_append]

/-- a comparison run assembles by hand what `assemble_turn_tools` does -/
theorem buildFixtureTools_eq (u : UserState) : buildFixtureTools R u =
    assembleTurnTools R (fixtureContext u) u.disabledGroups (getNeverToolNames u.permissions) := by
  simp only [buildFixtureTools, assembleTurnTools, listCapabilities]
  split
  · rfl
  · rw [List.append_nil]

/-- what is listed: a specialist that has what it requires, connected or not -/
theorem listCapabilities_cases :
    (discovers R c D = true ∧ ∃ summaries unauthenticated subs,
      listCapabilities R c D N = [(none, createListCapabilitiesTool summaries unauthenticated subs)]) ∨
    (discovers R c D = false ∧ listCapabilities R c D N = []) := by
  have hiff : discovers R c D = true ↔
      getAvailableSpecialistSummaries R c D ≠ [] ∨ getUnauthenticatedSpecialists R c D ≠ [] := by
    rw [discovers, List.any_eq_true]
    constructor
    · rintro ⟨p, hp, h⟩
      simp only [Bool.and_eq_true, Bool.not_eq_true', List.contains_eq_mem, decide_eq_false_iff_not] at h
      obtain ⟨⟨hcore, hD⟩, hmet⟩ := h
      cases hreason : p.2.reason c with
      | none => exact Or.inl (List.ne_nil_of_mem (mem_summaries.2 ⟨p, hp, rfl, hcore, hD, hmet, hreason⟩))
      | some reason =>
        have hmem : (p.1, reason) ∈ getUnauthenticatedSpecialists R c D :=
          mem_unauthenticated.2 ⟨p, hp, rfl, hcore, hD, hmet, hreason⟩
        exact Or.inr (List.ne_nil_of_mem hmem)
    · rintro (h | h)
      · obtain ⟨s, hs⟩ := List.exists_mem_of_ne_nil _ h
        obtain ⟨p, hp, -, hcore, hD, hmet, -⟩ := mem_summaries.1 hs
        exact ⟨p, hp, by simp [hcore, hD, hmet]⟩
      · obtain ⟨s, hs⟩ := List.exists_mem_of_ne_nil _ h
        obtain ⟨p, hp, -, hcore, hD, hmet, -⟩ := mem_unauthenticated.1 hs
        exact ⟨p, hp, by simp [hcore, hD, hmet]⟩
  simp only [listCapabilities]
  split
  · rename_i h
    exact Or.inl ⟨hiff.2 h, _, _, _, rfl⟩
  · rename_i h
    exact Or.inr ⟨Bool.eq_false_iff.2 fun hd => h (hiff.1 hd), rfl⟩

/-- the one tool that no factory made -/
theorem of_mem_listCapabilities {t : Option Str × Tool} (h : t ∈ listCapabilities R c D N) :
    discovers R c D = true ∧ ∃ s un d, t = (none, createListCapabilitiesTool s un d) := by
  rcases listCapabilities_cases (R := R) (c := c) (D := D) (N := N) with ⟨hdiscovers, s, un, d, heq⟩ | ⟨-, heq⟩
  · rw [heq, List.mem_singleton] at h
    exact ⟨hdiscovers, s, un, d, h⟩
  · rw [heq] at h
    cases h

/-! ## Schemas -/

/-- the items with one key in a list of parts of different keys -/
theorem filter_parts {α β κ : Type} [DecidableEq κ] {name : α → κ} {key : β → Option κ} {g : α → List β} {l : List α}
    (hkey : ∀ a ∈ l, ∀ x ∈ g a, key x = some (name a)) (hnodup : (l.map name).Nodup) {a : α} (ha : a ∈ l) :
    (l.flatMap g).filter (fun x => key x = some (name a)) = g a := by
  induction l with
  | nil => exact absurd ha List.not_mem_nil
  | cons b l ih =>
    rw [List.map_cons, List.nodup_cons] at hnodup
    obtain ⟨hb, hl⟩ := hnodup
    rw [List.flatMap_cons, List.filter_append]
    have hkey' : ∀ a ∈ l, ∀ x ∈ g a, key x = some (name a) := fun a ha => hkey a (List.mem_cons_of_mem _ ha)
    rcases List.mem_cons.1 ha with rfl | hmem
    · have hself : (g a).filter (fun x => key x = some (name a)) = g a :=
        List.filter_eq_self.2 fun x hx => decide_eq_true (hkey a List.mem_cons_self x hx)
      have hrest : (l.flatMap g).filter (fun x => key x = some (name a)) = [] := by
        refine List.filter_eq_nil_iff.2 fun x hx heq => ?_
        obtain ⟨a', ha', hx'⟩ := List.mem_flatMap.1 hx
        rw [decide_eq_true_eq, hkey' a' ha' x hx', Option.some.injEq] at heq
        exact hb (heq ▸ List.mem_map_of_mem ha')
      rw [hself, hrest, List.append_nil]
    · have hother : (g b).filter (fun x => key x = some (name a)) = [] := by
        refine List.filter_eq_nil_iff.2 fun x hx heq => ?_
        rw [decide_eq_true_eq, hkey b List.mem_cons_self x hx, Option.some.injEq] at heq
        exact hb (heq ▸ List.mem_map_of_mem hmem)
      rw [hother, List.nil_append]
      exact ih hkey' hl hmem

variable {inputSchema : Str → Json} {u : UserState}

theorem attachPolicy_name (f : ToolFactory Media) (t : Tool) : (attachPolicy f t).name = t.name := by
  rw [attachPolicy]
  split <;> rfl

theorem mem_created {p : Str × ToolFactory Media} {t : Option Str × Tool} : t ∈ created c N p ↔
    ∃ t' ∈ p.2.create c, t'.name ∉ N ∧ t = (some p.1, attachPolicy p.2 t') := by
  rw [created, List.mem_map]
  constructor
  · rintro ⟨t', hmem, rfl⟩
    obtain ⟨hcreate, hN⟩ := List.mem_filter.1 hmem
    exact ⟨t', hcreate, by simpa using hN, rfl⟩
  · rintro ⟨t', hcreate, hN, rfl⟩
    exact ⟨t', List.mem_filter.2 ⟨hcreate, by simpa using hN⟩, rfl⟩

/-- what is offered is not disabled, has what it requires, and is authenticated when it is a specialist -/
theorem mem_offered {p : Str × ToolFactory Media} {t : Option Str × Tool} : t ∈ offered c D N p ↔
    p.1 ∉ D ∧ p.2.met c = true ∧ (p.2.core = false → p.2.reason c = none) ∧ t ∈ created c N p := by
  rw [offered]
  split
  · rename_i h
    refine ⟨fun ht => absurd ht List.not_mem_nil, ?_⟩
    rintro ⟨hD, hmet, hreason, -⟩
    cases hcore : p.2.core with
    | true => simp [hD, hmet, hcore] at h
    | false => simp [hD, hmet, hreason hcore] at h
  · rename_i h
    refine ⟨fun ht => ?_, fun ht => ht.2.2.2⟩
    simp only [Bool.or_eq_true, Bool.and_eq_true, not_or, List.contains_eq_mem, decide_eq_true_eq, Bool.not_eq_true',
      Bool.not_eq_false] at h
    obtain ⟨⟨hD, hmet⟩, hreason⟩ := h
    refine ⟨hD, hmet, ?_, ht⟩
    intro hcore
    rw [← Option.not_isSome_iff_eq_none]
    exact fun hsome => hreason ⟨hcore, hsome⟩

theorem schemas_assembled : schemas inputSchema (assembleTurnTools R c D N) =
    (R.order.flatMap fun p => schemas inputSchema (offered c D N p)) ++ schemas inputSchema (listCapabilities R c D N) := by
  rw [assembled_eq, schemas, List.map_append, List.map_flatMap]
  rfl

/-- the schemas of `list_capabilities` say only whether it is listed -/
theorem schemas_listCapabilities : schemas inputSchema (listCapabilities R c D N) =
    if discovers R c D = true then [toolToFunctionSchema inputSchema (createListCapabilitiesTool [] [] [])] else [] := by
  rcases listCapabilities_cases (R := R) (c := c) (D := D) (N := N) with ⟨h, s, un, d, heq⟩ | ⟨h, heq⟩
  · rw [heq, if_pos h]
    rfl
  · rw [heq, if_neg (Bool.eq_false_iff.1 h)]
    rfl

theorem schemas_of_alike (h : Alike inputSchema R u c c' N N') :
    schemas inputSchema (assembleTurnTools R c u.disabledGroups N) =
      schemas inputSchema (assembleTurnTools R c' u.disabledGroups N') := by
  rw [schemas_assembled, schemas_assembled, schemas_listCapabilities, schemas_listCapabilities, h.discovers]
  congr 1
  exact List.flatMap_congr fun p hp => h.offers p (mem_order.1 hp)

/-- the owner of each schema that a factory offers -/
theorem owner_offered {owner : Str → Option Str} (h : Owned R owner) {p : Str × ToolFactory Media} (hp : p ∈ R.factories) :
    ∀ s ∈ schemas inputSchema (offered c D N p), owner s.name = some p.1 := by
  intro s hs
  obtain ⟨t, ht, rfl⟩ := List.mem_map.1 hs
  obtain ⟨t', hcreate, -, rfl⟩ := mem_created.1 (mem_offered.1 ht).2.2.2
  have hname : (toolToFunctionSchema inputSchema (attachPolicy p.2 t')).name = t'.name := attachPolicy_name p.2 t'
  rw [hname]
  exact h.made p hp c t' hcreate

/-- the schemas of one factory in the list -/
theorem schemas_of_owner {owner : Str → Option Str} (h : Owned R owner) {p : Str × ToolFactory Media} (hp : p ∈ R.factories) :
    (schemas inputSchema (assembleTurnTools R c D N)).filter (fun s => owner s.name = some p.1) =
      schemas inputSchema (offered c D N p) := by
  have hlisted : (schemas inputSchema (listCapabilities R c D N)).filter (fun s => owner s.name = some p.1) = [] := by
    refine List.filter_eq_nil_iff.2 fun s hs heq => ?_
    rw [schemas_listCapabilities] at hs
    split at hs
    · have hnone : owner s.name = none := by
        rw [List.mem_singleton.1 hs]
        exact h.capabilities
      rw [decide_eq_true_eq, hnone] at heq
      cases heq
    · cases hs
  rw [schemas_assembled, List.filter_append, hlisted, List.append_nil]
  exact filter_parts (fun q hq => owner_offered h (mem_order.1 hq)) order_nodup (mem_order.2 hp)

/-- **The same schemas.** Factories that offer the same make the same list, and when a name tells its factory, no others do. -/
theorem schemas_iff {owner : Str → Option Str} (h : Owned R owner) :
    schemas inputSchema (assembleTurnTools R c u.disabledGroups N) =
      schemas inputSchema (assembleTurnTools R c' u.disabledGroups N') ↔ Alike inputSchema R u c c' N N' := by
  refine ⟨fun heq => ?_, schemas_of_alike⟩
  have hoffers : ∀ p ∈ R.factories,
      schemas inputSchema (offered c u.disabledGroups N p) = schemas inputSchema (offered c' u.disabledGroups N' p) := by
    intro p hp
    rw [← schemas_of_owner h hp, ← schemas_of_owner h hp, heq]
  refine ⟨hoffers, ?_⟩
  rw [schemas_assembled, schemas_assembled, schemas_listCapabilities, schemas_listCapabilities,
    List.flatMap_congr fun p hp => hoffers p (mem_order.1 hp)] at heq
  have hlisted := congrArg List.length (List.append_cancel_left heq)
  cases hc : discovers R c u.disabledGroups <;> cases hc' : discovers R c' u.disabledGroups <;> simp_all

/-! ## What the list holds -/

theorem getFactorySubTools_eq {p : Str × ToolFactory Media} (hp : p ∈ R.factories) :
    getFactorySubTools R p.1 = p.2.subTools := by
  rw [getFactorySubTools]
  cases h : R.factories.find? fun q => q.1 = p.1 with
  | none => exact absurd (List.find?_eq_none.1 h p hp) (by simp)
  | some q =>
    have hname : q.1 = p.1 := by simpa using List.find?_some h
    rw [eq_of_name (List.mem_of_find?_eq_some h) hp hname]

/-- a tool of the list that a factory made -/
theorem mem_assembled {name : Str} {t : Option Str × Tool} (h : t ∈ assembleTurnTools R c D N) (hname : t.1 = some name) :
    ∃ p ∈ R.factories, p.1 = name ∧ t ∈ offered c D N p := by
  rw [assembled_eq] at h
  rcases List.mem_append.1 h with h | h
  · obtain ⟨p, hp, ht⟩ := List.mem_flatMap.1 h
    refine ⟨p, mem_order.1 hp, ?_, ht⟩
    obtain ⟨t', -, -, rfl⟩ := mem_created.1 (mem_offered.1 ht).2.2.2
    exact Option.some.inj hname
  · obtain ⟨-, s, un, d, rfl⟩ := of_mem_listCapabilities h
    cases hname

/-- **What a list holds.** It is sound exactly when it keeps what is set to never out, and every sub-tool in. -/
theorem sound_iff : Sound R c D N (assembleTurnTools R c D N) ↔ Kept R c D N := by
  constructor
  · intro h
    refine ⟨fun hdiscovers => ?_, ?_⟩
    · rcases listCapabilities_cases (R := R) (c := c) (D := D) (N := N) with ⟨-, s, un, d, heq⟩ | ⟨hnot, -⟩
      · refine h.never (none, createListCapabilitiesTool s un d) ?_
        rw [assembled_eq, heq]
        exact List.mem_append_right _ (List.mem_singleton_self _)
      · exact absurd (hdiscovers.symm.trans hnot) Bool.noConfusion
    · intro p hp hcore hD hmet hreason st hst hN
      have hsummary : (p.1, p.2.summary) ∈ getAvailableSpecialistSummaries R c D :=
        mem_summaries.2 ⟨p, hp, rfl, hcore, hD, hmet, hreason⟩
      rw [← getFactorySubTools_eq hp] at hst
      obtain ⟨t, ht, hmade, hname⟩ := h.connected _ hsummary st hst hN
      obtain ⟨q, hq, hsame, hoffered⟩ := mem_assembled ht hmade
      obtain rfl := eq_of_name hq hp hsame
      obtain ⟨t', hcreate, -, rfl⟩ := mem_created.1 (mem_offered.1 hoffered).2.2.2
      rw [attachPolicy_name] at hname
      exact ⟨t', hcreate, hname⟩
  · intro h
    refine ⟨?_, ?_, ?_, ?_⟩
    · intro s hs st hst hN
      obtain ⟨p, hp, rfl, hcore, hD, hmet, hreason⟩ := mem_summaries.1 hs
      rw [getFactorySubTools_eq hp] at hst
      obtain ⟨t, hcreate, hname⟩ := h.made p hp hcore hD hmet hreason st hst hN
      refine ⟨(some p.1, attachPolicy p.2 t), ?_, rfl, ?_⟩
      · rw [assembled_eq]
        refine List.mem_append_left _ (List.mem_flatMap.2 ⟨p, mem_order.2 hp, ?_⟩)
        exact mem_offered.2 ⟨hD, hmet, fun _ => hreason, mem_created.2 ⟨t, hcreate, by rw [hname]; exact hN, rfl⟩⟩
      · rw [attachPolicy_name, hname]
    · intro s hs t ht hmade
      obtain ⟨p, hp, hname, hcore, -, -, hreason⟩ := mem_unauthenticated.1 hs
      obtain ⟨q, hq, hsame, hoffered⟩ := mem_assembled ht hmade
      obtain rfl := eq_of_name hq hp (hsame.trans hname.symm)
      rw [(mem_offered.1 hoffered).2.2.1 hcore] at hreason
      cases hreason
    · intro t ht
      rw [assembled_eq] at ht
      rcases List.mem_append.1 ht with ht | ht
      · obtain ⟨p, -, hoffered⟩ := List.mem_flatMap.1 ht
        obtain ⟨t', -, hN, rfl⟩ := mem_created.1 (mem_offered.1 hoffered).2.2.2
        rw [attachPolicy_name]
        exact hN
      · obtain ⟨hdiscovers, s, un, d, rfl⟩ := of_mem_listCapabilities ht
        exact h.listed hdiscovers
    · intro t ht name hD hmade
      obtain ⟨p, -, rfl, hoffered⟩ := mem_assembled ht hmade
      exact (mem_offered.1 hoffered).1 hD

end

/-- **One tool list.** The lists of a live turn, of the preview and of a comparison run are one, with the tools of what is
connected and none of what is not connected, disabled or set to never, when the permissions can be completed, each factory
offers the same in the three contexts, `list_capabilities` is listed alike and not set to never, and each connected specialist
makes all its sub-tools. When the name of a tool tells its factory, they are one only then. -/
theorem one_tool_list {Media : Type} (inputSchema : Str → Json) (R : Registry Media) (u : UserState) (turn : Turn Media)
    (channel toAddress : Str) :
    (Uniform inputSchema R u turn channel toAddress → OneList inputSchema R u turn channel toAddress) ∧
    ∀ owner, Owned R owner →
      (OneList inputSchema R u turn channel toAddress ↔ Uniform inputSchema R u turn channel toAddress) := by
  have hone : Uniform inputSchema R u turn channel toAddress → OneList inputSchema R u turn channel toAddress := by
    rintro ⟨permissions, hcomplete, hpreview, hreplay, hturn, hkept, hkept'⟩
    have hlist : prepareTurnTools R u turn =
        some (assembleTurnTools R (turnContext u turn) u.disabledGroups (getNeverToolNames permissions)) := by
      rw [prepareTurnTools, hcomplete]
      rfl
    refine ⟨by rw [hlist]; rfl, ?_, ?_, ?_, sound_iff.2 hkept, ?_⟩
    · intro tools htools
      rw [hlist, Option.mem_some_iff] at htools
      rw [← htools]
      exact schemas_of_alike hpreview
    · intro tools htools
      rw [hlist, Option.mem_some_iff] at htools
      rw [← htools, buildFixtureTools_eq]
      exact schemas_of_alike hreplay
    · intro tools htools permissions' hcomplete'
      rw [hlist, Option.mem_some_iff] at htools
      rw [hcomplete, Option.mem_some_iff] at hcomplete'
      rw [← htools, ← hcomplete']
      exact sound_iff.2 hturn
    · rw [buildFixtureTools_eq]
      exact sound_iff.2 hkept'
  refine ⟨hone, fun owner howned => ⟨fun h => ?_, hone⟩⟩
  obtain ⟨tools, htools⟩ := Option.isSome_iff_exists.1 h.returns
  obtain ⟨permissions, hcomplete, rfl⟩ := Option.map_eq_some_iff.1 htools
  have hreplay := h.replay _ htools
  have hreplaySound := h.replaySound
  rw [buildFixtureTools_eq] at hreplay hreplaySound
  exact ⟨permissions, hcomplete, (schemas_iff howned).1 (h.preview _ htools), (schemas_iff howned).1 hreplay,
    sound_iff.1 (h.turnSound _ htools _ hcomplete), sound_iff.1 h.previewSound, sound_iff.1 hreplaySound⟩

/-! ## Two registries -/

/-- a tool of the messaging factory -/
def sendMediaReply : Tool :=
  ⟨"send_media_reply".toList, "Send a file".toList, "SendMediaReplyParams".toList, [], some (.always, "Send".toList)⟩

/-- the messaging factory, and Gmail on a deployment without a client id: its check answers none, and it makes nothing -/
def defaultFactories : Registry Unit where
  factories := [
    ("messaging".toList, ⟨fun _ => [sendMediaReply], false, true, true, [],
      [⟨"send_media_reply".toList, "Send replies".toList, .always⟩], none⟩),
    ("gmail".toList, ⟨fun _ => [], false, false, false, "Search, read, and send".toList,
      [⟨"gmail_search".toList, "Search the inbox".toList, .ask⟩], some fun _ => none⟩)]
  nodup := by decide

/-- a user with nothing stored -/
def newUser : UserState := ⟨[], Approval.parseRowData none, "telegram".toList, false, none, none⟩

def hello : Turn Unit := ⟨"Hello".toList, "7".toList, [], "telegram".toList⟩

/-- the preview leaves out the tool that the turn offers, and the turn lists Gmail as connected without a tool of it -/
theorem preview_drops_reply :
    (prepareTurnTools defaultFactories newUser hello).map (·.map fun t => t.2.name) =
      some ["send_media_reply".toList, "list_capabilities".toList] ∧
    (buildInitialTurnTools defaultFactories newUser "telegram".toList "7".toList).map (fun t => t.2.name) =
      ["list_capabilities".toList] ∧
    getAvailableSpecialistSummaries defaultFactories (turnContext newUser hello) [] =
      [("gmail".toList, "Search, read, and send".toList)] ∧
    ¬OneList (fun _ => .obj []) defaultFactories newUser hello "telegram".toList "7".toList := by
  have hturn : (prepareTurnTools defaultFactories newUser hello).map (·.map fun t => t.2.name) =
      some ["send_media_reply".toList, "list_capabilities".toList] := by rfl
  have hpreview : (buildInitialTurnTools defaultFactories newUser "telegram".toList "7".toList).map (fun t => t.2.name) =
      ["list_capabilities".toList] := by rfl
  refine ⟨hturn, hpreview, by rfl, ?_⟩
  intro h
  obtain ⟨tools, htools, hnames⟩ := Option.map_eq_some_iff.1 hturn
  have hsame := congrArg (List.map FunctionSchema.name) (h.preview tools htools)
  rw [schemas, schemas, List.map_map, List.map_map] at hsame
  have hlists : tools.map (fun t => t.2.name) =
      (buildInitialTurnTools defaultFactories newUser "telegram".toList "7".toList).map fun t => t.2.name := hsame
  rw [hnames, hpreview] at hlists
  exact absurd hlists (by decide)

/-- a core factory, and a specialist that the user is connected to -/
def connectedFactories : Registry Unit where
  factories := [
    ("workspace".toList, ⟨fun _ => [⟨"read_file".toList, "Read".toList, "ReadFileParams".toList, [], none⟩], false, false,
      true, [], [⟨"read_file".toList, "Read files".toList, .always⟩], none⟩),
    ("calendar".toList, ⟨fun _ => [⟨"list_events".toList, "List".toList, "ListEventsParams".toList, [], none⟩], false, false,
      false, "List events".toList, [⟨"list_events".toList, "List events".toList, .ask⟩], some fun _ => none⟩)]
  nodup := by decide

theorem one_tool_list_connected : OneList (fun _ => .obj []) connectedFactories newUser hello "telegram".toList [] := by
  refine (one_tool_list (fun _ => .obj []) connectedFactories newUser hello "telegram".toList []).1 ?_
  have hkept : ∀ c : ToolContext Unit, Kept connectedFactories c [] [] := by
    intro c
    refine ⟨fun _ => List.not_mem_nil, ?_⟩
    simp [connectedFactories]
  have halike : ∀ c c' : ToolContext Unit, Alike (fun _ => .obj []) connectedFactories newUser c c' [] [] := by
    intro c c'
    refine ⟨?_, by rfl⟩
    intro p hp
    simp only [connectedFactories, List.mem_cons, List.not_mem_nil, or_false] at hp
    rcases hp with rfl | rfl <;> rfl
  exact ⟨_, rfl, halike _ _, halike _ _, hkept _, hkept _, hkept _⟩

end Clawbolt.TurnTools

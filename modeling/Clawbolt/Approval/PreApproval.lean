/-
The pre-approval of an onboarding turn (`run_agent` and `prepare_turn_tools` of agent/router.py, with `ensure_complete`,
`get_never_tool_names` and `set_permission` of agent/approval.py): what it leaves of the stored permissions, over the turns
of a user who decides and edits nothing.

A turn fills in the registered defaults, offers its tools less those at never and, while the user is onboarding, sets two
tools to always; then it runs what the model calls and the gate lets through. A step that raises ends the turn there.

- `turn_holds`: a turn keeps what the stored data says, up to the two tools that are set;
- `preApproval_ends`: turns that come after no onboarding turn, or find both tools at always before, resolve as before;
- `deletes_after_onboarding`: a user's never on `delete_file`, gone after the first onboarding turn.
-/
import Mathlib.Tactic
import Clawbolt.Approval.StoredPermissions

namespace Clawbolt.Approval.PreApproval

open Text (Str)

/-! ## Model -/

/-- a tool as a turn may offer it -/
structure Tool where
  name : Str
  /-- whether it has an approval policy -/
  approvalPolicy : Bool

structure Call where
  name : Str
  resource : Option Str
deriving DecidableEq

structure Turn where
  isOnboarding : Bool
  /-- the tools of the enabled factories -/
  available : List Tool
  /-- what the model calls -/
  calls : List Call

/-- what a turn leaves and did -/
structure Outcome where
  data : Permissions
  offered : List Tool
  ran : List Call

/-- `_onboarding_auto_tools` -/
def onboardingAutoTools : List Str := ["delete_file".toList, "send_media_reply".toList]

/-- the registered sub-tools with their default levels -/
abbrev Registry := Dict PermissionLevel

/-- `generate_defaults` -/
def generateDefaults (registry : Registry) : Dict Str := registry.map fun e => (e.1, e.2.text)

/-- the policy default of a tool: its registered one -/
def policyDefault (registry : Registry) (tool : Str) : PermissionLevel := (registry.lookup tool).getD .ask

section

variable (registry : Registry)

/-- the pre-approval, and whether it went through -/
def preApprove : List Str → Permissions → Permissions × Bool
  | [], data => (data, true)
  | tool :: tools, data =>
    match setPermission (generateDefaults registry) data tool .always none with
    | some data' => preApprove tools data'
    | none => (data, false)

/-- `_get_tool_permission` -/
def getToolPermission (data : Permissions) (tool : Tool) (resource : Option Str) : Option PermissionLevel :=
  if tool.approvalPolicy then resolvePermission data tool.name resource (policyDefault registry tool.name)
  else some .always

/-- the calls that run when nobody approves one; the last tool of a name is the one that is called -/
def ran (data : Permissions) (offered : List Tool) (calls : List Call) : List Call :=
  calls.filter fun c =>
    match offered.reverse.find? fun tool => tool.name = c.name with
    | some tool => getToolPermission registry data tool c.resource = some .always
    | none => false

/-- the tools less those at never -/
def offer (data : Permissions) (available : List Tool) : List Tool :=
  available.filter fun tool => tool.name ∉ getNeverToolNames data

/-- `prepare_turn_tools`, then `run_agent` -/
def turn (data : Permissions) (t : Turn) : Outcome :=
  match ensureComplete (generateDefaults registry) data with
  | none => ⟨data, [], []⟩
  | some data =>
    let offered := offer data t.available
    if t.isOnboarding then
      match preApprove registry onboardingAutoTools data with
      | (data', true) => ⟨data', offered, ran registry data' offered t.calls⟩
      | (data', false) => ⟨data', offered, []⟩
    else ⟨data, offered, ran registry data offered t.calls⟩

/-- the turns with what each did -/
def history : List Turn → Permissions → List (Turn × Outcome)
  | [], _ => []
  | t :: ts, data => (t, turn registry data t) :: history ts (turn registry data t).data

/-! ## The claim -/

/-- the level of a tool, without a resource -/
abbrev levelOf (data : Permissions) (tool : Str) : Option PermissionLevel :=
  toolLevel data tool (policyDefault registry tool)

/-- what a turn owes to the permissions `P` from before -/
structure Keeps (P : Permissions) (t : Turn) (o : Outcome) : Prop where
  resolves : t.isOnboarding = false → ∀ tool resource,
    resolvePermission o.data tool resource (policyDefault registry tool) =
      resolvePermission P tool resource (policyDefault registry tool)
  notOffered : ∀ tool ∈ o.offered, levelOf registry P tool.name ≠ some .never
  notRun : ∀ c ∈ o.ran, levelOf registry P c.name ≠ some .never

def PreApprovalEnds (P : Permissions) (ts : List Turn) : Prop := ∀ e ∈ history registry ts P, Keeps registry P e.1 e.2

/-- the stored tools are an object, so that a pre-approval goes through -/
def HasTools (P : Permissions) : Prop := ∃ tools, (P.lookup "tools".toList).getD (.obj []) = .obj tools

/-- a turn on which a pre-approval from before has no effect -/
def Unaffected (P : Permissions) (u : Turn) : Prop :=
  ∀ tool ∈ onboardingAutoTools,
    if u.isOnboarding then levelOf registry P tool = some .never → ∀ offered ∈ u.available, offered.name ≠ tool
    else levelOf registry P tool = some .always

/-- every turn after an onboarding turn is such a turn -/
def Harmless (P : Permissions) (ts : List Turn) : Prop :=
  HasTools P → ts.Pairwise fun t u => t.isOnboarding = true → Unaffected registry P u

end

/-! ## Entries of the tools -/

/-- the tools are an object with these entries -/
def Entries (data : Permissions) (entries : Str → Option Json) : Prop :=
  ∃ tools, (data.lookup "tools".toList).getD (.obj []) = .obj tools ∧ ∀ t, tools.lookup t = entries t

section

variable {data data' : Permissions} {entries : Str → Option Json} {registry : Registry}

theorem levelOf_entries (h : Entries data entries) (tool : Str) :
    levelOf registry data tool =
      match entries tool with
      | some level => PermissionLevel.parse level
      | none => some (policyDefault registry tool) := by
  obtain ⟨tools, htools, hentries⟩ := h
  have hlevel := toolLevel_obj htools tool (policyDefault registry tool)
  rw [hentries] at hlevel
  exact hlevel

/-- a resource is decided by the resources and the level of the tool -/
theorem resolvePermission_congr {default : PermissionLevel} {tool : Str}
    (hres : data'.lookup "resources".toList = data.lookup "resources".toList)
    (hlevel : toolLevel data' tool default = toolLevel data tool default) (resource : Option Str) :
    resolvePermission data' tool resource default = resolvePermission data tool resource default := by
  have hmap : resourceMap? data' tool = resourceMap? data tool := by simp only [resourceMap?, hres]
  simp only [resolvePermission, hmap, hlevel]

theorem entries_set (data : Permissions) {tools : Dict Json} (h : ∀ t, tools.lookup t = entries t) (tool : Str) (v : Json) :
    Entries (Dict.set "tools".toList (.obj (Dict.set tool v tools)) data)
      (fun t => if t = tool then some v else entries t) := by
  refine ⟨Dict.set tool v tools, by rw [Dict.lookup_set, if_pos rfl]; rfl, fun t => ?_⟩
  rw [Dict.lookup_set, h t]

theorem resources_set (data : Permissions) (v : Json) :
    (Dict.set "tools".toList v data).lookup "resources".toList = data.lookup "resources".toList := by
  rw [Dict.lookup_set, if_neg (by decide)]

theorem lookup_setdefault_eq (k t : Str) (v : Json) (d : Dict Json) :
    (setdefault k v d).lookup t = if t = k then some ((d.lookup t).getD v) else d.lookup t := by
  unfold setdefault
  cases hl : d.lookup k with
  | some w =>
    rw [if_pos (by rw [Dict.has, hl]; rfl)]
    split_ifs with ht
    · rw [ht, hl]
      rfl
    · rfl
  | none =>
    rw [if_neg (by rw [Dict.has, hl]; exact Bool.false_ne_true), Dict.lookup_set]
    split_ifs with ht
    · rw [ht, hl]
      rfl
    · rfl

/-- filling in one default -/
theorem complete_entries (h : Entries data entries) (e : Str × Str) :
    ∃ data', complete e data = some data' ∧ data'.lookup "resources".toList = data.lookup "resources".toList ∧
      Entries data' fun t => if t = e.1 then some ((entries t).getD (.str e.2)) else entries t := by
  obtain ⟨tools, htools, hentries⟩ := h
  have hone : ∀ v, entries e.1 = some v → entries = fun t => if t = e.1 then some ((entries t).getD (.str e.2)) else entries t := by
    intro v hv
    funext t
    split_ifs with ht
    · rw [ht, hv]
      rfl
    · rfl
  cases hv : entries e.1 with
  | some v =>
    have hhas : Dict.has e.1 tools = true := by rw [Dict.has, hentries, hv]; rfl
    refine ⟨data, by simp only [complete, contains, htools, hhas], rfl, ?_⟩
    rw [← hone v hv]
    exact ⟨tools, htools, hentries⟩
  | none =>
    have hhas : Dict.has e.1 tools = false := by rw [Dict.has, hentries, hv]; rfl
    refine ⟨Dict.set "tools".toList (.obj (Dict.set e.1 (.str e.2) tools)) data, ?_, resources_set _ _, ?_⟩
    · simp only [complete, contains, htools, hhas]
      exact updateAt_isSome htools rfl
    · have hset := entries_set data hentries e.1 (.str e.2)
      have heq : (fun t => if t = e.1 then some (Json.str e.2) else entries t) =
          fun t => if t = e.1 then some ((entries t).getD (.str e.2)) else entries t := by
        funext t
        split_ifs with ht
        · rw [ht, hv]
          rfl
        · rfl
      rw [← heq]
      exact hset

/-- the entries once the registered defaults are filled in -/
def filled (registry : Registry) (entries : Str → Option Json) (tool : Str) : Option Json :=
  (entries tool).or ((registry.lookup tool).map fun level => .str level.text)

theorem filled_nil (entries : Str → Option Json) : filled [] entries = entries := by
  funext t
  exact Option.or_none

theorem filled_cons (e : Str × PermissionLevel) (registry : Registry) (entries : Str → Option Json) :
    filled (e :: registry) entries =
      filled registry fun t => if t = e.1 then some ((entries t).getD (.str e.2.text)) else entries t := by
  funext t
  simp only [filled]
  by_cases ht : t = e.1
  · rw [if_pos ht, ht, show (e :: registry).lookup e.1 = some e.2 from Dict.lookup_cons_self _ _ _]
    cases entries e.1 with
    | none => rfl
    | some v => rfl
  · rw [if_neg ht, show (e :: registry).lookup t = registry.lookup t from Dict.lookup_cons_ne ht e.2 registry]

theorem ensureComplete_entries (registry : Registry) (h : Entries data entries) :
    ∃ data', ensureComplete (generateDefaults registry) data = some data' ∧
      data'.lookup "resources".toList = data.lookup "resources".toList ∧ Entries data' (filled registry entries) := by
  induction registry generalizing data entries with
  | nil =>
    refine ⟨data, rfl, rfl, ?_⟩
    rw [filled_nil]
    exact h
  | cons e registry ih =>
    obtain ⟨mid, hstep, hres, hmid⟩ := complete_entries h (e.1, e.2.text)
    obtain ⟨data', hrest, hres', hdata'⟩ := ih hmid
    refine ⟨data', ?_, hres'.trans hres, ?_⟩
    · rw [generateDefaults, List.map_cons, ensureComplete, List.foldlM_cons, hstep]
      exact hrest
    · rw [filled_cons]
      exact hdata'

theorem backfill_entries (registry : Registry) (h : Entries data entries) :
    ∃ data', backfill (generateDefaults registry) data = some data' ∧
      data'.lookup "resources".toList = data.lookup "resources".toList ∧ Entries data' (filled registry entries) := by
  induction registry generalizing data entries with
  | nil =>
    refine ⟨data, rfl, rfl, ?_⟩
    rw [filled_nil]
    exact h
  | cons e registry ih =>
    obtain ⟨tools, htools, hentries⟩ := h
    have hstep := updateAt_isSome htools (f := fun tools => some (setdefault e.1 (.str e.2.text) tools)) rfl
    have hmid : Entries (Dict.set "tools".toList (.obj (setdefault e.1 (.str e.2.text) tools)) data)
        fun t => if t = e.1 then some ((entries t).getD (.str e.2.text)) else entries t := by
      refine ⟨setdefault e.1 (.str e.2.text) tools, by rw [Dict.lookup_set, if_pos rfl]; rfl, fun t => ?_⟩
      rw [lookup_setdefault_eq, hentries]
    obtain ⟨data', hrest, hres', hdata'⟩ := ih hmid
    refine ⟨data', ?_, hres'.trans (resources_set _ _), ?_⟩
    · rw [generateDefaults, List.map_cons, backfill, List.foldlM_cons, hstep]
      exact hrest
    · rw [filled_cons]
      exact hdata'

theorem filled_idem (registry : Registry) (entries : Str → Option Json) :
    filled registry (filled registry entries) = filled registry entries := by
  funext t
  simp only [filled]
  cases entries t with
  | some v => rfl
  | none =>
    cases registry.lookup t with
    | some level => rfl
    | none => rfl

/-- the pre-approval sets its tools, and nothing else but defaults -/
theorem preApprove_entries (registry : Registry) (tools : List Str) (h : Entries data entries) :
    ∃ data', preApprove registry tools data = (data', true) ∧
      data'.lookup "resources".toList = data.lookup "resources".toList ∧
      ∃ entries', Entries data' entries' ∧ ∀ t, entries' t =
        if t ∈ tools then some (.str PermissionLevel.always.text)
        else if tools = [] then entries t else filled registry entries t := by
  induction tools generalizing data entries with
  | nil => exact ⟨data, rfl, rfl, entries, h, fun t => rfl⟩
  | cons tool tools ih =>
    obtain ⟨mid, hfill, hres, hmid⟩ := backfill_entries registry h
    obtain ⟨mtools, hmtools, hmentries⟩ := hmid
    have hset : setPermission (generateDefaults registry) data tool .always none =
        some (Dict.set "tools".toList (.obj (Dict.set tool (.str PermissionLevel.always.text) mtools)) mid) :=
      Option.bind_eq_some_iff.2 ⟨mid, hfill, updateAt_isSome hmtools rfl⟩
    obtain ⟨data', hrest, hres', entries', hdata', hentries'⟩ :=
      ih (entries_set mid hmentries tool (.str PermissionLevel.always.text))
    refine ⟨data', ?_, hres'.trans ((resources_set _ _).trans hres), entries', hdata', fun t => ?_⟩
    · rw [preApprove, hset]
      exact hrest
    · rw [hentries' t, if_neg (List.cons_ne_nil tool tools)]
      by_cases hin : t ∈ tools
      · rw [if_pos hin, if_pos (List.mem_cons_of_mem _ hin)]
      · rw [if_neg hin]
        by_cases ht : t = tool
        · rw [if_pos (List.mem_cons.2 (Or.inl ht))]
          split_ifs
          · rfl
          · simp only [filled, if_pos ht]
            rfl
        · have hcons : t ∉ tool :: tools := fun hm => (List.mem_cons.1 hm).elim ht hin
          rw [if_neg hcons]
          split_ifs
          · rfl
          · simp only [filled, if_neg ht]
            cases entries t with
            | some v => rfl
            | none =>
              cases registry.lookup t with
              | some level => rfl
              | none => rfl

end

/-! ## Levels -/

section

variable {data : Permissions} {entries : Str → Option Json} {registry : Registry}

theorem eq_of_parse {v : Json} {level : PermissionLevel} (h : PermissionLevel.parse v = some level) : v = .str level.text := by
  unfold PermissionLevel.parse at h
  split at h
  next s =>
    split_ifs at h with h1 h2 h3
    · cases h
      rw [h1]
      rfl
    · cases h
      rw [h2]
      rfl
    · cases h
      rw [h3]
      rfl
  next => cases h

/-- the level that an entry gives, or the default without one -/
def levelAt (registry : Registry) (entries : Str → Option Json) (tool : Str) : Option PermissionLevel :=
  match entries tool with
  | some level => PermissionLevel.parse level
  | none => some (policyDefault registry tool)

/-- filling in decides nothing anew -/
theorem levelAt_filled (entries : Str → Option Json) (tool : Str) :
    levelAt registry (filled registry entries) tool = levelAt registry entries tool := by
  simp only [levelAt, filled]
  cases entries tool with
  | some v => rfl
  | none =>
    cases hl : registry.lookup tool with
    | some level =>
      have hdefault : policyDefault registry tool = level := by rw [policyDefault, hl]; rfl
      rw [hdefault]
      exact PermissionLevel.parse_text level
    | none => rfl

/-- a tool at never has that entry, once the defaults are filled in -/
theorem filled_never {tool : Str} (h : levelAt registry entries tool = some .never) :
    filled registry entries tool = some (.str PermissionLevel.never.text) := by
  rw [← levelAt_filled] at h
  unfold levelAt at h
  split at h
  next v hv => rw [hv, eq_of_parse h]
  next hnone =>
    simp only [filled, Option.or_eq_none_iff, Option.map_eq_none_iff] at hnone
    rw [policyDefault, hnone.2] at h
    cases h

theorem mem_never_of_entry {tool : Str} (h : Entries data entries)
    (hentry : entries tool = some (.str PermissionLevel.never.text)) : tool ∈ getNeverToolNames data := by
  obtain ⟨tools, htools, hentries⟩ := h
  rw [← hentries] at hentry
  simp only [getNeverToolNames, htools]
  exact List.mem_map.2 ⟨_, List.mem_filter.2 ⟨Dict.mem_of_lookup hentry, decide_eq_true rfl⟩, rfl⟩

/-- what runs was offered -/
theorem offered_of_ran {offered : List Tool} {calls : List Call} {c : Call} (h : c ∈ ran registry data offered calls) :
    ∃ tool ∈ offered, tool.name = c.name := by
  have hruns := (List.mem_filter.1 h).2
  split at hruns
  next tool hfind => exact ⟨tool, List.mem_reverse.1 (List.mem_of_find?_eq_some hfind), of_decide_eq_true (List.find?_some hfind :)⟩
  next => cases hruns

end

/-! ## Turns -/

section

variable {registry : Registry} {P data : Permissions} {e₀ : Str → Option Json} {approved : Bool}

/-- what the stored data is after turns that began with the entries `e₀` of `P`; `approved` says whether one of them was an
onboarding turn -/
structure Follows (registry : Registry) (P : Permissions) (e₀ : Str → Option Json) (approved : Bool) (data : Permissions) :
    Prop where
  resources : data.lookup "resources".toList = P.lookup "resources".toList
  entries : ∃ entries, Entries data entries ∧ ∀ t,
    if approved = true ∧ t ∈ onboardingAutoTools then entries t = some (.str PermissionLevel.always.text)
    else entries t = e₀ t ∨ entries t = filled registry e₀ t

/-- away from the two tools, or where these are at always, the levels are those of `P` -/
theorem Follows.level (h : Follows registry P e₀ approved data) (hP : Entries P e₀) {tool : Str}
    (htool : approved = true → tool ∈ onboardingAutoTools → levelOf registry P tool = some .always) :
    levelOf registry data tool = levelOf registry P tool := by
  obtain ⟨entries, hdata, hentries⟩ := h.entries
  have hentry := hentries tool
  have hread : levelOf registry data tool = levelAt registry entries tool := levelOf_entries hdata tool
  have hreadP : levelOf registry P tool = levelAt registry e₀ tool := levelOf_entries hP tool
  split_ifs at hentry with hauto
  · rw [htool hauto.1 hauto.2, hread, levelAt, hentry]
    exact PermissionLevel.parse_text .always
  · rw [hread, hreadP]
    obtain hsame | hfilled := hentry
    · rw [levelAt, levelAt, hsame]
    · calc levelAt registry entries tool
          = levelAt registry (filled registry e₀) tool := by rw [levelAt, levelAt, hfilled]
        _ = levelAt registry e₀ tool := levelAt_filled e₀ tool

theorem filled_of_follows {entries : Str → Option Json} {t : Str} (h : entries t = e₀ t ∨ entries t = filled registry e₀ t) :
    filled registry entries t = filled registry e₀ t := by
  obtain h | h := h
  · rw [filled, filled, h]
  · calc filled registry entries t
        = filled registry (filled registry e₀) t := by rw [filled, filled, h]
      _ = filled registry e₀ t := congrFun (filled_idem registry e₀) t

/-- `ensure_complete` keeps this, and fills in -/
theorem Follows.complete (h : Follows registry P e₀ approved data) :
    ∃ data', ensureComplete (generateDefaults registry) data = some data' ∧ Follows registry P e₀ approved data' ∧
      ∀ t, ¬ (approved = true ∧ t ∈ onboardingAutoTools) →
        ∃ entries, Entries data' entries ∧ entries t = filled registry e₀ t := by
  obtain ⟨entries, hdata, hentries⟩ := h.entries
  obtain ⟨data', hcomplete, hres, hdata'⟩ := ensureComplete_entries registry hdata
  refine ⟨data', hcomplete, ⟨hres.trans h.resources, filled registry entries, hdata', fun t => ?_⟩, fun t hauto => ?_⟩
  · have hentry := hentries t
    split_ifs at hentry ⊢ with hauto
    · rw [filled, hentry]
      rfl
    · exact Or.inr (filled_of_follows hentry)
  · have hentry := hentries t
    rw [if_neg hauto] at hentry
    exact ⟨filled registry entries, hdata', filled_of_follows hentry⟩

/-- the pre-approval goes through, and is what later turns find -/
theorem Follows.preApprove (h : Follows registry P e₀ approved data) :
    ∃ data', preApprove registry onboardingAutoTools data = (data', true) ∧ Follows registry P e₀ true data' := by
  obtain ⟨entries, hdata, hentries⟩ := h.entries
  obtain ⟨data', happrove, hres, entries', hdata', hentries'⟩ := preApprove_entries registry onboardingAutoTools hdata
  refine ⟨data', happrove, hres.trans h.resources, entries', hdata', fun t => ?_⟩
  have hentry := hentries t
  rw [hentries' t]
  by_cases htool : t ∈ onboardingAutoTools
  · rw [if_pos htool, if_pos ⟨rfl, htool⟩]
  · rw [if_neg fun hauto => htool hauto.2] at hentry
    have hne : onboardingAutoTools ≠ [] := List.cons_ne_nil _ _
    rw [if_neg htool, if_neg hne, if_neg fun hauto => htool hauto.2]
    exact Or.inr (filled_of_follows hentry)

/-- **One turn.** It keeps what it owes, and later turns find the data of `P`, up to the tools of a pre-approval. -/
theorem turn_holds (hP : Entries P e₀) (h : Follows registry P e₀ approved data) {u : Turn}
    (hu : approved = true → Unaffected registry P u) :
    Keeps registry P u (turn registry data u) ∧
      Follows registry P e₀ (approved || u.isOnboarding) (turn registry data u).data := by
  obtain ⟨data', hcomplete, hdata', hfilled⟩ := h.complete
  -- a tool at never is not offered: its entry says so, unless it is one of the two tools after a pre-approval
  have hoffered : ∀ tool ∈ offer data' u.available, levelOf registry P tool.name ≠ some .never := by
    intro tool htool hnever
    obtain ⟨havailable, hname⟩ := List.mem_filter.1 htool
    refine of_decide_eq_true hname ?_
    by_cases hauto : approved = true ∧ tool.name ∈ onboardingAutoTools
    · have hunaffected := hu hauto.1 _ hauto.2
      split_ifs at hunaffected
      · exact absurd rfl (hunaffected hnever tool havailable)
      · rw [hunaffected] at hnever
        cases hnever
    · obtain ⟨entries, hentries, hentry⟩ := hfilled tool.name hauto
      have hlevel : levelAt registry e₀ tool.name = some .never := (levelOf_entries hP tool.name).symm.trans hnever
      exact mem_never_of_entry hentries (hentry.trans (filled_never hlevel))
  have hran : ∀ d, ∀ c ∈ ran registry d (offer data' u.available) u.calls, levelOf registry P c.name ≠ some .never := by
    intro d c hc
    obtain ⟨tool, htool, hname⟩ := offered_of_ran hc
    rw [← hname]
    exact hoffered tool htool
  cases honboarding : u.isOnboarding with
  | true =>
    obtain ⟨data'', happrove, hdata''⟩ := hdata'.preApprove
    have hturn : turn registry data u = ⟨data'', offer data' u.available, ran registry data'' (offer data' u.available) u.calls⟩ := by
      simp only [turn, hcomplete, honboarding, happrove, if_true]
    rw [hturn, Bool.or_true]
    have hno : ¬ u.isOnboarding = false := by rw [honboarding]; exact fun hf => Bool.false_ne_true hf.symm
    exact ⟨⟨fun hfalse => absurd hfalse hno, hoffered, hran data''⟩, hdata''⟩
  | false =>
    have hturn : turn registry data u = ⟨data', offer data' u.available, ran registry data' (offer data' u.available) u.calls⟩ := by
      simp only [turn, hcomplete, honboarding]
      rfl
    rw [hturn, Bool.or_false]
    refine ⟨⟨fun _ tool resource => ?_, hoffered, hran data'⟩, hdata'⟩
    refine resolvePermission_congr hdata'.resources (hdata'.level hP fun happroved htool => ?_) resource
    have hunaffected := hu happroved tool htool
    rw [if_neg (by rw [honboarding]; exact Bool.false_ne_true)] at hunaffected
    exact hunaffected

/-! ## Stored data without tools -/

theorem complete_of_not_hasTools (h : ¬ HasTools data) {e : Str × Str} {data' : Permissions}
    (hc : complete e data = some data') :
    data' = data ∧ contains e.1 ((data.lookup "tools".toList).getD (.obj [])) = some true := by
  unfold complete at hc
  split at hc
  next hcontains => exact ⟨(Option.some.inj hc).symm, hcontains⟩
  next =>
    obtain ⟨tools, -, htools, -⟩ := updateAt_eq_some.1 hc
    exact absurd ⟨tools, htools⟩ h
  next => cases hc

theorem ensureComplete_of_not_hasTools (h : ¬ HasTools data) {data' : Permissions}
    (hc : ensureComplete (generateDefaults registry) data = some data') :
    data' = data ∧ ∀ e ∈ registry, contains e.1 ((data.lookup "tools".toList).getD (.obj [])) = some true := by
  induction registry with
  | nil => exact ⟨(Option.some.inj hc).symm, fun e he => by cases he⟩
  | cons e registry ih =>
    rw [generateDefaults, List.map_cons, ensureComplete, List.foldlM_cons] at hc
    obtain ⟨mid, hmid, hrest⟩ := Option.bind_eq_some_iff.1 hc
    obtain ⟨rfl, hcontains⟩ := complete_of_not_hasTools h hmid
    obtain ⟨hsame, hall⟩ := ih hrest
    exact ⟨hsame, List.forall_mem_cons.2 ⟨hcontains, hall⟩⟩

/-- a turn changes nothing of such data, and offers no tool at never -/
theorem turn_of_not_hasTools (registry : Registry) (h : ¬ HasTools P) (u : Turn) :
    Keeps registry P u (turn registry P u) ∧ (turn registry P u).data = P := by
  have hset : ∀ data tool, ¬ HasTools data → setPermission (generateDefaults registry) data tool .always none = none := by
    intro data tool hdata
    cases hs : setPermission (generateDefaults registry) data tool .always none with
    | none => rfl
    | some data' =>
      obtain ⟨mid, hfill, hput⟩ := Option.bind_eq_some_iff.1 hs
      obtain ⟨mtools, -, hmid, -, -⟩ := updateAt_eq_some.1 hput
      obtain ⟨tools, htools, -⟩ := (backfill_keeps hfill).2 mtools hmid
      exact absurd ⟨tools, htools⟩ hdata
  cases hc : ensureComplete (generateDefaults registry) P with
  | none =>
    have hturn : turn registry P u = ⟨P, [], []⟩ := by simp only [turn, hc]
    rw [hturn]
    exact ⟨⟨fun _ _ _ => rfl, fun _ hm => (List.not_mem_nil hm).elim, fun _ hm => (List.not_mem_nil hm).elim⟩, rfl⟩
  | some data' =>
    obtain ⟨rfl, hall⟩ := ensureComplete_of_not_hasTools h hc
    -- every registered tool is found in what is stored, so no level is read off a default of never
    have hlevel : ∀ tool, levelOf registry data' tool ≠ some .never := by
      intro tool hnever
      rw [levelOf, toolLevel] at hnever
      split at hnever
      next tools htools => exact h ⟨tools, htools⟩
      next htools =>
        split at hnever
        next hcontains =>
          cases hl : registry.lookup tool with
          | none =>
            rw [policyDefault, hl] at hnever
            cases hnever
          | some level =>
            have hmem := hall _ (Dict.mem_of_lookup hl)
            rw [hcontains] at hmem
            cases hmem
        next => cases hnever
    have happrove : preApprove registry onboardingAutoTools data' = (data', false) := by
      rw [onboardingAutoTools, preApprove, hset data' _ h]
    have hdata : (turn registry data' u).data = data' := by
      simp only [turn, hc, happrove]
      split_ifs
      · rfl
      · rfl
    refine ⟨⟨fun _ tool resource => by rw [hdata], fun tool _ => hlevel tool.name, fun c _ => hlevel c.name⟩, hdata⟩

/-! ## Runs -/

theorem history_keeps (hP : Entries P e₀) (ts : List Turn) (h : Follows registry P e₀ approved data)
    (happroved : approved = true → ∀ u ∈ ts, Unaffected registry P u)
    (hts : ts.Pairwise fun t u => t.isOnboarding = true → Unaffected registry P u) :
    ∀ e ∈ history registry ts data, Keeps registry P e.1 e.2 := by
  induction ts generalizing approved data with
  | nil => exact fun _ he => (List.not_mem_nil he).elim
  | cons t ts ih =>
    obtain ⟨hlater, hrest⟩ := List.pairwise_cons.1 hts
    obtain ⟨hkeeps, hnext⟩ := turn_holds hP h fun ha => happroved ha t List.mem_cons_self
    refine List.forall_mem_cons.2 ⟨hkeeps, ih hnext (fun ha u hu => ?_) hrest⟩
    obtain ha | ht := Bool.or_eq_true_iff.1 ha
    · exact happroved ha u (List.mem_cons_of_mem _ hu)
    · exact hlater u hu ht

theorem history_of_not_hasTools (h : ¬ HasTools P) (ts : List Turn) :
    ∀ e ∈ history registry ts P, Keeps registry P e.1 e.2 := by
  induction ts with
  | nil => exact fun _ he => (List.not_mem_nil he).elim
  | cons t ts ih =>
    obtain ⟨hkeeps, hdata⟩ := turn_of_not_hasTools registry h t
    refine List.forall_mem_cons.2 ⟨hkeeps, ?_⟩
    rw [hdata]
    exact ih

end

/-- **Pre-approval.** For all stored data and all turns without a decision or an edit: it ends with onboarding and overrides
nothing when every turn after an onboarding turn finds the two tools at always in the data from before, or is an onboarding
turn that has none of the two tools that are at never. -/
theorem preApproval_ends (registry : Registry) (P : Permissions) (ts : List Turn) (h : Harmless registry P ts) :
    PreApprovalEnds registry P ts := by
  by_cases htools : HasTools P
  · obtain ⟨tools, hobj⟩ := htools
    have hP : Entries P (fun t => tools.lookup t) := ⟨tools, hobj, fun _ => rfl⟩
    have hstart : Follows registry P (fun t => tools.lookup t) false P :=
      ⟨rfl, fun t => tools.lookup t, hP, fun t => by rw [if_neg fun hauto => Bool.false_ne_true hauto.1]; exact Or.inl rfl⟩
    exact history_keeps hP ts hstart (fun ha => (Bool.false_ne_true ha).elim) (h ⟨tools, hobj⟩)
  · exact history_of_not_hasTools htools ts

/-- the two tools with their registered defaults -/
def autoDefaults : Registry := [("delete_file".toList, .ask), ("send_media_reply".toList, .always)]

/-- `delete_file` is at never -/
def neverDelete : Permissions := [("tools".toList, .obj [("delete_file".toList, .str PermissionLevel.never.text)])]

/-- an onboarding turn, and a turn that deletes a file -/
def onboardingThenDelete : List Turn :=
  [⟨true, [⟨"delete_file".toList, true⟩], []⟩, ⟨false, [⟨"delete_file".toList, true⟩], [⟨"delete_file".toList, none⟩]⟩]

theorem deletes_after_onboarding : ¬ PreApprovalEnds autoDefaults neverDelete onboardingThenDelete := by
  intro h
  have hsecond := h ((history autoDefaults onboardingThenDelete neverDelete).get ⟨1, by decide⟩) (List.get_mem _ _)
  have hran : (⟨"delete_file".toList, none⟩ : Call) ∈
      ((history autoDefaults onboardingThenDelete neverDelete).get ⟨1, by decide⟩).2.ran := by decide +kernel
  exact hsecond.notRun _ hran (by decide +kernel)

/-- `preApproval_ends` for a user who had allowed both tools -/
theorem preApproval_ends_allowed :
    PreApprovalEnds [("delete_file".toList, .always), ("send_media_reply".toList, .always)] [] onboardingThenDelete := by
  refine preApproval_ends _ _ _ fun _ => ?_
  refine List.pairwise_cons.2 ⟨fun u hu _ => ?_, List.pairwise_singleton _ _⟩
  obtain rfl := List.mem_singleton.1 hu
  intro tool htool
  rw [if_neg Bool.false_ne_true]
  obtain rfl | htool := List.mem_cons.1 htool
  · decide +kernel
  · obtain rfl := List.mem_singleton.1 htool
    decide +kernel

end Clawbolt.Approval.PreApproval

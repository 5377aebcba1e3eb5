/-
The permission store (`resolve_permission` and `set_permission` of `ApprovalStore` in agent/approval.py): the levels that a
user's decisions leave for a tool, or for one resource of it.

The stored data is any JSON object. It is read as Python reads it, so a value of another type than the store writes may
raise (none). A write reads the data again and fills in the default of every registered tool before it sets its own entry;
writing and reading back a JSON text gives the same data.

- `entryOf_set`: which resources the entry of a resource decides;
- `backfill_toolLevel`: filling in the registered defaults decides nothing anew;
- `decision_remembered`: when exactly remembering a decision changes nothing else.
-/
import Mathlib.Tactic
import Clawbolt.Core.Glob
import Clawbolt.Core.Json

namespace Clawbolt.Approval

open Text (Str)
open Glob (fnmatch)

/-! ## Model -/

inductive PermissionLevel where
  | always
  | ask
  | never
deriving DecidableEq, Repr

namespace PermissionLevel

/-- `str(level)` -/
def text : PermissionLevel → Str
  | .always => "always".toList
  | .ask => "ask".toList
  | .never => "never".toList

/-- `PermissionLevel(value)` -/
def parse : Json → Option PermissionLevel
  | .str s =>
    if s = "always".toList then some .always
    else if s = "ask".toList then some .ask
    else if s = "never".toList then some .never
    else none
  | _ => none

theorem parse_text (l : PermissionLevel) : parse (.str l.text) = some l := by cases l <;> decide

theorem exists_ne (l : Option PermissionLevel) : ∃ l', some l' ≠ l := by
  cases l with
  | none => exact ⟨.ask, by simp⟩
  | some l => cases l with
    | always => exact ⟨.never, by decide⟩
    | ask => exact ⟨.always, by decide⟩
    | never => exact ⟨.always, by decide⟩

end PermissionLevel

/-- a user's permission data, as parsed -/
abbrev Permissions := Dict Json

/-- `x in value` -/
def contains (x : Str) : Json → Option Bool
  | .obj d => some (Dict.has x d)
  | .arr l => some (l.any fun v => Json.eqv (.str x) v)
  | .str s => some (Text.contains x s)
  | _ => none

/-- the entry of a resource map that decides a resource: its own, or the first pattern that matches -/
def entryOf (resourceMap : Dict Json) (resource : Str) : Option Json :=
  match resourceMap.lookup resource with
  | some level => some level
  | none => (resourceMap.find? fun kv => fnmatch resource kv.1).map Prod.snd

/-- `data.get("resources", {}).get(tool_name, {})`; an entry is read only from an object -/
def resourceMap? (data : Permissions) (tool : Str) : Option (Dict Json) :=
  match (data.lookup "resources".toList).getD (.obj []) with
  | .obj resources =>
    match (resources.lookup tool).getD (.obj []) with
    | .obj map => some map
    | _ => none
  | _ => none

/-- the tool-level check -/
def toolLevel (data : Permissions) (tool : Str) (default : PermissionLevel) : Option PermissionLevel :=
  match (data.lookup "tools".toList).getD (.obj []) with
  | .obj tools =>
    match tools.lookup tool with
    | some level => PermissionLevel.parse level
    | none => some default
  | tools =>
    match contains tool tools with
    | some false => some default
    | _ => none

/-- `resolve_permission` -/
def resolvePermission (data : Permissions) (tool : Str) (resource : Option Str) (default : PermissionLevel) :
    Option PermissionLevel :=
  match resource with
  | none => toolLevel data tool default
  | some r =>
    match resourceMap? data tool with
    | none => none
    | some map =>
      match entryOf map r with
      | some level => PermissionLevel.parse level
      | none => toolLevel data tool default

/-- `d.setdefault(k, v)` -/
def setdefault (k : Str) (v : Json) (d : Dict Json) : Dict Json := if Dict.has k d then d else Dict.set k v d

/-- a change of `d.setdefault(k, {})`, which has to be an object -/
def updateAt (k : Str) (f : Dict Json → Option (Dict Json)) (d : Dict Json) : Option (Dict Json) :=
  match (d.lookup k).getD (.obj []) with
  | .obj inner => (f inner).map fun inner' => Dict.set k (.obj inner') d
  | _ => none

/-- the default of every registered tool that has no level -/
def backfill (defaults : Dict Str) (data : Permissions) : Option Permissions :=
  defaults.foldlM (fun d e => updateAt "tools".toList (fun tools => some (setdefault e.1 (.str e.2) tools)) d) data

/-- `set_permission`; `defaults` are the tools of `generate_defaults` -/
def setPermission (defaults : Dict Str) (data : Permissions) (tool : Str) (level : PermissionLevel)
    (resource : Option Str) : Option Permissions :=
  (backfill defaults data).bind fun data =>
    match resource with
    | some r =>
      updateAt "resources".toList
        (updateAt tool fun map => some (Dict.set r (.str level.text) map)) data
    | none => updateAt "tools".toList (fun tools => some (Dict.set tool (.str level.text) tools)) data

/-! ## The entry of a resource -/

/-- the entries before that of `resource` -/
def earlier (map : Dict Json) (resource : Str) : Dict Json := map.takeWhile fun kv => kv.1 ≠ resource

/-- the entry of `resource` is read for another resource too: no entry of its own and no earlier pattern decides that
one -/
def ReadFor (map : Dict Json) (resource other : Str) : Prop :=
  map.lookup other = none ∧ fnmatch other resource = true ∧
    ∀ kv ∈ earlier map resource, fnmatch other kv.1 = false

instance (map : Dict Json) (resource other : Str) : Decidable (ReadFor map resource other) := by
  unfold ReadFor
  infer_instance

/-- the first pattern that matches, with the entry of `resource` set -/
theorem find_set (map : Dict Json) (resource other : Str) (level : Json) :
    ((Dict.set resource level map).find? fun kv => fnmatch other kv.1).map Prod.snd =
      if fnmatch other resource = true ∧ ∀ kv ∈ earlier map resource, fnmatch other kv.1 = false then some level
      else (map.find? fun kv => fnmatch other kv.1).map Prod.snd := by
  induction map with
  | nil => cases hf : fnmatch other resource <;> simp [Dict.set, earlier, hf]
  | cons kv map ih =>
    obtain ⟨a, b⟩ := kv
    by_cases ha : a = resource
    · subst ha
      cases hf : fnmatch other a <;> simp [Dict.set, earlier, hf]
    · have htake : earlier ((a, b) :: map) resource = (a, b) :: earlier map resource := by simp [earlier, ha]
      rw [htake, Dict.set, if_neg ha]
      cases hf : fnmatch other a with
      | true => simp [hf]
      | false =>
        rw [List.find?_cons_of_neg (by simp [hf]), List.find?_cons_of_neg (by simp [hf]), ih]
        simp only [List.forall_mem_cons, hf, true_and]

/-- **Which resources an entry decides.** Its own, and those it is read for. -/
theorem entryOf_set (map : Dict Json) {resource other : Str} (hne : other ≠ resource) (level : Json) :
    entryOf (Dict.set resource level map) other =
      if ReadFor map resource other then some level else entryOf map other := by
  unfold entryOf ReadFor
  rw [Dict.lookup_set, if_neg hne]
  rcases Option.eq_none_or_eq_some (map.lookup other) with hl | ⟨v, hl⟩
  · simp only [hl, find_set, true_and]
  · simp only [hl, reduceCtorEq, false_and, if_false]

theorem entryOf_set_self (map : Dict Json) (resource : Str) (level : Json) :
    entryOf (Dict.set resource level map) resource = some level := by
  unfold entryOf
  rw [Dict.lookup_set, if_pos rfl]

/-- a resource without metacharacters is read for no other one -/
theorem not_readFor_plain {resource : Str} (h : ∀ c ∈ resource, Glob.isMeta c = false) (map : Dict Json) {other : Str}
    (hne : other ≠ resource) : ¬ ReadFor map resource other := by
  intro hread
  exact hne ((Glob.fnmatch_plain h).1 hread.2.1)

/-! ## Writing -/

theorem updateAt_eq_some {k : Str} {f : Dict Json → Option (Dict Json)} {d d' : Dict Json} :
    updateAt k f d = some d' ↔
      ∃ inner inner', (d.lookup k).getD (.obj []) = .obj inner ∧ f inner = some inner' ∧
        d' = Dict.set k (.obj inner') d := by
  unfold updateAt
  cases hv : (d.lookup k).getD (.obj []) with
  | obj inner =>
    simp only [Option.map_eq_some_iff, Json.obj.injEq]
    constructor
    · intro h
      obtain ⟨inner', hf, hd⟩ := h
      exact ⟨inner, inner', rfl, hf, hd.symm⟩
    · intro h
      obtain ⟨_, inner', rfl, hf, hd⟩ := h
      exact ⟨inner', hf, hd.symm⟩
  | _ => simp

/-- the tool level with the tools set -/
theorem toolLevel_set (data : Permissions) (tools : Dict Json) (tool : Str) (default : PermissionLevel) :
    toolLevel (Dict.set "tools".toList (.obj tools) data) tool default =
      match tools.lookup tool with
      | some level => PermissionLevel.parse level
      | none => some default := by
  unfold toolLevel
  rw [Dict.lookup_set, if_pos rfl]
  rfl

theorem toolLevel_obj {data : Permissions} {tools : Dict Json}
    (h : (data.lookup "tools".toList).getD (.obj []) = .obj tools) (tool : Str) (default : PermissionLevel) :
    toolLevel data tool default =
      match tools.lookup tool with
      | some level => PermissionLevel.parse level
      | none => some default := by
  unfold toolLevel
  rw [h]

theorem toolLevel_congr {data data' : Permissions}
    (h : data'.lookup "tools".toList = data.lookup "tools".toList) (tool : Str) (default : PermissionLevel) :
    toolLevel data' tool default = toolLevel data tool default := by
  unfold toolLevel
  rw [h]

theorem resourceMap_congr {data data' : Permissions}
    (h : data'.lookup "resources".toList = data.lookup "resources".toList) (tool : Str) :
    resourceMap? data' tool = resourceMap? data tool := by
  unfold resourceMap?
  rw [h]

section

variable {defaults : Dict Str} {dflt : Str → PermissionLevel}

/-- **Filling in the defaults** decides nothing that the policies do not decide. -/
theorem backfill_toolLevel (hreg : ∀ e ∈ defaults, e.2 = (dflt e.1).text) {data data' : Permissions}
    (h : backfill defaults data = some data') :
    data'.lookup "resources".toList = data.lookup "resources".toList ∧
      ∀ tool, toolLevel data' tool (dflt tool) = toolLevel data tool (dflt tool) := by
  have hkeys : "resources".toList ≠ "tools".toList := by decide
  induction defaults generalizing data with
  | nil =>
    obtain rfl := Option.some.inj h
    exact ⟨rfl, fun _ => rfl⟩
  | cons e defaults ih =>
    unfold backfill at h
    rw [List.foldlM_cons] at h
    obtain ⟨mid, hmid, hrest⟩ := Option.bind_eq_some_iff.1 h
    obtain ⟨h1, h2⟩ := ih (fun x hx => hreg x (List.mem_cons_of_mem _ hx)) hrest
    obtain ⟨tools, tools', htools, hset, rfl⟩ := updateAt_eq_some.1 hmid
    obtain rfl := Option.some.inj hset
    refine ⟨h1.trans (by rw [Dict.lookup_set, if_neg hkeys]), fun tool => (h2 tool).trans ?_⟩
    rw [toolLevel_set, toolLevel_obj htools]
    unfold setdefault
    cases hhas : Dict.has e.1 tools with
    | true => rw [if_pos rfl]
    | false =>
      rw [if_neg Bool.false_ne_true, Dict.lookup_set]
      by_cases he : tool = e.1
      · subst he
        rw [if_pos rfl, Dict.has_eq_false.1 hhas, hreg e List.mem_cons_self]
        exact PermissionLevel.parse_text _
      · rw [if_neg he]

/-- what a write for a resource leaves -/
theorem setPermission_resource (hreg : ∀ e ∈ defaults, e.2 = (dflt e.1).text) {data data' : Permissions} {tool r : Str}
    {level : PermissionLevel} (h : setPermission defaults data tool level (some r) = some data') :
    (∀ t, toolLevel data' t (dflt t) = toolLevel data t (dflt t)) ∧
      (∀ t, t ≠ tool → resourceMap? data' t = resourceMap? data t) ∧
      ∃ map, resourceMap? data tool = some map ∧
        resourceMap? data' tool = some (Dict.set r (.str level.text) map) := by
  have hkeys : "tools".toList ≠ "resources".toList := by decide
  obtain ⟨mid, hmid, hset⟩ := Option.bind_eq_some_iff.1 h
  obtain ⟨h1, h2⟩ := backfill_toolLevel hreg hmid
  obtain ⟨resources, resources', hres, hinner, rfl⟩ := updateAt_eq_some.1 hset
  obtain ⟨map, map', hmap, hlevel, rfl⟩ := updateAt_eq_some.1 hinner
  obtain rfl := Option.some.inj hlevel
  have hread : ∀ t, resourceMap? data t =
      match (resources.lookup t).getD (.obj []) with
      | .obj map => some map
      | _ => none := by
    intro t
    rw [← resourceMap_congr h1]
    unfold resourceMap?
    rw [hres]
  have hread' : ∀ t, resourceMap? (Dict.set "resources".toList
      (.obj (Dict.set tool (.obj (Dict.set r (.str level.text) map)) resources)) mid) t =
      match ((Dict.set tool (.obj (Dict.set r (.str level.text) map)) resources).lookup t).getD (.obj []) with
      | .obj map => some map
      | _ => none := by
    intro t
    unfold resourceMap?
    rw [Dict.lookup_set, if_pos rfl]
    rfl
  refine ⟨fun t => ?_, fun t ht => ?_, map, ?_, ?_⟩
  · have hsame : ∀ v, (Dict.set "resources".toList v mid).lookup "tools".toList = mid.lookup "tools".toList := by
      intro v
      rw [Dict.lookup_set, if_neg hkeys]
    rw [toolLevel_congr (hsame _), h2]
  · rw [hread, hread', Dict.lookup_set, if_neg ht]
  · rw [hread, hmap]
  · rw [hread', Dict.lookup_set, if_pos rfl]
    rfl

/-- what a write for a tool leaves -/
theorem setPermission_tool (hreg : ∀ e ∈ defaults, e.2 = (dflt e.1).text) {data data' : Permissions} {tool : Str}
    {level : PermissionLevel} (h : setPermission defaults data tool level none = some data') :
    (∀ t, t ≠ tool → toolLevel data' t (dflt t) = toolLevel data t (dflt t)) ∧
      ∀ t, resourceMap? data' t = resourceMap? data t := by
  have hkeys : "resources".toList ≠ "tools".toList := by decide
  obtain ⟨mid, hmid, hset⟩ := Option.bind_eq_some_iff.1 h
  obtain ⟨h1, h2⟩ := backfill_toolLevel hreg hmid
  obtain ⟨tools, tools', htools, hlevel, rfl⟩ := updateAt_eq_some.1 hset
  obtain rfl := Option.some.inj hlevel
  refine ⟨fun t ht => ?_, fun t => ?_⟩
  · rw [← h2, toolLevel_set, toolLevel_obj htools, Dict.lookup_set, if_neg ht]
  · have hsame : ∀ v, (Dict.set "tools".toList v mid).lookup "resources".toList = data.lookup "resources".toList := by
      intro v
      rw [Dict.lookup_set, if_neg hkeys, h1]
    exact resourceMap_congr (hsame _) t

/-- whether a write raises does not depend on the level -/
theorem setPermission_level {data data' : Permissions} {tool r : Str} {level : PermissionLevel}
    (h : setPermission defaults data tool level (some r) = some data') (level' : PermissionLevel) :
    ∃ data'', setPermission defaults data tool level' (some r) = some data'' := by
  obtain ⟨mid, hmid, hset⟩ := Option.bind_eq_some_iff.1 h
  obtain ⟨resources, resources', hres, hinner, -⟩ := updateAt_eq_some.1 hset
  obtain ⟨map, map', hmap, -, -⟩ := updateAt_eq_some.1 hinner
  exact ⟨_, Option.bind_eq_some_iff.2 ⟨mid, hmid, updateAt_eq_some.2 ⟨resources, _, hres,
    updateAt_eq_some.2 ⟨map, _, hmap, rfl, rfl⟩, rfl⟩⟩⟩

end

/-! ## Remembering a decision -/

/-- no entry of the tool decides the resource -/
def Undecided (data : Permissions) (tool : Str) (resource : Option Str) : Prop :=
  ∀ r, resource = some r → ∃ map, resourceMap? data tool = some map ∧ entryOf map r = none

section

variable {defaults : Dict Str} {dflt : Str → PermissionLevel} {data data' : Permissions} {tool r : Str}
  {level : PermissionLevel}

/-- a write for a resource, as the resolutions of its tool see it -/
theorem resolve_after (hreg : ∀ e ∈ defaults, e.2 = (dflt e.1).text)
    (h : setPermission defaults data tool level (some r) = some data') {map : Dict Json}
    (hmap : resourceMap? data tool = some map) {other : Str} (hne : other ≠ r) :
    resolvePermission data' tool (some other) (dflt tool) =
      if ReadFor map r other then some level else resolvePermission data tool (some other) (dflt tool) := by
  obtain ⟨h1, -, map', hm, hm'⟩ := setPermission_resource hreg h
  obtain rfl : map = map' := Option.some.inj (hmap.symm.trans hm)
  unfold resolvePermission
  simp only [hm', hmap, entryOf_set map hne, h1]
  split_ifs with hread
  · exact PermissionLevel.parse_text level
  · rfl

theorem resolve_self (hreg : ∀ e ∈ defaults, e.2 = (dflt e.1).text)
    (h : setPermission defaults data tool level (some r) = some data') (default : PermissionLevel) :
    resolvePermission data' tool (some r) default = some level := by
  obtain ⟨-, -, map, -, hm'⟩ := setPermission_resource hreg h
  unfold resolvePermission
  simp only [hm', entryOf_set_self]
  exact PermissionLevel.parse_text level

/-- another tool, or no resource -/
theorem resolve_elsewhere (hreg : ∀ e ∈ defaults, e.2 = (dflt e.1).text)
    (h : setPermission defaults data tool level (some r) = some data') {t : Str} {resource : Option Str}
    (hne : t ≠ tool ∨ resource = none) :
    resolvePermission data' t resource (dflt t) = resolvePermission data t resource (dflt t) := by
  obtain ⟨h1, h2, -⟩ := setPermission_resource hreg h
  unfold resolvePermission
  cases resource with
  | none => exact h1 t
  | some other =>
    have ht : t ≠ tool := hne.resolve_right (by simp)
    simp only [h2 t ht, h1 t]

end

/-- the write for a resource changes what it decides, and nothing else -/
def RemembersOne (defaults : Dict Str) (dflt : Str → PermissionLevel) (data : Permissions) (tool r : Str) : Prop :=
  ∀ level data', setPermission defaults data tool level (some r) = some data' →
    (∀ default, resolvePermission data' tool (some r) default = some level) ∧
      ∀ t resource, (t, resource) ≠ (tool, some r) →
        resolvePermission data' t resource (dflt t) = resolvePermission data t resource (dflt t)

/-- **Remembering a decision.** A write for a resource that does not raise changes nothing but what it decides, whatever
the level, exactly when its entry is read for no other resource. A write for a tool changes only resolutions of the tool
that no resource entry decides. -/
theorem decision_remembered (defaults : Dict Str) (dflt : Str → PermissionLevel)
    (hreg : ∀ e ∈ defaults, e.2 = (dflt e.1).text) (data : Permissions) (tool : Str) :
    (∀ r, (∃ level data', setPermission defaults data tool level (some r) = some data') →
      (RemembersOne defaults dflt data tool r ↔
        ∀ map, resourceMap? data tool = some map → ∀ other, other ≠ r → ¬ ReadFor map r other)) ∧
    ∀ level data', setPermission defaults data tool level none = some data' → ∀ t resource,
      resolvePermission data' t resource (dflt t) ≠ resolvePermission data t resource (dflt t) →
        t = tool ∧ Undecided data tool resource := by
  refine ⟨fun r hwrites => ?_, fun level data' h t resource hne => ?_⟩
  · constructor
    · intro h map hmap other hother hread
      obtain ⟨level, data', hset⟩ := hwrites
      obtain ⟨level', hl⟩ := PermissionLevel.exists_ne (resolvePermission data tool (some other) (dflt tool))
      obtain ⟨data'', hset'⟩ := setPermission_level hset level'
      have hframe := (h level' data'' hset').2 tool (some other) (by simpa using hother)
      rw [resolve_after hreg hset' hmap hother, if_pos hread] at hframe
      exact hl hframe
    · intro h level data' hset
      refine ⟨resolve_self hreg hset, fun t resource hne => ?_⟩
      by_cases ht : t = tool
      · subst ht
        cases resource with
        | none => exact resolve_elsewhere hreg hset (Or.inr rfl)
        | some other =>
          have hother : other ≠ r := by simpa using hne
          obtain ⟨-, -, map, hmap, -⟩ := setPermission_resource hreg hset
          rw [resolve_after hreg hset hmap hother, if_neg (h map hmap other hother)]
      · exact resolve_elsewhere hreg hset (Or.inl ht)
  · obtain ⟨h1, h2⟩ := setPermission_tool hreg h
    by_cases ht : t = tool
    · subst ht
      refine ⟨rfl, fun r hr => ?_⟩
      subst hr
      by_contra hdecided
      -- an entry decides, or the map raises: the same before and after
      apply hne
      unfold resolvePermission
      simp only [h2]
      cases hmap : resourceMap? data t with
      | none => rfl
      | some map =>
        cases hentry : entryOf map r with
        | none => exact absurd ⟨map, hmap, hentry⟩ hdecided
        | some v => simp only [hentry]
    · refine absurd ?_ hne
      unfold resolvePermission
      simp only [h1 t ht, h2]

/-- two registered tools that ask -/
def askDefaults : Dict Str := [("send_email".toList, "ask".toList), ("web_fetch".toList, "ask".toList)]

def askAlways (_ : Str) : PermissionLevel := .ask

/-- the user allows `web_fetch` for one resource -/
def allowFetch (resource : String) : Option Permissions :=
  setPermission askDefaults [] "web_fetch".toList .always (some resource.toList)

set_option maxRecDepth 20000 in
/-- a decision for the resource `*` is read for every other resource -/
theorem star_grants_all :
    (∀ data, allowFetch "*" = some data →
      resolvePermission data "web_fetch".toList (some "evil.example".toList) .ask = some .always) ∧
    resolvePermission [] "web_fetch".toList (some "evil.example".toList) .ask = some .ask ∧
    ¬ RemembersOne askDefaults askAlways [] "web_fetch".toList "*".toList := by
  have hset : ∃ data, allowFetch "*" = some data ∧
      resolvePermission data "web_fetch".toList (some "evil.example".toList) .ask = some .always :=
    ⟨_, rfl, by decide⟩
  have hbefore : resolvePermission [] "web_fetch".toList (some "evil.example".toList) .ask = some .ask := by decide
  obtain ⟨data, hdata, hafter⟩ := hset
  refine ⟨fun data' h => ?_, hbefore, fun h => ?_⟩
  · obtain rfl := Option.some.inj (hdata.symm.trans h)
    exact hafter
  · have hframe := (h .always data hdata).2 "web_fetch".toList (some "evil.example".toList) (by decide)
    rw [show askAlways "web_fetch".toList = PermissionLevel.ask from rfl, hafter, hbefore] at hframe
    exact absurd hframe (by decide)

/-- `decision_remembered` for a domain, which has no metacharacters -/
theorem domain_remembered :
    (∀ e ∈ askDefaults, e.2 = (askAlways e.1).text) ∧
      RemembersOne askDefaults askAlways [] "web_fetch".toList "homedepot.com".toList := by
  have hreg : ∀ e ∈ askDefaults, e.2 = (askAlways e.1).text := by decide
  have hall : ("homedepot.com".toList.all fun c => !Glob.isMeta c) = true := by decide
  have hplain : ∀ c ∈ "homedepot.com".toList, Glob.isMeta c = false := fun c hc => by
    simpa using List.all_eq_true.1 hall c hc
  refine ⟨hreg, ((decision_remembered askDefaults askAlways hreg [] "web_fetch".toList).1 "homedepot.com".toList
    ⟨.always, _, rfl⟩).2 fun map _ other hne => not_readFor_plain hplain map hne⟩

end Clawbolt.Approval

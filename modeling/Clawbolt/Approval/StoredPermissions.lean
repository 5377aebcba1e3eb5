/-
What the readers of the stored permissions make of any text that can be stored (`_parse_row_data`, `get_never_tool_names`,
`ensure_complete` and the two above in agent/approval.py, with `_permissions_write` and `_permissions_edit` of
agent/tools/workspace_tools.py).

A stored text is represented by what `json.loads` makes of it: a value, or the text itself where it is not JSON. The writers
dump the value that they loaded or changed, and loading it again gives the same value. `loads` and `dumps` are parameters.

- `stored_permissions`: in every state that the writers reach, the readers return and a write keeps every other entry,
  exactly when every level that is stored is a level, in objects where the readers look for them;
- `readable_run`: the store's own writes keep it so.
-/
import Mathlib.Tactic
import Clawbolt.Core.Runs
import Clawbolt.Approval.Permissions

namespace Clawbolt.Approval

open Text (Str)

/-! ## Model -/

/-- a stored text -/
inductive Content where
  | json (v : Json)
  | text (s : Str)

/-- the row's text, if there is a row -/
abbrev Row := Option Content

/-- `_parse_row_data` -/
def parseRowData : Row → Permissions
  | some (.json (.obj d)) => d
  | _ => [("version".toList, .int 1), ("tools".toList, .obj []), ("resources".toList, .obj [])]

/-- `get_never_tool_names` -/
def getNeverToolNames (data : Permissions) : List Str :=
  match (data.lookup "tools".toList).getD (.obj []) with
  | .obj tools => (tools.filter fun e => e.2 = .str PermissionLevel.never.text).map Prod.fst
  | _ => []

/-- one tool of `ensure_complete` -/
def complete (e : Str × Str) (data : Permissions) : Option Permissions :=
  match contains e.1 ((data.lookup "tools".toList).getD (.obj [])) with
  | some true => some data
  | some false => updateAt "tools".toList (fun tools => some (Dict.set e.1 (.str e.2) tools)) data
  | none => none

/-- `ensure_complete` -/
def ensureComplete (defaults : Dict Str) (data : Permissions) : Option Permissions :=
  defaults.foldlM (fun d e => complete e d) data

section

variable (loads : Str → Option Json) (dumps : Json → Str)

/-- what is stored for a text: JSON is normalized, and other text is kept as it is -/
def normalize (content : Str) : Content :=
  match loads content with
  | some parsed => .json parsed
  | none => .text content

/-- the text of a row -/
def current : Row → Str
  | some (.json v) => dumps v
  | some (.text s) => s
  | none => []

/-- `_permissions_edit`: its error, or the row -/
def permissionsEdit (old new : Str) (row : Row) : Except String Row :=
  if !Text.contains old (current dumps row) then .error "text_not_found"
  else if 1 < Text.count old (current dumps row) then .error "ambiguous"
  else .ok (some (normalize loads (Text.replaceFirst old new (current dumps row))))

inductive Write where
  | writeFile (content : Str)
  | editFile (old new : Str)
  | setPermission (tool : Str) (level : PermissionLevel) (resource : Option Str)
  | ensureComplete

/-- a write that raises changes nothing -/
def write (defaults : Dict Str) (row : Row) : Write → Row
  | .writeFile content => some (normalize loads content)
  | .editFile old new =>
    match permissionsEdit loads dumps old new row with
    | .ok row' => row'
    | .error _ => row
  | .setPermission tool level resource =>
    match setPermission defaults (parseRowData row) tool level resource with
    | some data => some (.json (.obj data))
    | none => row
  | .ensureComplete =>
    match ensureComplete defaults (parseRowData row) with
    | some data => if data = parseRowData row then row else some (.json (.obj data))
    | none => row

end

/-! ## What the readers need -/

/-- every value is a level -/
def Levels (map : Dict Json) : Prop := ∀ k v, map.lookup k = some v → (PermissionLevel.parse v).isSome

/-- `data[k]`, when there is one, is an object with `P` -/
def ObjectAt (P : Dict Json → Prop) (k : Str) (data : Dict Json) : Prop :=
  ∃ inner, (data.lookup k).getD (.obj []) = .obj inner ∧ P inner

def Readable (data : Permissions) : Prop :=
  ObjectAt Levels "tools".toList data ∧
    ObjectAt (fun resources => ∀ tool, ObjectAt Levels tool resources) "resources".toList data

/-- the entry for a tool -/
def toolEntry (data : Permissions) (tool : Str) : Option Json :=
  match data.lookup "tools".toList with
  | some (.obj tools) => tools.lookup tool
  | _ => none

/-- the entry for a resource of a tool -/
def resourceEntry (data : Permissions) (tool resource : Str) : Option Json :=
  match data.lookup "resources".toList with
  | some (.obj resources) =>
    match resources.lookup tool with
    | some (.obj map) => map.lookup resource
    | _ => none
  | _ => none

/-- every entry but the one for `tool` and `resource` is the same, if there was one -/
structure Keeps (data data' : Permissions) (tool : Str) (resource : Option Str) : Prop where
  tools : ∀ t v, (t, none) ≠ (tool, resource) → toolEntry data t = some v → toolEntry data' t = some v
  resources : ∀ t r v, (t, some r) ≠ (tool, resource) → resourceEntry data t r = some v → resourceEntry data' t r = some v

/-- no reader raises (`get_never_tool_names` raises on no data), and `set_permission` keeps the other entries -/
structure NeverBreaks (defaults : Dict Str) (data : Permissions) : Prop where
  resolves : ∀ tool resource default, (resolvePermission data tool resource default).isSome
  completes : (ensureComplete defaults data).isSome
  sets : ∀ tool level resource, ∃ data', setPermission defaults data tool level resource = some data' ∧
    Keeps data data' tool resource

/-! ## Filling in the defaults -/

section

variable {defaults : Dict Str} {data data' : Permissions} {tool : Str}

theorem updateAt_isSome {k : Str} {f : Dict Json → Option (Dict Json)} {d inner inner' : Dict Json}
    (h : (d.lookup k).getD (.obj []) = .obj inner) (hf : f inner = some inner') :
    updateAt k f d = some (Dict.set k (.obj inner') d) := updateAt_eq_some.2 ⟨inner, inner', h, hf, rfl⟩

theorem lookup_setdefault {k j : Str} {v w : Json} {d : Dict Json} (h : d.lookup j = some w) :
    (setdefault k v d).lookup j = some w := by
  unfold setdefault
  cases hhas : Dict.has k d with
  | true => exact h
  | false =>
    have hne : j ≠ k := fun he => by rw [he, Dict.has_eq_false.1 hhas] at h; cases h
    rw [if_neg Bool.false_ne_true, Dict.lookup_set, if_neg hne]
    exact h

/-- filling in keeps every entry, and everything but the tools -/
theorem backfill_keeps (h : backfill defaults data = some data') :
    (∀ k, k ≠ "tools".toList → data'.lookup k = data.lookup k) ∧
    ∀ tools', (data'.lookup "tools".toList).getD (.obj []) = .obj tools' →
      ∃ tools, (data.lookup "tools".toList).getD (.obj []) = .obj tools ∧
        ∀ t v, tools.lookup t = some v → tools'.lookup t = some v := by
  induction defaults generalizing data with
  | nil =>
    obtain rfl := Option.some.inj h
    exact ⟨fun _ _ => rfl, fun tools' htools => ⟨tools', htools, fun _ _ hv => hv⟩⟩
  | cons e defaults ih =>
    rw [backfill, List.foldlM_cons] at h
    obtain ⟨mid, hmid, hrest⟩ := Option.bind_eq_some_iff.1 h
    obtain ⟨tools, mtools, htools, hset, rfl⟩ := updateAt_eq_some.1 hmid
    obtain rfl := Option.some.inj hset
    obtain ⟨hother, hentries⟩ := ih hrest
    refine ⟨fun k hk => (hother k hk).trans (by rw [Dict.lookup_set, if_neg hk]), fun tools' htools' => ?_⟩
    obtain ⟨tools'', htools'', hkeep⟩ := hentries tools' htools'
    rw [Dict.lookup_set, if_pos rfl] at htools''
    obtain rfl := Json.obj.inj htools''
    exact ⟨tools, htools, fun t v hv => hkeep t v (lookup_setdefault hv)⟩

/-- filling in works on an object, and leaves one -/
theorem backfill_isSome (defaults : Dict Str) {tools : Dict Json} (h : (data.lookup "tools".toList).getD (.obj []) = .obj tools) :
    ∃ data' tools', backfill defaults data = some data' ∧ (data'.lookup "tools".toList).getD (.obj []) = .obj tools' := by
  induction defaults generalizing data tools with
  | nil => exact ⟨data, tools, rfl, h⟩
  | cons e defaults ih =>
    have hstep := updateAt_isSome h (f := fun tools => some (setdefault e.1 (.str e.2) tools)) rfl
    have hset : ((Dict.set "tools".toList (.obj (setdefault e.1 (.str e.2) tools)) data).lookup "tools".toList).getD (.obj []) =
        .obj (setdefault e.1 (.str e.2) tools) := by
      rw [Dict.lookup_set, if_pos rfl]
      rfl
    obtain ⟨data', tools', hrest, htools'⟩ := ih hset
    refine ⟨data', tools', ?_, htools'⟩
    rw [backfill, List.foldlM_cons, hstep]
    exact hrest

/-! ## Writing -/

theorem toolEntry_eq {tools : Dict Json} (h : (data.lookup "tools".toList).getD (.obj []) = .obj tools) :
    toolEntry data tool = tools.lookup tool := by
  unfold toolEntry
  cases hl : data.lookup "tools".toList with
  | none => rw [hl] at h; obtain rfl := Json.obj.inj h; rfl
  | some v => rw [hl] at h; obtain rfl : v = .obj tools := h; rfl

theorem toolEntry_set (data : Permissions) (tools : Dict Json) (tool : Str) :
    toolEntry (Dict.set "tools".toList (.obj tools) data) tool = tools.lookup tool :=
  toolEntry_eq (by rw [Dict.lookup_set, if_pos rfl]; rfl)

theorem toolEntry_congr (h : data'.lookup "tools".toList = data.lookup "tools".toList) :
    toolEntry data' tool = toolEntry data tool := by
  unfold toolEntry
  rw [h]

theorem resourceEntry_eq {resources map : Dict Json} {r : Str}
    (hres : (data.lookup "resources".toList).getD (.obj []) = .obj resources)
    (hmap : (resources.lookup tool).getD (.obj []) = .obj map) : resourceEntry data tool r = map.lookup r := by
  unfold resourceEntry
  cases hl : data.lookup "resources".toList with
  | none =>
    rw [hl] at hres
    obtain rfl := Json.obj.inj hres
    obtain rfl := Json.obj.inj hmap
    rfl
  | some v =>
    rw [hl] at hres
    obtain rfl : v = .obj resources := hres
    cases hm : resources.lookup tool with
    | none => rw [hm] at hmap; obtain rfl := Json.obj.inj hmap; simp [hm]
    | some w => rw [hm] at hmap; obtain rfl : w = .obj map := hmap; simp only [hm]

theorem resourceEntry_congr {r : Str} (h : data'.lookup "resources".toList = data.lookup "resources".toList) :
    resourceEntry data' tool r = resourceEntry data tool r := by
  unfold resourceEntry
  rw [h]

theorem tools_of_entry {v : Json} (h : toolEntry data tool = some v) :
    ∃ tools, (data.lookup "tools".toList).getD (.obj []) = .obj tools ∧ tools.lookup tool = some v := by
  unfold toolEntry at h
  split at h
  · rename_i tools htools
    exact ⟨tools, by rw [htools]; rfl, h⟩
  · cases h

theorem backfill_toolEntry (h : backfill defaults data = some data') {v : Json} (hv : toolEntry data tool = some v) :
    toolEntry data' tool = some v := by
  obtain ⟨tools, htools, hlookup⟩ := tools_of_entry hv
  obtain ⟨data'', tools', hfill, htools'⟩ := backfill_isSome defaults htools
  obtain rfl := Option.some.inj (hfill.symm.trans h)
  obtain ⟨tools₀, htools₀, hkeep⟩ := (backfill_keeps h).2 tools' htools'
  obtain rfl := Json.obj.inj (htools₀.symm.trans htools)
  rw [toolEntry_eq htools']
  exact hkeep tool v hlookup

/-- **A write keeps the other entries.** -/
theorem setPermission_keeps {level : PermissionLevel} {resource : Option Str}
    (h : setPermission defaults data tool level resource = some data') : Keeps data data' tool resource := by
  have hkeys : "resources".toList ≠ "tools".toList := by decide
  obtain ⟨mid, hfill, hset⟩ := Option.bind_eq_some_iff.1 h
  have hmid := (backfill_keeps hfill).1 _ hkeys
  cases resource with
  | none =>
    obtain ⟨tools, tools', htools, hlevel, rfl⟩ := updateAt_eq_some.1 hset
    obtain rfl := Option.some.inj hlevel
    refine ⟨fun t v hne hv => ?_, fun t r v _ hv => ?_⟩
    · have ht : t ≠ tool := by simpa using hne
      have hv := backfill_toolEntry hfill hv
      rw [toolEntry_eq htools] at hv
      rw [toolEntry_set, Dict.lookup_set, if_neg ht]
      exact hv
    · refine (resourceEntry_congr ?_).trans hv
      rw [Dict.lookup_set, if_neg hkeys, hmid]
  | some r =>
    obtain ⟨resources, resources', hres, hinner, rfl⟩ := updateAt_eq_some.1 hset
    obtain ⟨map, map', hmap, hlevel, rfl⟩ := updateAt_eq_some.1 hinner
    obtain rfl := Option.some.inj hlevel
    refine ⟨fun t v _ hv => ?_, fun t r' v hne hv => ?_⟩
    · refine (toolEntry_congr ?_).trans (backfill_toolEntry hfill hv)
      rw [Dict.lookup_set, if_neg hkeys.symm]
    · rw [← resourceEntry_congr hmid] at hv
      have hres' : ((Dict.set "resources".toList
          (.obj (Dict.set tool (.obj (Dict.set r (.str level.text) map)) resources)) mid).lookup "resources".toList).getD
            (.obj []) = .obj (Dict.set tool (.obj (Dict.set r (.str level.text) map)) resources) := by
        rw [Dict.lookup_set, if_pos rfl]
        rfl
      by_cases ht : t = tool
      · subst ht
        have hr : r' ≠ r := by simpa using hne
        rw [resourceEntry_eq hres hmap] at hv
        have hmap' : ((Dict.set t (.obj (Dict.set r (.str level.text) map)) resources).lookup t).getD (.obj []) =
            .obj (Dict.set r (.str level.text) map) := by
          rw [Dict.lookup_set, if_pos rfl]
          rfl
        rw [resourceEntry_eq hres' hmap', Dict.lookup_set, if_neg hr]
        exact hv
      · -- the entries of another tool are those of its own map
        unfold resourceEntry at hv ⊢
        rw [Dict.lookup_set, if_pos rfl]
        simp only [Dict.lookup_set, if_neg ht]
        cases hl : mid.lookup "resources".toList with
        | none => rw [hl] at hv; cases hv
        | some w =>
          rw [hl] at hres hv
          obtain rfl : w = .obj resources := hres
          exact hv

/-- a write returns where it finds objects -/
theorem setPermission_isSome (defaults : Dict Str) {tools resources map : Dict Json} (htools : (data.lookup "tools".toList).getD (.obj []) = .obj tools)
    (hres : (data.lookup "resources".toList).getD (.obj []) = .obj resources)
    (hmap : (resources.lookup tool).getD (.obj []) = .obj map) (level : PermissionLevel) (resource : Option Str) :
    ∃ data', setPermission defaults data tool level resource = some data' := by
  have hkeys : "resources".toList ≠ "tools".toList := by decide
  obtain ⟨mid, mtools, hfill, hmid⟩ := backfill_isSome defaults htools
  cases resource with
  | none => exact ⟨_, Option.bind_eq_some_iff.2 ⟨mid, hfill, updateAt_isSome hmid rfl⟩⟩
  | some r =>
    rw [← (backfill_keeps hfill).1 _ hkeys] at hres
    exact ⟨_, Option.bind_eq_some_iff.2 ⟨mid, hfill, updateAt_isSome hres (updateAt_isSome hmap rfl)⟩⟩

/-! ## Reading -/

theorem ensureComplete_isSome {tools : Dict Json} (h : (data.lookup "tools".toList).getD (.obj []) = .obj tools) :
    (ensureComplete defaults data).isSome := by
  induction defaults generalizing data tools with
  | nil => rfl
  | cons e defaults ih =>
    rw [ensureComplete, List.foldlM_cons]
    cases hhas : Dict.has e.1 tools with
    | true =>
      have hstep : complete e data = some data := by simp only [complete, contains, h, hhas]
      rw [hstep]
      exact ih h
    | false =>
      have hstep : complete e data = some (Dict.set "tools".toList (.obj (Dict.set e.1 (.str e.2) tools)) data) := by
        simp only [complete, contains, h, hhas]
        exact updateAt_isSome h rfl
      rw [hstep]
      have hset : ((Dict.set "tools".toList (.obj (Dict.set e.1 (.str e.2) tools)) data).lookup "tools".toList).getD (.obj []) =
          .obj (Dict.set e.1 (.str e.2) tools) := by
        rw [Dict.lookup_set, if_pos rfl]
        rfl
      exact ih hset

/-- the pattern that is found is the first entry of its key -/
theorem lookup_of_find {p : Str → Bool} {map : Dict Json} {e : Str × Json}
    (h : map.find? (fun kv => p kv.1) = some e) : map.lookup e.1 = some e.2 := by
  induction map with
  | nil => cases h
  | cons kv map ih =>
    cases hp : p kv.1 with
    | true =>
      rw [List.find?_cons_of_pos (by simpa using hp)] at h
      obtain rfl := Option.some.inj h
      exact Dict.lookup_cons_self _ _ _
    | false =>
      rw [List.find?_cons_of_neg (by simp [hp])] at h
      have he : p e.1 = true := by simpa using List.find?_some h
      have hne : e.1 ≠ kv.1 := fun heq => by rw [heq, hp] at he; cases he
      rw [show (kv :: map).lookup e.1 = map.lookup e.1 from Dict.lookup_cons_ne hne kv.2 map]
      exact ih h

/-- an entry that decides is a value of the map -/
theorem lookup_of_entryOf {map : Dict Json} {r : Str} {v : Json} (h : entryOf map r = some v) :
    ∃ k, map.lookup k = some v := by
  unfold entryOf at h
  split at h
  · rename_i level hlevel
    obtain rfl := Option.some.inj h
    exact ⟨r, hlevel⟩
  · obtain ⟨e, he, rfl⟩ := Option.map_eq_some_iff.1 h
    exact ⟨e.1, lookup_of_find he⟩

theorem toolLevel_isSome {tools : Dict Json} (h : (data.lookup "tools".toList).getD (.obj []) = .obj tools)
    (hlevels : Levels tools) (tool : Str) (default : PermissionLevel) : (toolLevel data tool default).isSome := by
  rw [toolLevel_obj h]
  cases hl : tools.lookup tool with
  | none => rfl
  | some v => exact hlevels tool v hl

theorem resolvePermission_isSome (h : Readable data) (tool : Str) (resource : Option Str) (default : PermissionLevel) :
    (resolvePermission data tool resource default).isSome := by
  obtain ⟨⟨tools, htools, hlevels⟩, resources, hres, hmaps⟩ := h
  have htool := toolLevel_isSome htools hlevels tool default
  unfold resolvePermission
  cases resource with
  | none => exact htool
  | some r =>
    obtain ⟨map, hmap, hmapLevels⟩ := hmaps tool
    have hread : resourceMap? data tool = some map := by simp only [resourceMap?, hres, hmap]
    simp only [hread]
    cases he : entryOf map r with
    | none => exact htool
    | some v =>
      obtain ⟨k, hk⟩ := lookup_of_entryOf he
      exact hmapLevels k v hk

theorem neverBreaks_iff (defaults : Dict Str) (data : Permissions) : NeverBreaks defaults data ↔ Readable data := by
  constructor
  · intro h
    refine ⟨?_, ?_⟩
    · obtain ⟨data', hset, -⟩ := h.sets [] .ask none
      obtain ⟨mid, hfill, hset⟩ := Option.bind_eq_some_iff.1 hset
      obtain ⟨mtools, -, hmid, -, -⟩ := updateAt_eq_some.1 hset
      obtain ⟨tools, htools, -⟩ := (backfill_keeps hfill).2 mtools hmid
      refine ⟨tools, htools, fun k v hv => ?_⟩
      have hlevel : (toolLevel data k .ask).isSome := h.resolves k none .ask
      rw [toolLevel_obj htools, hv] at hlevel
      exact hlevel
    · have hmaps : ∀ tool, ∃ resources map, (data.lookup "resources".toList).getD (.obj []) = .obj resources ∧
          (resources.lookup tool).getD (.obj []) = .obj map := by
        intro tool
        obtain ⟨data', hset, -⟩ := h.sets tool .ask (some [])
        obtain ⟨mid, hfill, hset⟩ := Option.bind_eq_some_iff.1 hset
        obtain ⟨resources, _, hres, hinner, -⟩ := updateAt_eq_some.1 hset
        obtain ⟨map, -, hmap, -, -⟩ := updateAt_eq_some.1 hinner
        rw [(backfill_keeps hfill).1 _ (by decide)] at hres
        exact ⟨resources, map, hres, hmap⟩
      obtain ⟨resources, -, hres, -⟩ := hmaps []
      refine ⟨resources, hres, fun tool => ?_⟩
      obtain ⟨resources', map, hres', hmap⟩ := hmaps tool
      obtain rfl := Json.obj.inj (hres.symm.trans hres')
      refine ⟨map, hmap, fun k v hv => ?_⟩
      have hread : resourceMap? data tool = some map := by simp only [resourceMap?, hres, hmap]
      have hentry : entryOf map k = some v := by simp only [entryOf, hv]
      have hlevel := h.resolves tool (some k) .ask
      simp only [resolvePermission, hread, hentry] at hlevel
      exact hlevel
  · intro h
    refine ⟨resolvePermission_isSome h, ?_, fun tool level resource => ?_⟩
    · obtain ⟨⟨tools, htools, -⟩, -⟩ := h
      exact ensureComplete_isSome htools
    · obtain ⟨⟨tools, htools, -⟩, resources, hres, hmaps⟩ := h
      obtain ⟨map, hmap, -⟩ := hmaps tool
      obtain ⟨data', hset⟩ := setPermission_isSome defaults htools hres hmap level resource
      exact ⟨data', hset, setPermission_keeps hset⟩

end

/-! ## The store's own writes -/

section

variable {defaults : Dict Str} {data data' : Permissions}

theorem levels_set {map : Dict Json} (h : Levels map) (k : Str) {v : Json} (hv : (PermissionLevel.parse v).isSome) :
    Levels (Dict.set k v map) := by
  intro j w hw
  rw [Dict.lookup_set] at hw
  split_ifs at hw
  · obtain rfl := Option.some.inj hw
    exact hv
  · exact h j w hw

theorem objectAt_set {P : Dict Json → Prop} {k : Str} {inner : Dict Json} (h : P inner) (d : Dict Json) :
    ObjectAt P k (Dict.set k (.obj inner) d) := ⟨inner, by rw [Dict.lookup_set, if_pos rfl]; rfl, h⟩

theorem objectAt_set_ne {P : Dict Json → Prop} {k j : Str} {d : Dict Json} (h : ObjectAt P j d) (hne : j ≠ k) (v : Json) :
    ObjectAt P j (Dict.set k v d) := by
  obtain ⟨inner, hinner, hP⟩ := h
  exact ⟨inner, by rw [Dict.lookup_set, if_neg hne]; exact hinner, hP⟩

/-- a change of the tools that keeps their levels -/
theorem Readable.setTools (h : Readable data) {tools : Dict Json} (htools : Levels tools) :
    Readable (Dict.set "tools".toList (.obj tools) data) :=
  ⟨objectAt_set htools data, objectAt_set_ne h.2 (by decide) _⟩

theorem Readable.complete (h : Readable data) {e : Str × Str} (he : (PermissionLevel.parse (.str e.2)).isSome)
    (hc : complete e data = some data') : Readable data' := by
  obtain ⟨tools, htools, hlevels⟩ := h.1
  unfold Approval.complete at hc
  split at hc
  · obtain rfl := Option.some.inj hc
    exact h
  · obtain ⟨tools', tools'', htools', hset, rfl⟩ := updateAt_eq_some.1 hc
    obtain rfl := Json.obj.inj (htools.symm.trans htools')
    obtain rfl := Option.some.inj hset
    exact h.setTools (levels_set hlevels _ he)
  · cases hc

theorem Readable.ensureComplete (hreg : ∀ e ∈ defaults, (PermissionLevel.parse (.str e.2)).isSome) (h : Readable data)
    (hc : ensureComplete defaults data = some data') : Readable data' := by
  induction defaults generalizing data with
  | nil =>
    obtain rfl := Option.some.inj hc
    exact h
  | cons e defaults ih =>
    rw [Approval.ensureComplete, List.foldlM_cons] at hc
    obtain ⟨mid, hmid, hrest⟩ := Option.bind_eq_some_iff.1 hc
    exact ih (fun x hx => hreg x (List.mem_cons_of_mem _ hx)) (h.complete (hreg e List.mem_cons_self) hmid) hrest

theorem Readable.backfill (hreg : ∀ e ∈ defaults, (PermissionLevel.parse (.str e.2)).isSome) (h : Readable data)
    (hfill : backfill defaults data = some data') : Readable data' := by
  induction defaults generalizing data with
  | nil =>
    obtain rfl := Option.some.inj hfill
    exact h
  | cons e defaults ih =>
    rw [Approval.backfill, List.foldlM_cons] at hfill
    obtain ⟨mid, hmid, hrest⟩ := Option.bind_eq_some_iff.1 hfill
    refine ih (fun x hx => hreg x (List.mem_cons_of_mem _ hx)) ?_ hrest
    obtain ⟨tools, htools, hlevels⟩ := h.1
    obtain ⟨tools', tools'', htools', hset, rfl⟩ := updateAt_eq_some.1 hmid
    obtain rfl := Json.obj.inj (htools.symm.trans htools')
    obtain rfl := Option.some.inj hset
    refine h.setTools ?_
    unfold setdefault
    split_ifs
    · exact hlevels
    · exact levels_set hlevels _ (hreg e List.mem_cons_self)

theorem Readable.setPermission (hreg : ∀ e ∈ defaults, (PermissionLevel.parse (.str e.2)).isSome) (h : Readable data)
    {tool : Str} {level : PermissionLevel} {resource : Option Str}
    (hset : setPermission defaults data tool level resource = some data') : Readable data' := by
  have hlevel : (PermissionLevel.parse (.str level.text)).isSome := by rw [PermissionLevel.parse_text]; rfl
  obtain ⟨mid, hfill, hset⟩ := Option.bind_eq_some_iff.1 hset
  have hmid := h.backfill hreg hfill
  cases resource with
  | none =>
    obtain ⟨tools, htools, hlevels⟩ := hmid.1
    obtain ⟨tools', tools'', htools', hput, rfl⟩ := updateAt_eq_some.1 hset
    obtain rfl := Json.obj.inj (htools.symm.trans htools')
    obtain rfl := Option.some.inj hput
    exact hmid.setTools (levels_set hlevels _ hlevel)
  | some r =>
    obtain ⟨resources, hres, hmaps⟩ := hmid.2
    obtain ⟨resources', resources'', hres', hinner, rfl⟩ := updateAt_eq_some.1 hset
    obtain rfl := Json.obj.inj (hres.symm.trans hres')
    obtain ⟨map, hmap, hlevels⟩ := hmaps tool
    obtain ⟨map', map'', hmap', hput, rfl⟩ := updateAt_eq_some.1 hinner
    obtain rfl := Json.obj.inj (hmap.symm.trans hmap')
    obtain rfl := Option.some.inj hput
    refine ⟨objectAt_set_ne hmid.1 (by decide) _, objectAt_set (fun t => ?_) mid⟩
    by_cases ht : t = tool
    · rw [ht]
      exact objectAt_set (levels_set hlevels r hlevel) resources
    · exact objectAt_set_ne (hmaps t) ht _

end

/-! ## Runs -/

section

variable (loads : Str → Option Json) (dumps : Json → Str) (defaults : Dict Str)

/-- what the agent writes itself is readable -/
def Stores (row : Row) : Write → Prop
  | .writeFile content => Readable (parseRowData (some (normalize loads content)))
  | .editFile old new => ∀ row', permissionsEdit loads dumps old new row = .ok row' → Readable (parseRowData row')
  | _ => True

abbrev store (ops : List Write) : Row := Runs.run (write loads dumps defaults) none ops

theorem readable_write (hreg : ∀ e ∈ defaults, (PermissionLevel.parse (.str e.2)).isSome) (row : Row) (o : Write)
    (h : Readable (parseRowData row)) (ho : Stores loads dumps row o) :
    Readable (parseRowData (write loads dumps defaults row o)) := by
  cases o with
  | writeFile content => exact ho
  | editFile old new =>
    simp only [write]
    split
    · rename_i row' hrow
      exact ho row' hrow
    · exact h
  | setPermission tool level resource =>
    simp only [write]
    split
    · rename_i data hset
      exact h.setPermission hreg hset
    · exact h
  | ensureComplete =>
    simp only [write]
    split
    · rename_i data hc
      split_ifs
      · exact h
      · exact h.ensureComplete hreg hc
    · exact h

theorem readable_none : Readable (parseRowData none) := by
  have hempty : Levels [] := fun _ _ h => by cases h
  exact ⟨⟨[], rfl, hempty⟩, [], rfl, fun _ => ⟨[], rfl, hempty⟩⟩

/-- **Stored permissions.** The first part is about each state, the second about each run. -/
theorem stored_permissions (hreg : ∀ e ∈ defaults, (PermissionLevel.parse (.str e.2)).isSome) (ops : List Write) :
    (NeverBreaks defaults (parseRowData (store loads dumps defaults ops)) ↔
      Readable (parseRowData (store loads dumps defaults ops))) ∧
    (Runs.Meets (write loads dumps defaults) (Stores loads dumps) none ops →
      NeverBreaks defaults (parseRowData (store loads dumps defaults ops))) := by
  refine ⟨neverBreaks_iff _ _, fun hstores => (neverBreaks_iff _ _).2 ?_⟩
  exact Runs.run_inv (I := fun row => Readable (parseRowData row)) (readable_write loads dumps defaults hreg) hstores
    readable_none

end

/-- a level that is none, written by the agent -/
def sometimes : Str := "\x7b\"tools\": \x7b\"send_email\": \"sometimes\"\x7d\x7d".toList

/-- `json.loads` on that text -/
def loadsSometimes (t : Str) : Option Json :=
  if t = sometimes then some (.obj [("tools".toList, .obj [("send_email".toList, .str "sometimes".toList)])]) else none

theorem level_that_is_none :
    resolvePermission (parseRowData (store loadsSometimes (fun _ => []) askDefaults [.writeFile sometimes]))
      "send_email".toList none .ask = none ∧
    ¬ NeverBreaks askDefaults (parseRowData (store loadsSometimes (fun _ => []) askDefaults [.writeFile sometimes])) := by
  have hraises : resolvePermission (parseRowData (store loadsSometimes (fun _ => []) askDefaults [.writeFile sometimes]))
      "send_email".toList none .ask = none := by decide +kernel
  refine ⟨hraises, fun h => ?_⟩
  have hreturns := h.resolves "send_email".toList none .ask
  rw [hraises] at hreturns
  cases hreturns

/-- `stored_permissions` for a decision and a text that is not JSON -/
theorem stored_permissions_after_text :
    NeverBreaks askDefaults (parseRowData (store loadsSometimes (fun _ => []) askDefaults
      [.setPermission "web_fetch".toList .always (some "*.gov".toList), .writeFile "never".toList])) :=
  (stored_permissions loadsSometimes (fun _ => []) askDefaults (by decide) _).2 ⟨trivial, readable_none, trivial⟩

end Clawbolt.Approval

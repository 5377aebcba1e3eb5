/-
The dashboard, the chat and the agent agree on which tools are enabled, and a rejected update changes nothing, in any
interleaving of requests that are calm.

- `toggles_agree_iff`: in every state of a run the reads agree with the last accepted toggle of each factory and with each
  other, and no rejected update has written, exactly when every step of the run is calm;
- `level_stored`: in every state that is reached, a level can be stored;
- `toggle_overwritten`: a save writes a factory back that the chat has disabled since the update loaded the rows.

A step is calm when a save finds the factories it has no toggle for as it loaded them and disables no core factory, the chat
disables no factory that the dashboard renders as always on, and the level that follows one that is stored is valid.
-/
import Mathlib.Tactic
import Clawbolt.Core.Runs
import Clawbolt.ToolConfig.Requests

namespace Clawbolt.ToolConfig

open Text (Str)
open Approval (PermissionLevel)
open Runs

variable {R : Registry} {t : Tables} {s : Sys} {f : Factory}

/-! ## What is claimed, and when -/

/-- every read reports the factory so -/
def Reports (R : Registry) (t : Tables) (f : Factory) (enabled : Bool) : Prop :=
  dashboardEnabled R t f = enabled ∧ statusEnabled t f = enabled ∧ assembled t f = enabled

structure Agreed (R : Registry) (s : Sys) : Prop where
  /-- an accepted toggle is what every read reports -/
  reads : ∀ f ∈ R.factories, ∀ enabled, s.accepted.lookup f.name = some enabled → Reports R s.tables f enabled
  /-- a rejected update has written nothing -/
  rejected : ∀ i, s.requests[i]? = some (.update .rejected) → ∀ w ∈ s.writes, w.1 ≠ i
  /-- with no request in flight, the dashboard and the agent agree -/
  settled : (∀ p ∈ s.requests, p.returned = true) → ∀ f ∈ R.factories, dashboardEnabled R s.tables f = assembled s.tables f

/-- the next level of the update, if there is one, is valid -/
def NextLevelValid : List Op → Prop
  | [] => True
  | .toggle .. :: ops => NextLevelValid ops
  | .level _ level :: _ => (PermissionLevel.parse (.str level)).isSome = true

def CalmAt (R : Registry) (s : Sys) : Phase → Prop
  | .update (.store _ _ _ ops) => NextLevelValid ops
  | .update (.save u) => ∀ f ∈ R.factories, f.dashboardAlwaysEnabled = false →
    match u.toggles.lookup f.name with
    | some enabled => enabled = true ∨ f.core = false
    | none => f.name ∈ u.loaded ↔ f.name ∈ s.tables.disabledNames
  | .set f enabled => enabled = true ∨ f.dashboardAlwaysEnabled = false
  | _ => True

def Calm (R : Registry) (s : Sys) : Event → Prop
  | .resume i => ∀ p ∈ s.requests[i]?, CalmAt R s p
  | _ => True

/-! ## The registry and the reads -/

theorem eq_of_name {g : Factory} (hf : f ∈ R.factories) (hg : g ∈ R.factories) (h : g.name = f.name) : g = f :=
  List.inj_on_of_nodup_map R.nodup hg hf h

theorem getFactory_mem {name : Str} (h : R.getFactory name = some f) : f ∈ R.factories ∧ f.name = name :=
  ⟨List.mem_of_find?_eq_some h, by simpa using List.find?_some h⟩

theorem getFactory_name (hf : f ∈ R.factories) : R.getFactory f.name = some f := by
  cases h : R.getFactory f.name with
  | none =>
    have := List.find?_eq_none.1 h f hf
    simp at this
  | some g =>
    obtain ⟨hg, hname⟩ := getFactory_mem h
    rw [eq_of_name hf hg hname]

theorem mem_buildToolList {D : List Str} {r : Row} :
    r ∈ buildToolList R D ↔ ∃ f ∈ R.factories, r = ⟨f.name, f.dashboardAlwaysEnabled || !D.contains f.name⟩ := by
  simp [buildToolList, List.mem_insertionSort, eq_comm]

/-- the dashboard reports what the agent gets, and what is always on -/
theorem dashboardEnabled_eq (hf : f ∈ R.factories) :
    dashboardEnabled R t f = (f.dashboardAlwaysEnabled || assembled t f) := by
  rw [Bool.eq_iff_iff, dashboardEnabled, List.contains_iff_mem, mem_buildToolList]
  constructor
  · rintro ⟨g, hg, heq⟩
    simp only [Row.mk.injEq] at heq
    rw [eq_of_name hf hg heq.1.symm] at heq
    exact heq.2.symm
  · intro h
    exact ⟨f, hf, by rw [Row.mk.injEq]; exact ⟨rfl, h.symm⟩⟩

theorem assembled_iff : assembled t f = true ↔ f.name ∉ t.disabledNames := by simp [assembled]

theorem mem_disabledNames {n : Str} : n ∈ t.disabledNames ↔ ∃ r ∈ t.rows, r.enabled = false ∧ r.name = n := by
  simp [Tables.disabledNames, and_assoc]

/-- a save disables what the update has disabled, but for what is always on -/
theorem disabled_save (hf : f ∈ R.factories) {D : List Str} :
    f.name ∈ (t.write R (.rows (buildToolList R D))).disabledNames ↔ f.dashboardAlwaysEnabled = false ∧ f.name ∈ D := by
  rw [mem_disabledNames]
  constructor
  · rintro ⟨r, hr, hoff, hname⟩
    obtain ⟨g, hg, rfl⟩ := mem_buildToolList.1 hr
    rw [eq_of_name hf hg hname] at hoff
    simpa using hoff
  · rintro ⟨hdashboard, hD⟩
    exact ⟨_, mem_buildToolList.2 ⟨f, hf, rfl⟩, by simp [hdashboard, hD], rfl⟩

/-- a save disables no other name -/
theorem disabled_save_subset {D : List Str} {n : Str}
    (h : n ∈ (t.write R (.rows (buildToolList R D))).disabledNames) : n ∈ D := by
  obtain ⟨r, hr, hoff, rfl⟩ := mem_disabledNames.1 h
  obtain ⟨g, hg, rfl⟩ := mem_buildToolList.1 hr
  simp only [Bool.or_eq_false_iff, Bool.not_eq_false', List.contains_iff_mem] at hoff
  exact hoff.2

/-- `set_enabled` decides its own name and no other -/
theorem disabled_set {name n : Str} {enabled : Bool} :
    n ∈ (t.write R (.enabled name enabled)).disabledNames ↔
      if n = name then enabled = false else n ∈ t.disabledNames := by
  rw [mem_disabledNames, mem_disabledNames]
  simp only [Tables.write, setEnabled]
  by_cases hany : t.rows.any (fun r => r.name = name) = true
  · rw [if_pos hany]
    obtain ⟨r₀, hr₀, hname₀⟩ := List.any_eq_true.1 hany
    have hname₀ : r₀.name = name := by simpa using hname₀
    constructor
    · rintro ⟨r, hr, hoff, rfl⟩
      obtain ⟨r', hr', rfl⟩ := List.mem_map.1 hr
      by_cases hname : r'.name = name
      · simp only [if_pos hname] at hoff ⊢
        exact hoff
      · simp only [if_neg hname] at hoff ⊢
        exact ⟨r', hr', hoff, rfl⟩
    · intro h
      by_cases hn : n = name
      · rw [if_pos hn] at h
        exact ⟨_, List.mem_map.2 ⟨r₀, hr₀, rfl⟩, by simp [hname₀, h], by simp [hname₀, hn]⟩
      · rw [if_neg hn] at h
        obtain ⟨r, hr, hoff, rfl⟩ := h
        exact ⟨_, List.mem_map.2 ⟨r, hr, rfl⟩, by simp [hn, hoff], by simp [hn]⟩
  · rw [if_neg hany]
    have hnone : ∀ r ∈ t.rows, r.name ≠ name := fun r hr heq => hany (List.any_eq_true.2 ⟨r, hr, by simp [heq]⟩)
    constructor
    · rintro ⟨r, hr, hoff, rfl⟩
      rcases List.mem_append.1 hr with hr | hr
      · rw [if_neg (hnone r hr)]
        exact ⟨r, hr, hoff, rfl⟩
      · rw [List.mem_singleton.1 hr] at hoff ⊢
        rw [if_pos rfl]
        exact hoff
    · intro h
      by_cases hn : n = name
      · rw [if_pos hn] at h
        exact ⟨⟨name, enabled⟩, by simp, h, hn.symm⟩
      · rw [if_neg hn] at h
        obtain ⟨r, hr, hoff, rfl⟩ := h
        exact ⟨r, List.mem_append_left _ hr, hoff, rfl⟩

/-! ## The update's merge -/

/-- a name is disabled as the last toggle of it says, or else as it was loaded -/
structure Merged (R : Registry) (u : Update) : Prop where
  disabled : ∀ n, n ∈ u.disabledNames ↔ if let some enabled := u.toggles.lookup n then enabled = false else n ∈ u.loaded
  allowed : ∀ f ∈ R.factories, ∀ enabled, u.toggles.lookup f.name = some enabled → f.dashboardAlwaysEnabled = false

theorem merged_loaded (D : List Str) : Merged R ⟨D, D, []⟩ := ⟨fun _ => Iff.rfl, fun _ _ _ h => by cases h⟩

theorem lookup_cons_ne {n name : Str} (hn : n ≠ name) (enabled : Bool) (toggles : List (Str × Bool)) :
    ((name, enabled) :: toggles).lookup n = toggles.lookup n := by
  rw [List.lookup_cons, beq_false_of_ne hn]

theorem Merged.toggle {u : Update} (h : Merged R u) (name : Str) (enabled : Bool) : Merged R (u.toggle R name enabled) := by
  by_cases hon : (R.getFactory name).any Factory.dashboardAlwaysEnabled = true
  · rw [Update.toggle, if_pos hon]
    exact h
  · rw [Update.toggle, if_neg hon]
    refine ⟨fun n => ?_, fun f hf b hb => ?_⟩
    · by_cases hn : n = name
      · subst hn
        cases enabled <;> simp
      · have hiff := h.disabled n
        rw [← lookup_cons_ne hn enabled] at hiff
        refine Iff.trans ?_ hiff
        cases enabled <;> simp [hn]
    · by_cases hn : f.name = name
      · rw [← hn, getFactory_name hf] at hon
        simpa using hon
      · exact h.allowed f hf b (by rw [← lookup_cons_ne hn enabled]; exact hb)

/-- the update that a phase holds -/
def Phase.update? : Phase → Option Update
  | .update (.store u _ _ _) => some u
  | .update (.build u) => some u
  | .update (.save u) => some u
  | _ => none

/-- what the loop hands on is what it was given, with toggles merged -/
theorem scan_update {u u' : Update} (h : Merged R u) (ops : List Op) (hu : (Phase.update (scan R u ops)).update? = some u') :
    Merged R u' ∧ u'.loaded = u.loaded := by
  induction ops generalizing u with
  | nil =>
    cases hu
    exact ⟨h, rfl⟩
  | cons op ops ih =>
    cases op with
    | toggle name enabled =>
      obtain ⟨hmerged, hloaded⟩ := ih (h.toggle name enabled) hu
      refine ⟨hmerged, hloaded.trans ?_⟩
      unfold Update.toggle
      split_ifs <;> rfl
    | level subTool level =>
      simp only [scan] at hu
      cases hparse : PermissionLevel.parse (.str level) with
      | none =>
        rw [hparse] at hu
        cases hu
      | some level' =>
        rw [hparse] at hu
        cases hu
        exact ⟨h, rfl⟩

theorem scan_rejected_iff {u : Update} (ops : List Op) : scan R u ops = .rejected ↔ ¬ NextLevelValid ops := by
  induction ops generalizing u with
  | nil => simp [scan, NextLevelValid]
  | cons op ops ih =>
    cases op with
    | toggle name enabled => exact ih
    | level subTool level => cases h : PermissionLevel.parse (.str level) <;> simp [scan, NextLevelValid, h]

theorem scan_ne_load {u : Update} (ops ops' : List Op) : scan R u ops ≠ .load ops' := by
  induction ops generalizing u with
  | nil => exact nofun
  | cons op ops ih =>
    cases op with
    | toggle name enabled => exact ih
    | level subTool level => cases h : PermissionLevel.parse (.str level) <;> simp [scan, h]

/-! ## The invariant -/

structure Inv (R : Registry) (s : Sys) : Prop where
  reads : ∀ f ∈ R.factories, ∀ enabled, s.accepted.lookup f.name = some enabled → Reports R s.tables f enabled
  always : ∀ f ∈ R.factories, f.dashboardAlwaysEnabled = true → f.name ∉ s.tables.disabledNames
  untoggled : ∀ n, s.accepted.lookup n = none →
    n ∉ s.tables.disabledNames ∧ ∀ p ∈ s.requests, ∀ u ∈ p.update?, n ∉ u.loaded
  merged : ∀ p ∈ s.requests, ∀ u ∈ p.update?, Merged R u
  chat : ∀ f enabled, Phase.set f enabled ∈ s.requests → f ∈ R.factories ∧ f.core = false
  /-- an update that is rejected, or has not loaded the rows, has written nothing -/
  clean : ∀ i, s.requests[i]? = some (.update .rejected) ∨ (∃ ops, s.requests[i]? = some (.update (.load ops))) →
    ∀ w ∈ s.writes, w.1 ≠ i
  known : ∀ w ∈ s.writes, w.1 < s.requests.length

theorem inv_initial : Inv R initial := by
  refine ⟨nofun, fun _ _ _ => by simp [initial, Tables.empty, Tables.disabledNames],
    fun _ _ => ⟨by simp [initial, Tables.empty, Tables.disabledNames], nofun⟩, nofun, nofun, nofun, nofun⟩

theorem reports_iff (hf : f ∈ R.factories) {enabled : Bool} : Reports R t f enabled ↔
    (f.dashboardAlwaysEnabled || assembled t f) = enabled ∧ (f.core || assembled t f) = enabled ∧ assembled t f = enabled := by
  rw [Reports, dashboardEnabled_eq hf]
  rfl

theorem Inv.agreed (h : Inv R s) : Agreed R s := by
  refine ⟨h.reads, fun i hi => h.clean i (Or.inl hi), fun _ f hf => ?_⟩
  rw [dashboardEnabled_eq hf]
  cases hon : f.dashboardAlwaysEnabled with
  | false => rfl
  | true =>
    rw [assembled_iff.2 (h.always f hf hon)]
    rfl

/-- a request arrives -/
theorem inv_arrives (h : Inv R s) (p : Phase) (hupdate : p.update? = none)
    (hchat : ∀ f enabled, p = .set f enabled → f ∈ R.factories ∧ f.core = false) :
    Inv R { s with requests := s.requests ++ [p] } := by
  have hmem : ∀ q ∈ s.requests ++ [p], q ∈ s.requests ∨ q = p := by
    intro q hq
    exact (List.mem_append.1 hq).imp_right List.mem_singleton.1
  refine ⟨h.reads, h.always, fun n hn => ⟨(h.untoggled n hn).1, fun q hq u hu => ?_⟩, fun q hq u hu => ?_, fun f enabled hq => ?_,
    fun i hi w hw => ?_, fun w hw => ?_⟩
  · rcases hmem q hq with hq | rfl
    · exact (h.untoggled n hn).2 q hq u hu
    · rw [hupdate] at hu
      cases hu
  · rcases hmem q hq with hq | rfl
    · exact h.merged q hq u hu
    · rw [hupdate] at hu
      cases hu
  · rcases hmem _ hq with hq | hq
    · exact h.chat f enabled hq
    · exact hchat f enabled hq.symm
  · rcases Nat.lt_or_ge i s.requests.length with hlt | hge
    · simp only [List.getElem?_append_left hlt] at hi
      exact h.clean i hi w hw
    · exact Nat.ne_of_lt (lt_of_lt_of_le (h.known w hw) hge)
  · rw [List.length_append]
    exact Nat.lt_add_right _ (h.known w hw)

/-- a request goes on, and the tables with it -/
theorem inv_resumes {s' : Sys} {i : ℕ} {p p' : Phase} (h : Inv R s) (hp : s.requests[i]? = some p)
    (hrequests : s'.requests = s.requests.set i p')
    (hreads : ∀ f ∈ R.factories, ∀ enabled, s'.accepted.lookup f.name = some enabled → Reports R s'.tables f enabled)
    (halways : ∀ f ∈ R.factories, f.dashboardAlwaysEnabled = true → f.name ∉ s'.tables.disabledNames)
    (huntoggled : ∀ n, s'.accepted.lookup n = none →
      s.accepted.lookup n = none ∧ n ∉ s'.tables.disabledNames ∧ ∀ u ∈ p'.update?, n ∉ u.loaded)
    (hmerged : ∀ u ∈ p'.update?, Merged R u) (hchat : ∀ f enabled, p' ≠ .set f enabled)
    (hwrites : ∀ w ∈ s'.writes, w ∈ s.writes ∨ w.1 = i)
    (hclean : p' = .update .rejected ∨ (∃ ops, p' = .update (.load ops)) → ∀ w ∈ s'.writes, w.1 ≠ i) : Inv R s' := by
  have hmem : ∀ q ∈ s'.requests, q ∈ s.requests ∨ q = p' := by
    intro q hq
    rw [hrequests] at hq
    exact List.mem_or_eq_of_mem_set hq
  have hlt : i < s.requests.length := (List.getElem?_eq_some_iff.1 hp).1
  refine ⟨hreads, halways, fun n hn => ⟨(huntoggled n hn).2.1, fun q hq u hu => ?_⟩, fun q hq u hu => ?_, fun f enabled hq => ?_,
    fun j hj w hw => ?_, fun w hw => ?_⟩
  · rcases hmem q hq with hq | rfl
    · exact (h.untoggled n (huntoggled n hn).1).2 q hq u hu
    · exact (huntoggled n hn).2.2 u hu
  · rcases hmem q hq with hq | rfl
    · exact h.merged q hq u hu
    · exact hmerged u hu
  · rcases hmem _ hq with hq | hq
    · exact h.chat f enabled hq
    · exact absurd hq.symm (hchat f enabled)
  · by_cases hij : i = j
    · subst hij
      simp only [hrequests, List.getElem?_set_self hlt, Option.some.injEq] at hj
      exact hclean hj w hw
    · simp only [hrequests, List.getElem?_set_ne hij] at hj
      rcases hwrites w hw with hw | hw
      · exact h.clean j hj w hw
      · rw [hw]
        exact hij
  · rw [hrequests, List.length_set]
    rcases hwrites w hw with hw | hw
    · exact h.known w hw
    · rw [hw]
      exact hlt

/-! ## The writes -/

/-- what the rows are after a save -/
theorem assembled_save (hf : f ∈ R.factories) {u : Update} (hmerged : Merged R u) (hoff : f.dashboardAlwaysEnabled = false) :
    assembled (t.write R (.rows (buildToolList R u.disabledNames))) f =
      ((u.toggles.lookup f.name).getD (!u.loaded.contains f.name)) := by
  rw [Bool.eq_iff_iff, assembled_iff, disabled_save hf, hmerged.disabled f.name]
  cases hlookup : u.toggles.lookup f.name <;> simp [hoff]

/-- the toggles of an update that is saved are accepted, and the others stay as they are, exactly when the save is calm -/
theorem save_reads (h : Inv R s) {i : ℕ} {u : Update} (hp : s.requests[i]? = some (.update (.save u))) :
    (∀ f ∈ R.factories, ∀ enabled, (u.toggles ++ s.accepted).lookup f.name = some enabled →
      Reports R (s.tables.write R (.rows (buildToolList R u.disabledNames))) f enabled) ↔ CalmAt R s (.update (.save u)) := by
  have hmem : Phase.update (.save u) ∈ s.requests := List.mem_of_getElem? hp
  have hmerged := h.merged _ hmem u rfl
  constructor
  · intro hreads f hf hoff
    have hsave := assembled_save (t := s.tables) hf hmerged hoff
    cases hlookup : u.toggles.lookup f.name with
    | some enabled =>
      obtain ⟨-, hstatus, hnew⟩ := (reports_iff hf).1 (hreads f hf enabled (by rw [List.lookup_append, hlookup, Option.some_or]))
      rw [hnew] at hstatus
      simp only
      revert hstatus
      cases enabled <;> simp
    | none =>
      rw [hlookup, Option.getD_none] at hsave
      simp only
      cases haccepted : s.accepted.lookup f.name with
      | none =>
        obtain ⟨hrows, hloaded⟩ := h.untoggled f.name haccepted
        exact iff_of_false (hloaded _ hmem u rfl) hrows
      | some enabled =>
        -- the toggle that was accepted before is still read
        have hold := ((reports_iff hf).1 (h.reads f hf enabled haccepted)).2.2
        have hnew := ((reports_iff hf).1 (hreads f hf enabled (by rw [List.lookup_append, hlookup, Option.none_or, haccepted]))).2.2
        rw [hsave, ← hold] at hnew
        simpa [assembled] using hnew
  · intro hcalm f hf enabled henabled
    rw [reports_iff hf]
    rw [List.lookup_append] at henabled
    cases hon : f.dashboardAlwaysEnabled with
    | true =>
      have hlookup : u.toggles.lookup f.name = none := by
        rw [Option.eq_none_iff_forall_not_mem]
        intro b hb
        have := hmerged.allowed f hf b hb
        rw [hon] at this
        cases this
      rw [hlookup, Option.none_or] at henabled
      have hold := (reports_iff hf).1 (h.reads f hf enabled henabled)
      rw [hon, Bool.true_or] at hold
      have hnew : assembled (s.tables.write R (.rows (buildToolList R u.disabledNames))) f = true := by
        rw [assembled_iff, disabled_save hf, hon]
        simp
      rw [hnew, ← hold.1]
      simp
    | false =>
      have hsave := assembled_save (t := s.tables) hf hmerged hon
      have hat := hcalm f hf hon
      cases hlookup : u.toggles.lookup f.name with
      | some b =>
        rw [hlookup, Option.some_or, Option.some.injEq] at henabled
        subst henabled
        rw [hlookup] at hat
        rw [hsave, hlookup]
        simp only [Option.getD_some, Bool.false_or, and_true, true_and]
        rcases hat with rfl | hcore
        · simp
        · rw [hcore, Bool.false_or]
      | none =>
        rw [hlookup, Option.none_or] at henabled
        have hold := (reports_iff hf).1 (h.reads f hf enabled henabled)
        rw [hlookup] at hat
        have hsame : assembled (s.tables.write R (.rows (buildToolList R u.disabledNames))) f = assembled s.tables f := by
          rw [hsave, hlookup, Option.getD_none, assembled, Bool.eq_iff_iff]
          simpa using not_congr hat
        rw [hsame]
        rw [hon] at hold
        exact hold

/-- a toggle by the chat is read, exactly when it leaves what is always on alone -/
theorem set_reads (h : Inv R s) {enabled : Bool} (hmem : Phase.set f enabled ∈ s.requests) :
    (∀ g ∈ R.factories, ∀ b, ((f.name, enabled) :: s.accepted).lookup g.name = some b →
      Reports R (s.tables.write R (.enabled f.name enabled)) g b) ↔ CalmAt R s (.set f enabled) := by
  obtain ⟨hf, hcore⟩ := h.chat f enabled hmem
  have hown : assembled (s.tables.write R (.enabled f.name enabled)) f = enabled := by
    rw [Bool.eq_iff_iff, assembled_iff, disabled_set, if_pos rfl]
    simp
  constructor
  · intro hreads
    obtain ⟨hdashboard, -⟩ := (reports_iff hf).1 (hreads f hf enabled (by simp))
    rw [hown] at hdashboard
    simp only [CalmAt]
    revert hdashboard
    cases enabled <;> simp
  · intro hcalm g hg b hb
    by_cases hname : g.name = f.name
    · rw [hname, List.lookup_cons_self, Option.some.injEq] at hb
      rw [eq_of_name hf hg hname, reports_iff hf, hown, hcore, ← hb]
      rcases hcalm with rfl | hoff
      · simp
      · simp [hoff]
    · rw [lookup_cons_ne hname] at hb
      have hsame : assembled (s.tables.write R (.enabled f.name enabled)) g = assembled s.tables g := by
        rw [Bool.eq_iff_iff, assembled_iff, assembled_iff, disabled_set, if_neg hname]
      have hold := (reports_iff hg).1 (h.reads g hg b hb)
      rw [reports_iff hg, hsame]
      exact hold

/-! ## The steps -/

theorem not_some_of_lookup_append {n : Str} {a b : List (Str × Bool)} (h : (a ++ b).lookup n = none) :
    a.lookup n = none ∧ b.lookup n = none := by
  rw [List.lookup_append, Option.or_eq_none_iff] at h
  exact h

theorem resume_inv (h : Inv R s) {i : ℕ} {p : Phase} (hp : s.requests[i]? = some p) (hcalm : CalmAt R s p) :
    Inv R (resume R s i p) := by
  have hmem : p ∈ s.requests := List.mem_of_getElem? hp
  cases p with
  | enabled => exact h
  | refused => exact h
  | set f enabled =>
    refine inv_resumes h hp rfl ((set_reads h hmem).2 hcalm) (fun g hg hon => ?_) (fun n hn => ?_) nofun nofun (fun w hw => ?_) (by simp)
    · simp only [resume, Sys.setPhase, Sys.write]
      rw [disabled_set]
      split_ifs with hname
      · rw [eq_of_name (h.chat f enabled hmem).1 hg hname] at hon
        rcases hcalm with rfl | hoff
        · exact nofun
        · rw [hon] at hoff
          cases hoff
      · exact h.always g hg hon
    · have hne : n ≠ f.name := by
        rintro rfl
        simp [resume] at hn
      have hn : s.accepted.lookup n = none := by
        rw [← lookup_cons_ne hne enabled]
        exact hn
      refine ⟨hn, ?_, nofun⟩
      simp only [resume, Sys.setPhase, Sys.write]
      rw [disabled_set, if_neg hne]
      exact (h.untoggled n hn).1
    · exact (List.mem_append.1 hw).imp_right fun hw => by rw [List.mem_singleton.1 hw]
  | update phase =>
    cases phase with
    | accepted => exact h
    | rejected => exact h
    | load ops =>
      have hscan := fun u' hu => @scan_update R ⟨_, _, []⟩ u' (merged_loaded s.tables.disabledNames) ops hu
      refine inv_resumes h hp rfl h.reads h.always (fun n hn => ⟨hn, (h.untoggled n hn).1, fun u hu => ?_⟩) (fun u hu => ?_) nofun
        (fun w hw => Or.inl hw) (fun _ => h.clean i (Or.inr ⟨ops, hp⟩))
      · rw [(hscan u hu).2]
        exact (h.untoggled n hn).1
      · exact (hscan u hu).1
    | store u subTool level ops =>
      have hscan := fun u' hu => @scan_update R u u' (h.merged _ hmem u rfl) ops hu
      refine inv_resumes h hp rfl h.reads h.always (fun n hn => ⟨hn, (h.untoggled n hn).1, fun u' hu => ?_⟩) (fun u' hu => ?_) nofun
        (fun w hw => ?_) (fun hbad => ?_)
      · rw [(hscan u' hu).2]
        exact (h.untoggled n hn).2 _ hmem u rfl
      · exact (hscan u' hu).1
      · exact (List.mem_append.1 hw).imp_right fun hw => by rw [List.mem_singleton.1 hw]
      · rcases hbad with hbad | ⟨ops', hbad⟩
        · exact absurd hcalm ((scan_rejected_iff ops).1 (Phase.update.inj hbad))
        · exact absurd (Phase.update.inj hbad) (scan_ne_load ops ops')
    | build u =>
      refine inv_resumes h hp rfl h.reads h.always (fun n hn => ⟨hn, (h.untoggled n hn).1, fun u' hu => ?_⟩) (fun u' hu => ?_) nofun
        (fun w hw => Or.inl hw) (by simp)
      · cases hu
        exact (h.untoggled n hn).2 _ hmem u rfl
      · cases hu
        exact h.merged _ hmem u rfl
    | save u =>
      refine inv_resumes h hp rfl ((save_reads h hp).2 hcalm) (fun f hf hon => ?_) (fun n hn => ?_) nofun nofun (fun w hw => ?_) (by simp)
      · simp only [resume, Sys.setPhase, Sys.write]
        rw [disabled_save hf, hon]
        exact nofun
      · obtain ⟨htoggles, hn⟩ := not_some_of_lookup_append hn
        refine ⟨hn, fun hdisabled => ?_, nofun⟩
        have hheld := ((h.merged _ hmem u rfl).disabled n).1 (disabled_save_subset hdisabled)
        rw [htoggles] at hheld
        exact (h.untoggled n hn).2 _ hmem u rfl hheld
      · exact (List.mem_append.1 hw).imp_right fun hw => by rw [List.mem_singleton.1 hw]

theorem step_inv (s : Sys) (e : Event) (h : Inv R s) (hcalm : Calm R s e) : Inv R (step R s e) := by
  cases e with
  | put tools =>
    refine inv_arrives h _ ?_ fun f enabled heq => ?_
    · unfold putPhase
      split_ifs <;> rfl
    · unfold putPhase at heq
      split_ifs at heq
  | chat target enabled =>
    refine inv_arrives h _ ?_ fun f b heq => ?_
    · unfold chatPhase
      split
      · rfl
      · split_ifs <;> rfl
    · unfold chatPhase at heq
      split at heq
      · cases heq
      · rename_i g hg
        split_ifs at heq with hcore
        cases heq
        exact ⟨(getFactory_mem hg).1, by simpa using hcore⟩
  | resume i =>
    cases hp : s.requests[i]? with
    | none =>
      simp only [step, hp]
      exact h
    | some p =>
      simp only [step, hp]
      exact resume_inv h hp (hcalm p hp)

/-- a step that ends in agreement was calm -/
theorem calm_of_agreed (h : Inv R s) {e : Event} (hagreed : Agreed R (step R s e)) : Calm R s e := by
  cases e with
  | put tools => trivial
  | chat target enabled => trivial
  | resume i =>
    intro p hp
    have hstep : step R s (.resume i) = resume R s i p := by simp only [step, show s.requests[i]? = some p from hp]
    rw [hstep] at hagreed
    have hlt : i < s.requests.length := (List.getElem?_eq_some_iff.1 hp).1
    cases p with
    | enabled => trivial
    | refused => trivial
    | set f enabled => exact (set_reads h (List.mem_of_getElem? hp)).1 hagreed.reads
    | update phase =>
      cases phase with
      | load ops => trivial
      | build u => trivial
      | accepted => trivial
      | rejected => trivial
      | save u => exact (save_reads h hp).1 hagreed.reads
      | store u subTool level ops =>
        -- the level that has just been stored is the rejected update's own write
        by_contra hvalid
        refine hagreed.rejected i ?_ (i, .level subTool level) (List.mem_append_right _ (List.mem_singleton_self _)) rfl
        simp only [resume, Sys.setPhase, Sys.write]
        rw [List.getElem?_set_self hlt, (scan_rejected_iff ops).2 hvalid]

/-- **The reads agree, exactly in calm runs.** For every registry and every interleaving of dashboard updates and chat calls
of a user, in every state of the run every read reports the last accepted toggle of each factory, no rejected update has
written, and the dashboard and the agent agree when no request is in flight, exactly when every step of the run is calm. -/
theorem toggles_agree_iff (R : Registry) (events : List Event) :
    Meets (step R) (fun s e => Agreed R (step R s e)) initial events ↔ Meets (step R) (Calm R) initial events :=
  meets_iff (I := Inv R) (fun s e h => ⟨calm_of_agreed h, fun hcalm => (step_inv s e h hcalm).agreed⟩)
    (fun s e h => step_inv s e h) inv_initial

def twoTools : Registry :=
  ⟨[⟨"gmail".toList, false, false, []⟩, ⟨"calendar".toList, false, false, []⟩], by decide⟩

/-- an update of one factory, and a chat call that disables the other one between its load and its save -/
def overlapping : List Event :=
  [.put [⟨"gmail".toList, true, none⟩], .resume 0, .chat "calendar".toList false, .resume 1, .resume 0, .resume 0]

/-- the save writes the factory back as enabled -/
theorem toggle_overwritten :
    ¬ ∀ (R : Registry) (events : List Event), Meets (step R) (fun s e => Agreed R (step R s e)) initial events := by
  intro h
  have hagreed := (h twoTools overlapping).2.2.2.2.2.1
  have hread := (hagreed.reads ⟨"calendar".toList, false, false, []⟩ (by decide) false (by decide +kernel)).2.2
  exact absurd hread (by decide +kernel)

/-! ## The permissions -/

/-- the levels of the tools are in an object -/
def Tables.Leveled (t : Tables) : Prop := ∃ tools, (t.permissions.lookup "tools".toList).getD (.obj []) = .obj tools

/-- where they are, a level can be stored, and they stay in one -/
theorem Tables.Leveled.setPermission (h : t.Leveled) (subTool : Str) (level : PermissionLevel) :
    ∃ data, Approval.setPermission R.defaults t.permissions subTool level none = some data ∧
      (t.write R (.level subTool level)).Leveled := by
  obtain ⟨tools, htools⟩ := h
  obtain ⟨mid, mtools, hfill, hmid⟩ := Approval.backfill_isSome R.defaults htools
  have hset := Approval.updateAt_isSome (f := fun tools => some (Dict.set subTool (.str level.text) tools)) hmid rfl
  have hstored : Approval.setPermission R.defaults t.permissions subTool level none = some _ :=
    Option.bind_eq_some_iff.2 ⟨mid, hfill, hset⟩
  refine ⟨_, hstored, Dict.set subTool (.str level.text) mtools, ?_⟩
  simp only [Tables.write, hstored, Option.getD_some]
  rw [Dict.lookup_set, if_pos rfl]
  rfl

/-- only a stored level writes the permissions -/
theorem leveled_step {s : Sys} (h : s.tables.Leveled) (e : Event) : (step R s e).tables.Leveled := by
  cases e with
  | put tools => exact h
  | chat target enabled => exact h
  | resume i =>
    cases hp : s.requests[i]? with
    | none =>
      rw [show step R s (.resume i) = s by simp only [step, hp]]
      exact h
    | some p =>
      rw [show step R s (.resume i) = resume R s i p by simp only [step, hp]]
      cases p with
      | update phase =>
        cases phase with
        | store u subTool level ops => exact (h.setPermission subTool level).choose_spec.2
        | _ => exact h
      | _ => exact h

end Clawbolt.ToolConfig

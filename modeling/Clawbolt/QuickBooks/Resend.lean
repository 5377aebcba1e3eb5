/-
Resending a record as it was read: `build_update` on fields and lines copied from the stored record.

- `newValue_self`: a copied field is unchanged, unless it is an address with a first street line and a geocode, which the
  merge drops;
- `mergeLine_self`: a copied line is unchanged, unless the merge computes an amount for it;
- `resend_changes_nothing`: when exactly an update with nothing but copies changes nothing.
-/
import Mathlib.Tactic
import Clawbolt.QuickBooks.Update

namespace Clawbolt.QuickBooks

open Text (Str)

/-! ## A field -/

/-- an address whose copy is taken for a new street address, and loses its geocode -/
def losesGeocode (key : Str) : Json → Bool
  | .obj address =>
    Text.endsWith "Addr".toList key && Dict.has "Line1".toList address &&
      (Dict.has "Lat".toList address || Dict.has "Long".toList address)
  | _ => false

/-- a merge of an address onto itself -/
theorem mergeAddress_self {address : Dict Json} (hnd : (address.map Prod.fst).Nodup) :
    mergeAddress address address =
      if Dict.has "Line1".toList address then Dict.erase "Long".toList (Dict.erase "Lat".toList address)
      else address := by
  have hself : Dict.update address address = address :=
    Dict.update_self fun kv hkv => Dict.lookup_of_mem hnd hkv
  -- a street line that the copy leaves out is not stored either
  have hblank : ∀ key : String, (!Dict.has key.toList address && truthy (get address key)) = false := by
    intro key
    cases h : address.lookup key.toList with
    | none => simp [get, h, truthy]
    | some v => simp [Dict.has, h]
  unfold mergeAddress
  simp only [hself, hblank, Bool.false_eq_true, if_false]
  split_ifs
  · have hfold : streetKeys.foldl (fun m _ => m) address = address := by simp [streetKeys]
    rw [hfold]
    rfl
  · rfl

theorem eqv_obj_length {a b : Dict Json} (h : Json.eqv (.obj a) (.obj b) = true) : a.length = b.length := by
  simp only [Json.eqv, Bool.and_eq_true, beq_iff_eq] at h
  exact h.1

/-- a value with a key popped is another value -/
theorem not_eqv_shorter {a b : Dict Json} (h : a.length < b.length) : Json.eqv (.obj a) (.obj b) = false := by
  cases he : Json.eqv (.obj a) (.obj b) with
  | false => rfl
  | true =>
    have := eqv_obj_length he
    omega

theorem eqv_erase_erase {d : Dict Json} (hwf : (Json.obj d).WellFormed) (j k : Str) :
    Json.eqv (.obj (Dict.erase k (Dict.erase j d))) (.obj d) = !(Dict.has j d || Dict.has k d) := by
  unfold Dict.has
  cases hj : d.lookup j with
  | some x =>
    have hle : (Dict.erase k (Dict.erase j d)).length ≤ (Dict.erase j d).length := List.length_filter_le _ _
    rw [not_eqv_shorter (hle.trans_lt (Dict.length_erase_lt hj))]
    rfl
  | none =>
    rw [Dict.erase_self hj]
    cases hk : d.lookup k with
    | some x =>
      rw [not_eqv_shorter (Dict.length_erase_lt hk)]
      rfl
    | none =>
      rw [Dict.erase_self hk, Json.eqv_refl _ hwf]
      rfl

theorem eqv_mergeAddress_self {address : Dict Json} (hwf : (Json.obj address).WellFormed) :
    Json.eqv (.obj (mergeAddress address address)) (.obj address) =
      !(Dict.has "Line1".toList address && (Dict.has "Lat".toList address || Dict.has "Long".toList address)) := by
  have hnd : (address.map Prod.fst).Nodup := Json.nodup_of_wellFormed hwf
  rw [mergeAddress_self hnd]
  cases hline : Dict.has "Line1".toList address with
  | true => rw [if_pos rfl, Bool.true_and, eqv_erase_erase hwf]
  | false =>
    rw [if_neg Bool.false_ne_true, Bool.false_and, Json.eqv_refl _ hwf]
    rfl

/-- **A copied field.** It equals the stored one, unless it is an address that loses its geocode. -/
theorem newValue_self (key : Str) {v : Json} (hwf : v.WellFormed) :
    Json.eqv (newValue key v v) v = !losesGeocode key v := by
  cases v with
  | obj address =>
    simp only [newValue, losesGeocode]
    cases hkey : Text.endsWith "Addr".toList key with
    | true => rw [if_pos rfl, eqv_mergeAddress_self hwf, Bool.true_and]
    | false =>
      rw [if_neg Bool.false_ne_true, Json.eqv_refl _ hwf, Bool.false_and, Bool.false_and]
      rfl
  | _ => simp [newValue, losesGeocode, Json.eqv_refl _ hwf]

/-! ## A line -/

/-- the merge computes no amount for a copy of the line: it has one, or its detail has no quantity and price to multiply -/
def amountStays (env : Env) (line : Line) : Bool :=
  Dict.has "Amount".toList line ||
    match get line salesDetail with
    | .obj detail =>
      match detail.lookup "Qty".toList, detail.lookup "UnitPrice".toList with
      | some qty, some price => env.lineAmount (env.str qty) (env.str price) = .caught
      | _, _ => true
    | _ => true

theorem mergeKeys_self {line : Line} (h : (Json.obj line).WellFormed) : mergeKeys line line = line := by
  simp only [Json.WellFormed] at h
  obtain ⟨hnd, hvals⟩ := h
  have hall : ∀ kv ∈ line, line.lookup kv.1 = some kv.2 := fun kv hkv => Dict.lookup_of_mem hnd hkv
  -- a copied detail object is merged key by key with itself
  have hvalue : ∀ kv ∈ line, mergedValue kv.1 (some kv.2) kv.2 = kv.2 := by
    intro kv hkv
    have hwf : kv.2.WellFormed := (Json.wellFormedDict_iff line).1 hvals kv hkv
    cases hv : kv.2 with
    | obj e =>
      rw [hv] at hwf
      simp only [Json.WellFormed] at hwf
      simp only [mergedValue]
      split_ifs
      · rw [Dict.update_self fun x hx => Dict.lookup_of_mem hwf.1 hx]
      · rfl
    | _ => rfl
  unfold mergeKeys
  suffices h : ∀ l : Line, (∀ kv ∈ l, kv ∈ line) →
      l.foldl (fun m kv => Dict.set kv.1 (mergedValue kv.1 (m.lookup kv.1) kv.2) m) line = line from
    h line fun _ hkv => hkv
  intro l
  induction l with
  | nil => intro _; rfl
  | cons kv l ih =>
    intro hl
    have hkv := hl kv List.mem_cons_self
    rw [List.foldl_cons, hall kv hkv, hvalue kv hkv, Dict.set_self (hall kv hkv)]
    exact ih fun x hx => hl x (List.mem_cons_of_mem _ hx)

theorem wellFormed_get {d : Dict Json} (h : (Json.obj d).WellFormed) (key : String) : (get d key).WellFormed := by
  unfold get
  cases hl : d.lookup key.toList with
  | none => trivial
  | some v => exact Json.wellFormed_of_lookup h hl

/-- a copy does not switch the type of its line -/
theorem mergeBase_self (env : Env) {line : Line} (h : (Json.obj line).WellFormed) : mergeBase env line line = line := by
  have hsame : switchesType line line = false := by
    unfold switchesType
    rw [Json.eqv_refl _ (wellFormed_get h _)]
    simp
  unfold mergeBase
  rw [hsame]
  rfl

/-- **A copied line.** The merge leaves it as it is, fails, or adds an amount to it. -/
theorem mergeLine_self (env : Env) {line : Line} (h : (Json.obj line).WellFormed) :
    if amountStays env line then mergeLine env line line = .ok line
    else mergeLine env line line = .error .raised ∨
      ∃ amount, mergeLine env line line = .ok (Dict.set "Amount".toList amount line) ∧
        line.lookup "Amount".toList = none := by
  unfold mergeLine
  rw [mergeBase_self env h, mergeKeys_self h]
  unfold recomputeAmount amountStays
  cases hamount : Dict.has "Amount".toList line with
  | true => rw [Bool.true_or, if_pos rfl, if_pos rfl]
  | false =>
    have hnone : line.lookup "Amount".toList = none := Dict.has_eq_false.1 hamount
    rw [Bool.false_or]
    cases hdetail : get line salesDetail with
    | obj detail =>
      simp only [Bool.false_eq_true, if_false]
      cases hqty : detail.lookup "Qty".toList with
      | none => simp only [if_true, ite_self]
      | some qty =>
        have hsent : Dict.has "Qty".toList detail = true := by rw [Dict.has, hqty]; rfl
        cases hprice : detail.lookup "UnitPrice".toList with
        | none => simp only [if_true, ite_self]
        | some price =>
          simp only [hsent, true_or, if_true]
          cases hvalue : env.lineAmount (env.str qty) (env.str price) with
          | value amount => exact Or.inr ⟨amount, rfl, hnone⟩
          | caught => simp
          | raises => exact Or.inl rfl
    | _ => simp only [Bool.false_eq_true, if_false, if_true]

/-! ## The lines -/

section

variable {env : Env}

/-- the objects of a list -/
def objects (l : List Json) : List Line := l.filterMap fun v => match v with | .obj d => some d | _ => none

theorem objects_map (lines : List Line) : objects (lines.map .obj) = lines := by
  unfold objects
  rw [List.filterMap_map]
  exact List.filterMap_some

theorem mapM_objects {f : Json → Option Line} (hf : ∀ d, f (.obj d) = some d) (lines : List Line) :
    (lines.map Json.obj).mapM f = some lines := by
  induction lines with
  | nil => rfl
  | cons line lines ih => simp [hf, ih]

theorem requestedLines_map (lines : List Line) : requestedLines (.arr (lines.map .obj)) = .ok lines := by
  simp only [requestedLines]
  rw [mapM_objects fun _ => rfl]

/-- the stored lines have distinct Ids -/
def DistinctIds (env : Env) (lines : List Line) : Prop := (lines.filterMap (lineId env)).Nodup

theorem eq_of_lineId {lines : List Line} (h : DistinctIds env lines) {a b : Line} (ha : a ∈ lines) (hb : b ∈ lines)
    {lid : Str} (hida : lineId env a = some lid) (hidb : lineId env b = some lid) : a = b := by
  induction lines with
  | nil => simp at ha
  | cons x lines ih =>
    unfold DistinctIds at h
    have hrest : DistinctIds env lines := ((List.sublist_cons_self x lines).filterMap (lineId env)).nodup h
    have hfirst : ∀ y ∈ lines, lineId env x = some lid → lineId env y ≠ some lid := by
      intro y hy hx hy'
      rw [List.filterMap_cons_some hx, List.nodup_cons] at h
      exact h.1 (List.mem_filterMap.2 ⟨y, hy, hy'⟩)
    rcases List.mem_cons.1 ha with rfl | ha'
    · rcases List.mem_cons.1 hb with rfl | hb'
      · rfl
      · exact absurd hidb (hfirst b hb' hida)
    · rcases List.mem_cons.1 hb with rfl | hb'
      · exact absurd hida (hfirst a ha' hidb)
      · exact ih hrest ha' hb'

theorem storedById_has {lines : List Line} {line : Line} (hm : line ∈ lines) {lid : Str}
    (hid : lineId env line = some lid) : ∃ x, (storedById env lines).lookup lid = some x := by
  induction lines using List.reverseRecOn with
  | nil => simp at hm
  | append_singleton lines l ih =>
    rw [storedById_snoc]
    rcases List.mem_append.1 hm with hm | hm
    · obtain ⟨x, hx⟩ := ih hm
      cases hl : lineId env l with
      | none => exact ⟨x, hx⟩
      | some lid' =>
        simp only [Dict.lookup_set]
        split_ifs
        · exact ⟨l, rfl⟩
        · exact ⟨x, hx⟩
    · obtain rfl := List.mem_singleton.1 hm
      rw [hid]
      exact ⟨line, by simp [Dict.lookup_set]⟩

theorem storedById_eq {lines : List Line} (h : DistinctIds env lines) {line : Line} (hm : line ∈ lines) {lid : Str}
    (hid : lineId env line = some lid) : (storedById env lines).lookup lid = some line := by
  obtain ⟨x, hx⟩ := storedById_has hm hid
  obtain ⟨hxm, hxid⟩ := storedById_mem hx
  rw [hx, eq_of_lineId h hxm hm hxid hid]

/-- a stored line that is copied: it carries an Id, or is a subtotal -/
def copied (env : Env) (line : Line) : Bool := (lineId env line).isSome || isSubtotal line

/-- copies of stored lines are collected as their changes, and none as a new line -/
theorem collect_copies (t : Target) (hdel : t.deletes = []) (hids : DistinctIds env t.stored) {requested : List Line}
    (hsub : requested.Sublist t.stored) (hcopied : ∀ line ∈ requested, copied env line = true) (changes : Dict Line)
    (hfree : ∀ line ∈ requested, ∀ lid, lineId env line = some lid → changes.lookup lid = none) :
    ∃ changes', collect env t requested changes [] = .ok (changes', []) := by
  induction requested generalizing changes with
  | nil => exact ⟨changes, rfl⟩
  | cons line requested ih =>
    have hm : line ∈ t.stored := hsub.subset List.mem_cons_self
    have htail : requested.Sublist t.stored := (List.sublist_cons_self line requested).trans hsub
    have hcopied' : ∀ l ∈ requested, copied env l = true := fun l hl => hcopied l (List.mem_cons_of_mem _ hl)
    rw [collect]
    cases hl : lineId env line with
    | none =>
      have hsubtotal : isSubtotal line = true := by simpa [copied, hl] using hcopied line List.mem_cons_self
      simp only [hsubtotal, if_true]
      exact ih htail hcopied' changes fun l hl' => hfree l (List.mem_cons_of_mem _ hl')
    | some lid =>
      have hstored : Dict.has lid (storedById env t.stored) = true := by rw [Dict.has, storedById_eq hids hm hl]; rfl
      have hnone : Dict.has lid changes = false := Dict.has_eq_false.2 (hfree line List.mem_cons_self lid hl)
      simp only [hstored, Bool.not_true, Bool.false_eq_true, if_false, hdel, List.not_mem_nil, hnone]
      refine ih htail hcopied' _ fun l hl' lid' hid => ?_
      -- a later copy is another line, so it has another Id
      have hne : lid' ≠ lid := by
        intro he
        subst he
        have hnd : (requested.filterMap (lineId env)).Nodup ∧ lid' ∉ requested.filterMap (lineId env) := by
          have h := (hsub.filterMap (lineId env)).nodup hids
          rw [List.filterMap_cons_some hl, List.nodup_cons] at h
          exact ⟨h.2, h.1⟩
        exact hnd.2 (List.mem_filterMap.2 ⟨l, hl', hid⟩)
      rw [Dict.lookup_set, if_neg hne]
      exact hfree l (List.mem_cons_of_mem _ hl') lid' hid

theorem changeFor_eq_none {requested : List Line} {lid : Str} :
    changeFor env requested lid = none ↔ ∀ line ∈ requested, lineId env line ≠ some lid := by
  unfold changeFor
  rw [List.find?_eq_none]
  simp

/-- what a stored line is merged with, when the request holds copies only -/
theorem mergeStored_copy {stored requested : List Line} {changes : Dict Line} (hids : DistinctIds env stored)
    (hsub : requested.Sublist stored) (hch : ∀ lid, changes.lookup lid = changeFor env requested lid) {line : Line}
    (hm : line ∈ stored) :
    mergeStored env changes line =
      if line ∈ requested ∧ (lineId env line).isSome then mergeLine env line line else .ok line := by
  unfold mergeStored
  cases hid : lineId env line with
  | none => simp
  | some lid =>
    simp only [Option.bind_some, Option.isSome_some, and_true, hch]
    cases hfor : changeFor env requested lid with
    | none =>
      have hnot : line ∉ requested := fun hr => changeFor_eq_none.1 hfor line hr hid
      rw [if_neg hnot]
    | some c =>
      have hc : c ∈ requested := List.mem_of_find?_eq_some hfor
      have hcid : lineId env c = some lid := by simpa using List.find?_some hfor
      obtain rfl := eq_of_lineId hids (hsub.subset hc) hm hcid hid
      rw [if_pos hc]

/-- no copied line is given an amount -/
def AmountsStay (env : Env) (requested : List Line) : Prop :=
  ∀ line ∈ requested, (lineId env line).isSome = true → amountStays env line = true

theorem mergeStored_copies {stored requested : List Line} {changes : Dict Line} (hids : DistinctIds env stored)
    (hwf : ∀ line ∈ stored, (Json.obj line).WellFormed) (hsub : requested.Sublist stored)
    (hch : ∀ lid, changes.lookup lid = changeFor env requested lid) (hstay : AmountsStay env requested) :
    stored.mapM (mergeStored env changes) = .ok stored := by
  refine Fallible.mapM_self fun line hm => ?_
  rw [mergeStored_copy hids hsub hch hm]
  split_ifs with hr
  · have hself := mergeLine_self env (hwf line hm)
    rwa [if_pos (hstay line hr.1 hr.2)] at hself
  · rfl

/-- lines that come out of the merge as they were had their amounts -/
theorem amountsStay_of_eqv {stored requested merged : List Line} {changes : Dict Line} (hids : DistinctIds env stored)
    (hwf : ∀ line ∈ stored, (Json.obj line).WellFormed) (hsub : requested.Sublist stored)
    (hch : ∀ lid, changes.lookup lid = changeFor env requested lid)
    (hmerged : stored.mapM (mergeStored env changes) = .ok merged)
    (heqv : List.Forall₂ (fun a b => Json.eqv (.obj a) (.obj b) = true) merged stored) :
    AmountsStay env requested := by
  intro line hr hid
  have hm : line ∈ stored := hsub.subset hr
  obtain ⟨i, hi, rfl⟩ := List.getElem_of_mem hm
  have h2 := Fallible.mapM_forall₂ hmerged
  have hi' : i < merged.length := by rw [← h2.length_eq]; exact hi
  have hmerge := h2.get hi hi'
  have hsame := heqv.get hi' hi
  simp only [List.get_eq_getElem] at hmerge hsame
  rw [mergeStored_copy hids hsub hch hm, if_pos ⟨hr, hid⟩] at hmerge
  have hself := mergeLine_self env (hwf _ hm)
  by_contra hstay
  rw [if_neg hstay] at hself
  rcases hself with hself | ⟨amount, hself, hnone⟩
  · rw [hself] at hmerge
    exact absurd hmerge (by simp)
  · rw [hself, Except.ok.injEq] at hmerge
    -- the amount is one key more
    have hlen := eqv_obj_length hsame
    have hnot : "Amount".toList ∉ (stored[i]).map Prod.fst := by
      intro hk
      obtain ⟨kv, hkv, hfst⟩ := List.mem_map.1 hk
      have := List.lookup_eq_none_iff.1 hnone kv hkv
      simp [hfst] at this
    have hkeys := congrArg List.length (Dict.keys_set stored[i] "Amount".toList amount)
    rw [if_neg hnot, List.length_append, List.length_map, List.length_map] at hkeys
    rw [← hmerge] at hlen
    simp only [List.length_singleton] at hkeys
    omega

theorem isDeleted_nil (line : Line) : isDeleted env [] line = false := by
  unfold isDeleted
  cases lineId env line <;> simp

/-- **The merge of copied lines.** It gives the stored lines back. -/
theorem mergeLines_copies (entityType entityId : Str) {stored requested : List Line} (hids : DistinctIds env stored)
    (hwf : ∀ line ∈ stored, (Json.obj line).WellFormed) (hsub : requested.Sublist stored)
    (hcopied : ∀ line ∈ requested, copied env line = true) (hstay : AmountsStay env requested)
    (hitem : ∃ line ∈ stored, isSubtotal line = false) :
    mergeLines env entityType entityId stored (.arr (requested.map .obj)) [] = .ok ⟨stored, [], [], []⟩ := by
  obtain ⟨changes, hcollect⟩ := collect_copies ⟨entityType, entityId, stored, []⟩ rfl hids hsub
    hcopied [] fun _ _ _ _ => rfl
  have hch : ∀ lid, changes.lookup lid = changeFor env requested lid := by
    intro lid
    have := (collect_ok hcollect).1 lid
    simpa using this
  have hkept : stored.filter (fun line => !isDeleted env [] line) = stored :=
    List.filter_eq_self.2 fun line _ => by rw [isDeleted_nil]; rfl
  have hremoved : stored.filter (isDeleted env []) = [] :=
    List.filter_eq_nil_iff.2 fun line _ => by rw [isDeleted_nil]; exact Bool.false_ne_true
  have hsplit : stored.rdropWhile isSubtotal ++ [] ++ stored.rtakeWhile isSubtotal = stored := by
    rw [List.append_nil]
    exact List.rdropWhile_append_rtakeWhile
  have hall : stored.all isSubtotal = false := by
    obtain ⟨line, hm, hline⟩ := hitem
    rw [List.all_eq_false]
    exact ⟨line, hm, by simp [hline]⟩
  have hchanged : changedIds env stored stored changes = [] := by
    refine List.filter_eq_nil_iff.2 fun lid hlid => ?_
    obtain ⟨kv, hkv, rfl⟩ := List.mem_map.1 hlid
    obtain ⟨c, hc⟩ : ∃ c, changes.lookup kv.1 = some c := by
      cases hl : changes.lookup kv.1 with
      | some c => exact ⟨c, rfl⟩
      | none =>
        have := List.lookup_eq_none_iff.1 hl kv hkv
        simp at this
    have hfor := hc
    rw [hch] at hfor
    have hcm : c ∈ stored := hsub.subset (List.mem_of_find?_eq_some hfor)
    have hcid : lineId env c = some kv.1 := by simpa using List.find?_some hfor
    rw [storedById_eq hids hcm hcid]
    simp [Json.eqv_refl _ (hwf c hcm)]
  unfold mergeLines
  rw [requestedLines_map]
  simp only [List.map_nil, List.filter_nil, ne_eq, not_true_eq_false, if_false, bind, Except.bind, hcollect, hkept,
    mergeStored_copies hids hwf hsub hch hstay, hsplit, hall, Bool.false_eq_true, hchanged, hremoved]
  rfl

/-- lines that an update of copies leaves as they are had their amounts, and one of them is no subtotal -/
theorem of_mergeLines_copies {entityType entityId : Str} {stored requested : List Line} {l : LineUpdate}
    (hids : DistinctIds env stored) (hwf : ∀ line ∈ stored, (Json.obj line).WellFormed)
    (hsub : requested.Sublist stored)
    (h : mergeLines env entityType entityId stored (.arr (requested.map .obj)) [] = .ok l) (hnew : l.added = [])
    (heqv : List.Forall₂ (fun a b => Json.eqv (.obj a) (.obj b) = true) l.merged stored) :
    AmountsStay env requested ∧ ∃ line ∈ stored, isSubtotal line = false := by
  unfold mergeLines at h
  rw [requestedLines_map] at h
  simp only [List.map_nil, List.filter_nil, ne_eq, not_true_eq_false, if_false] at h
  obtain ⟨requested', hr, h⟩ := Fallible.bind_eq_ok.1 h
  obtain rfl := Except.ok.inj hr
  obtain ⟨⟨changes, added⟩, hcollect, h⟩ := Fallible.bind_eq_ok.1 h
  obtain ⟨kept, hkept, h⟩ := Fallible.bind_eq_ok.1 h
  have hch : ∀ lid, changes.lookup lid = changeFor env requested lid := by
    intro lid
    have := (collect_ok hcollect).1 lid
    simpa using this
  have hfilter : stored.filter (fun line => !isDeleted env [] line) = stored :=
    List.filter_eq_self.2 fun line _ => by rw [isDeleted_nil]; rfl
  rw [hfilter] at hkept
  simp only [reject] at h
  split_ifs at h with hall
  obtain rfl := Except.ok.inj h
  simp only at hnew heqv ⊢
  subst hnew
  rw [List.append_nil, List.rdropWhile_append_rtakeWhile] at heqv hall
  have hstay := amountsStay_of_eqv hids hwf hsub hch hkept heqv
  rw [mergeStored_copies hids hwf hsub hch hstay] at hkept
  obtain rfl := Except.ok.inj hkept
  exact ⟨hstay, by simpa [List.all_eq_true] using hall⟩

end

/-! ## The record -/

/-- a request of copies: fields of the record, its SyncToken among them, and, if it names the lines, stored lines that
carry an Id or are subtotals -/
structure Resend (env : Env) (record changes : Dict Json) : Prop where
  wellFormed : (Json.obj record).WellFormed
  distinct : (changes.map Prod.fst).Nodup
  token : Dict.has "SyncToken".toList changes = true
  fields : ∀ kv ∈ changes, kv.1 ≠ "Line".toList → record.lookup kv.1 = some kv.2
  lines : ∀ v, changes.lookup "Line".toList = some v → ∃ stored requested, record.lookup "Line".toList = some (.arr stored) ∧
    v = .arr requested ∧ requested.Sublist stored ∧ ∀ line ∈ requested, ∃ d, line = .obj d ∧ copied env d = true
  ids : ∀ stored, record.lookup "Line".toList = some (.arr stored) → DistinctIds env (objects stored)

/-- an update that reports no change, and leaves the record as it is -/
structure NothingChanged (record : Dict Json) (m : MergedUpdate) : Prop where
  fields : m.changedFields = []
  lineIds : m.changedLineIds = []
  added : m.addedLines = []
  removed : m.removedLines = []
  after : Json.eqv (.obj m.after) (.obj record) = true

/-- a SyncToken whose text is not blank and has no blanks around it -/
def PlainToken (env : Env) (token : Json) : Prop :=
  token ≠ .null ∧ Text.strip (env.str token) ≠ [] ∧ Text.strip (env.str token) = env.str token

/-- lines that can be resent: the entity has lines, all of them are objects and not all subtotals, and no copy is given
an amount -/
structure PlainLines (env : Env) (entityType : Str) (stored requested : List Json) : Prop where
  entity : entityType ∈ lineEntities
  objects : ∀ line ∈ stored, ∃ d, line = .obj d
  item : ∃ d, Json.obj d ∈ stored ∧ isSubtotal d = false
  amounts : ∀ d, Json.obj d ∈ requested → (lineId env d).isSome = true → amountStays env d = true

/-- a request of copies that the merge leaves alone -/
structure Plain (env : Env) (entityType : Str) (record changes : Dict Json) : Prop where
  token : PlainToken env (get record "SyncToken")
  geocodes : ∀ kv ∈ changes, losesGeocode kv.1 kv.2 = false
  lines : ∀ stored requested, record.lookup "Line".toList = some (.arr stored) →
    changes.lookup "Line".toList = some (.arr requested) → PlainLines env entityType stored requested

section

variable {env : Env} {entityType : Str} {record changes : Dict Json}

/-- the fields that lose a geocode are sent, whatever the rest of the request -/
theorem not_control_of_losesGeocode {k : Str} {v : Json} (h : losesGeocode k v = true) :
    ¬(k ∈ controlKeys ∨ k ∈ computedKeys ∨ k = "Line".toList) := by
  have hend : Text.endsWith "Addr".toList k = true := by
    cases v <;> simp_all [losesGeocode]
  intro hk
  have hall : ∀ j ∈ controlKeys ++ computedKeys ++ ["Line".toList], Text.endsWith "Addr".toList j = false := by decide
  have := hall k (by simpa [or_assoc] using hk)
  rw [this] at hend
  exact Bool.false_ne_true hend

/-- **A copied field is no change**, unless it loses its geocode. -/
theorem fieldChange_copy (h : Resend env record changes) {kv : Str × Json} (hkv : kv ∈ changes) :
    fieldChange record kv = none ↔ losesGeocode kv.1 kv.2 = false := by
  unfold fieldChange
  by_cases hk : kv.1 ∈ controlKeys ∨ kv.1 ∈ computedKeys ∨ kv.1 = "Line".toList
  · rw [if_pos hk]
    have : losesGeocode kv.1 kv.2 ≠ true := fun hl => not_control_of_losesGeocode hl hk
    simpa using this
  · rw [if_neg hk]
    have hstored := h.fields kv hkv fun he => hk (Or.inr (Or.inr he))
    simp only [hstored, Option.getD_some]
    rw [newValue_self _ (Json.wellFormed_of_lookup h.wellFormed hstored)]
    cases losesGeocode kv.1 kv.2 <;> simp

theorem fieldChanges_copies (h : Resend env record changes) :
    fieldChanges record changes = [] ↔ ∀ kv ∈ changes, losesGeocode kv.1 kv.2 = false := by
  unfold fieldChanges
  rw [List.filterMap_eq_nil_iff]
  exact forall₂_congr fun kv hkv => fieldChange_copy h hkv

theorem get_token (h : Resend env record changes) : get changes "SyncToken" = get record "SyncToken" := by
  have htoken := h.token
  unfold Dict.has at htoken
  obtain ⟨v, hv⟩ := Option.isSome_iff_exists.1 htoken
  have hne : "SyncToken".toList ≠ "Line".toList := by decide
  have hrec := h.fields _ (Dict.mem_of_lookup hv) hne
  rw [lookup_get hv, lookup_get hrec]

/-- the copied token passes the check when it is a plain text -/
theorem checkToken_copy (entityType : Str) (h : Resend env record changes) :
    checkToken env entityType (entityIdOf env record changes) record changes = .ok () ↔
      PlainToken env (get record "SyncToken") := by
  unfold checkToken PlainToken
  simp only [get_token h, reject]
  split_ifs with h1 h2
  · simp only [false_iff, not_and_or, not_not]
    rcases h1 with h1 | h1
    · exact Or.inl h1
    · exact Or.inr (Or.inl h1)
  · simp only [false_iff, not_and_or, not_not]
    exact Or.inr (Or.inr h2.2)
  · rw [not_or] at h1
    rw [not_and, not_not] at h2
    exact iff_of_true rfl ⟨h1.1, h1.2, h2 h1.1⟩

theorem storedLines_arr {stored : List Json} (h : record.lookup "Line".toList = some (.arr stored)) :
    storedLines record = .ok (objects stored) := by
  unfold storedLines
  rw [lookup_get h]
  rfl

theorem eq_map_objects {l : List Json} (h : ∀ line ∈ l, ∃ d, line = Json.obj d) : l = (objects l).map .obj := by
  induction l with
  | nil => rfl
  | cons line l ih =>
    obtain ⟨d, rfl⟩ := h line List.mem_cons_self
    have hcons : objects (.obj d :: l) = d :: objects l := rfl
    rw [hcons, List.map_cons, ← ih fun x hx => h x (List.mem_cons_of_mem _ hx)]

theorem mem_objects {l : List Json} {d : Line} : d ∈ objects l ↔ Json.obj d ∈ l := by
  unfold objects
  rw [List.mem_filterMap]
  constructor
  · intro h
    obtain ⟨v, hv, hobj⟩ := h
    cases v <;> simp at hobj
    exact hobj ▸ hv
  · intro h
    exact ⟨_, h, rfl⟩

/-- lines that equal objects are objects -/
theorem objects_of_eqv {lines : List Line} {stored : List Json}
    (h : List.Forall₂ (fun a b => Json.eqv a b = true) (lines.map .obj) stored) :
    ∀ line ∈ stored, ∃ d, line = Json.obj d := by
  intro line hline
  obtain ⟨i, hi, rfl⟩ := List.getElem_of_mem hline
  have hi' : i < (lines.map Json.obj).length := by rw [h.length_eq]; exact hi
  have heqv := h.get hi' hi
  simp only [List.get_eq_getElem, List.getElem_map] at heqv
  cases hs : stored[i] with
  | obj d => exact ⟨d, rfl⟩
  | _ =>
    rw [hs] at heqv
    simp [Json.eqv] at heqv

theorem wellFormed_objects (h : (Json.obj record).WellFormed) {stored : List Json}
    (hl : record.lookup "Line".toList = some (.arr stored)) : ∀ line ∈ objects stored, (Json.obj line).WellFormed := by
  intro line hm
  exact Json.wellFormed_of_mem (Json.wellFormed_of_lookup h hl) (mem_objects.1 hm)

/-- what an update without changed fields leaves of the record -/
theorem afterOf_of_nil (hnil : fieldChanges record changes = []) (lines : Option LineUpdate) :
    afterOf record changes lines = setLines lines record := by
  unfold afterOf
  rw [hnil]
  rfl

theorem touchesLines_nil : touchesLines changes [] = Dict.has "Line".toList changes := by simp [touchesLines]

/-- what a successful update without deletions went through -/
theorem buildUpdate_ok {m : MergedUpdate} (h : buildUpdate env entityType record changes [] = .ok m) :
    checkToken env entityType (entityIdOf env record changes) record changes = .ok () ∧
      (Dict.has "Line".toList changes = true → entityType ∈ lineEntities) ∧
      ∃ lines, updateLines env entityType record changes [] = .ok lines ∧
        m.after = afterOf record changes lines ∧ m.changedFields = (fieldChanges record changes).map Prod.fst ∧
        m.addedLines = (lines.map LineUpdate.added).getD [] := by
  unfold buildUpdate at h
  obtain ⟨⟨⟩, htoken, h⟩ := Fallible.bind_eq_ok.1 h
  simp only [reject, touchesLines_nil] at h
  split_ifs at h with hentity
  obtain ⟨lines, hlines, h⟩ := Fallible.bind_eq_ok.1 h
  obtain rfl := Except.ok.inj h
  refine ⟨htoken, fun htouches => ?_, lines, hlines, rfl, rfl, rfl⟩
  by_contra hnot
  exact hentity ⟨htouches, hnot⟩

theorem buildUpdate_of {lines : Option LineUpdate}
    (htoken : checkToken env entityType (entityIdOf env record changes) record changes = .ok ())
    (hentity : Dict.has "Line".toList changes = true → entityType ∈ lineEntities)
    (hlines : updateLines env entityType record changes [] = .ok lines) :
    ∃ m, buildUpdate env entityType record changes [] = .ok m ∧ m.after = afterOf record changes lines ∧
      m.changedFields = (fieldChanges record changes).map Prod.fst ∧
      m.changedLineIds = (lines.map LineUpdate.changedIds).getD [] ∧
      m.addedLines = (lines.map LineUpdate.added).getD [] ∧
      m.removedLines = (lines.map LineUpdate.removed).getD [] := by
  have hgate : ¬(Dict.has "Line".toList changes = true ∧ entityType ∉ lineEntities) := fun h => h.2 (hentity h.1)
  refine ⟨⟨payloadOf env entityType record changes lines, record, afterOf record changes lines,
    (fieldChanges record changes).map Prod.fst, (lines.map LineUpdate.changedIds).getD [],
    (lines.map LineUpdate.added).getD [], (lines.map LineUpdate.removed).getD []⟩, ?_, rfl, rfl, rfl, rfl, rfl⟩
  unfold buildUpdate
  rw [htoken, touchesLines_nil]
  simp only [bind, Except.bind, if_neg hgate, hlines]
  rfl

/-- an update of copies that changes nothing had copies that the merge leaves alone -/
theorem plain_of_nothingChanged (h : Resend env record changes) {m : MergedUpdate}
    (hm : buildUpdate env entityType record changes [] = .ok m) (hn : NothingChanged record m) :
    Plain env entityType record changes := by
  obtain ⟨htoken, hentity, lines, hlines, hafter, hfields, hadded⟩ := buildUpdate_ok hm
  have hnil : fieldChanges record changes = [] := by
    rw [hn.fields] at hfields
    exact List.map_eq_nil_iff.1 hfields.symm
  refine ⟨(checkToken_copy _ h).1 htoken, (fieldChanges_copies h).1 hnil, fun stored requested hs hr => ?_⟩
  have hhas : Dict.has "Line".toList changes = true := by
    rw [Dict.has, hr]
    rfl
  obtain ⟨stored', requested', hs', hv, hsub, hcopied⟩ := h.lines _ hr
  obtain rfl : stored = stored' := Json.arr.inj (Option.some.inj (hs.symm.trans hs'))
  obtain rfl : requested = requested' := Json.arr.inj hv
  have hreq : requested = (objects requested).map .obj := eq_map_objects fun line hline => by
    obtain ⟨d, hd, -⟩ := hcopied line hline
    exact ⟨d, hd⟩
  -- the lines of the update
  unfold updateLines at hlines
  rw [touchesLines_nil, if_pos hhas] at hlines
  obtain ⟨storedLines', hst, hlines⟩ := Fallible.bind_eq_ok.1 hlines
  obtain rfl := Except.ok.inj ((storedLines_arr hs).symm.trans hst)
  obtain ⟨l, hl, hlines⟩ := Fallible.bind_eq_ok.1 hlines
  obtain rfl := Except.ok.inj hlines
  rw [lookup_get hr, hreq] at hl
  -- they equal the stored ones, one by one
  have heqv : List.Forall₂ (fun a b => Json.eqv a b = true) (l.merged.map .obj) stored := by
    have hafter' := hn.after
    rw [hafter, afterOf_of_nil hnil] at hafter'
    simp only [setLines, Json.eqv, Bool.and_eq_true] at hafter'
    have hmem : ("Line".toList, Json.arr (l.merged.map .obj)) ∈
        Dict.set "Line".toList (Json.arr (l.merged.map .obj)) record :=
      Dict.mem_of_lookup (by rw [Dict.lookup_set, if_pos rfl])
    obtain ⟨w, hw, hvw⟩ := Json.eqvDict_lookup hafter'.2 hmem
    obtain rfl := Option.some.inj (hs.symm.trans hw)
    rw [Json.eqv] at hvw
    exact (Json.eqvList_iff _ _).1 hvw
  have hobjects := eq_map_objects (objects_of_eqv heqv)
  have heqv' : List.Forall₂ (fun a b => Json.eqv (.obj a) (.obj b) = true) l.merged (objects stored) := by
    rw [hobjects, List.forall₂_map_left_iff, List.forall₂_map_right_iff] at heqv
    exact heqv
  have hnew : l.added = [] := by
    rw [hn.added] at hadded
    exact hadded.symm
  obtain ⟨hstay, d, hd, hitem⟩ := of_mergeLines_copies (h.ids stored hs) (wellFormed_objects h.wellFormed hs)
    (hsub.filterMap _) hl hnew heqv'
  exact ⟨hentity hhas, objects_of_eqv heqv, ⟨d, mem_objects.1 hd, hitem⟩,
    fun d hd hid => hstay d (mem_objects.2 hd) hid⟩

/-- an update of copies that the merge leaves alone changes nothing -/
theorem nothingChanged_of_plain (h : Resend env record changes) (hp : Plain env entityType record changes) :
    ∃ m, buildUpdate env entityType record changes [] = .ok m ∧ NothingChanged record m := by
  have htoken := (checkToken_copy entityType h).2 hp.token
  have hnil := (fieldChanges_copies h).2 hp.geocodes
  have hrefl : Json.eqv (.obj record) (.obj record) = true := Json.eqv_refl _ h.wellFormed
  cases hr : changes.lookup "Line".toList with
  | none =>
    have hhas : Dict.has "Line".toList changes = false := Dict.has_eq_false.2 hr
    have hlines : updateLines env entityType record changes [] = .ok none := by
      unfold updateLines
      rw [touchesLines_nil, hhas]
      rfl
    obtain ⟨m, hm, hafter, hfields, hids, hadded, hremoved⟩ :=
      buildUpdate_of htoken (fun h => absurd (hhas.symm.trans h) Bool.false_ne_true) hlines
    refine ⟨m, hm, ⟨by rw [hfields, hnil]; rfl, hids, hadded, hremoved, ?_⟩⟩
    rw [hafter, afterOf_of_nil hnil]
    exact hrefl
  | some v =>
    obtain ⟨stored, requested, hs, rfl, hsub, hcopied⟩ := h.lines v hr
    have hplain := hp.lines stored requested hs hr
    have hhas : Dict.has "Line".toList changes = true := by
      rw [Dict.has, hr]
      rfl
    have hobjects : stored = (objects stored).map .obj := eq_map_objects hplain.objects
    have hreq : requested = (objects requested).map .obj :=
      eq_map_objects fun line hline => hplain.objects line (hsub.subset hline)
    obtain ⟨d, hd, hitem⟩ := hplain.item
    have hmerge := mergeLines_copies entityType (entityIdOf env record changes) (h.ids stored hs)
      (wellFormed_objects h.wellFormed hs) (hsub.filterMap _) (fun d hd => by
        obtain ⟨d', hd', hc⟩ := hcopied _ (mem_objects.1 hd)
        cases hd'
        exact hc) (fun d hd hid => hplain.amounts d (mem_objects.1 hd) hid) ⟨d, mem_objects.2 hd, hitem⟩
    have hmerge' : mergeLines env entityType (entityIdOf env record changes) (objects stored) (get changes "Line") [] =
        .ok ⟨objects stored, [], [], []⟩ := by
      rw [lookup_get hr, hreq]
      exact hmerge
    have hlines : updateLines env entityType record changes [] = .ok (some ⟨objects stored, [], [], []⟩) := by
      unfold updateLines
      rw [touchesLines_nil, if_pos hhas, storedLines_arr hs]
      simp only [bind, Except.bind, hmerge']
      rfl
    obtain ⟨m, hm, hafter, hfields, hids, hadded, hremoved⟩ :=
      buildUpdate_of htoken (fun _ => hplain.entity) hlines
    refine ⟨m, hm, ⟨by rw [hfields, hnil]; rfl, hids, hadded, hremoved, ?_⟩⟩
    rw [hafter, afterOf_of_nil hnil]
    simp only [setLines]
    rw [← hobjects, Dict.set_self hs]
    exact hrefl

end

/-- **Resending changes nothing.** A request of copies is applied without a change, and the record stays as it is, exactly
when its SyncToken is plain, no address it copies has a first street line and a geocode, and, if it copies lines, these can
be resent. -/
theorem resend_changes_nothing (env : Env) (entityType : Str) (record changes : Dict Json)
    (h : Resend env record changes) :
    (∃ m, buildUpdate env entityType record changes [] = .ok m ∧ NothingChanged record m) ↔
      Plain env entityType record changes := by
  constructor
  · intro hm
    obtain ⟨m, hm, hn⟩ := hm
    exact plain_of_nothingChanged h hm hn
  · exact nothingChanged_of_plain h

/-- a customer with a geocoded address, as QuickBooks returns it -/
def geocodedCustomer : Dict Json :=
  obj [("Id", text "58"), ("SyncToken", text "4"),
    ("BillAddr", .obj (obj [("Id", text "9"), ("Line1", text "12 Oak St"), ("City", text "Salem"),
      ("Lat", text "44.9"), ("Long", text "-123.0")]))]

theorem geocodedCustomer_resend : Resend sampleEnv geocodedCustomer geocodedCustomer where
  wellFormed := by
    simp only [geocodedCustomer, obj, text, List.map_cons, List.map_nil, Json.WellFormed, Json.WellFormedDict]
    decide
  distinct := by decide
  token := by decide
  fields := by decide
  lines v hv := absurd (hv.symm.trans (by decide : geocodedCustomer.lookup "Line".toList = none)) (by simp)
  ids _ hs := absurd (hs.symm.trans (by decide : geocodedCustomer.lookup "Line".toList = none)) (by simp)

/-- the customer resent as it was read: its address changes, and loses the geocode -/
theorem resend_drops_geocode :
    ¬ (∀ (env : Env) (entityType : Str) (record changes : Dict Json), Resend env record changes →
      ∃ m, buildUpdate env entityType record changes [] = .ok m ∧ NothingChanged record m) ∧
    ∃ m, buildUpdate sampleEnv "Customer".toList geocodedCustomer geocodedCustomer [] = .ok m ∧
      m.changedFields = ["BillAddr".toList] ∧
      m.after.lookup "BillAddr".toList =
        some (.obj (obj [("Id", text "9"), ("Line1", text "12 Oak St"), ("City", text "Salem")])) := by
  have hm : ∃ m, buildUpdate sampleEnv "Customer".toList geocodedCustomer geocodedCustomer [] = .ok m ∧
      m.changedFields = ["BillAddr".toList] ∧
      m.after.lookup "BillAddr".toList =
        some (.obj (obj [("Id", text "9"), ("Line1", text "12 Oak St"), ("City", text "Salem")])) :=
    Fallible.exists_ok (by decide)
  refine ⟨fun h => ?_, hm⟩
  obtain ⟨m, hok, hfields, -⟩ := hm
  obtain ⟨m', hok', hn⟩ := h sampleEnv "Customer".toList geocodedCustomer geocodedCustomer geocodedCustomer_resend
  obtain rfl := Except.ok.inj (hok.symm.trans hok')
  rw [hn.fields] at hfields
  exact absurd hfields (by decide)

/-- `resend_changes_nothing` for the estimate resent whole -/
theorem resend_estimate_changes_nothing :
    Resend sampleEnv storedEstimate storedEstimate ∧
      ∃ m, buildUpdate sampleEnv "Estimate".toList storedEstimate storedEstimate [] = .ok m ∧
        NothingChanged storedEstimate m := by
  have hline : storedEstimate.lookup "Line".toList = some (.arr [.obj labourLine,
      .obj (obj [("Id", text "2"), ("Description", text "Permit")]),
      .obj (obj [("DetailType", text "SubTotalLineDetail")])]) := by decide
  have h : Resend sampleEnv storedEstimate storedEstimate := by
    refine ⟨?_, by decide, by decide, by decide, fun v hv => ?_, fun stored hs => ?_⟩
    · simp only [storedEstimate, labourLine, obj, text, List.map_cons, List.map_nil, Json.WellFormed,
        Json.WellFormedDict, Json.WellFormedList]
      decide
    · obtain rfl := Option.some.inj (hline.symm.trans hv)
      refine ⟨_, _, hline, rfl, List.Sublist.refl _, fun line hl => ?_⟩
      simp only [List.mem_cons, List.not_mem_nil, or_false] at hl
      obtain rfl | rfl | rfl := hl
      · exact ⟨_, rfl, by decide⟩
      · exact ⟨_, rfl, by decide⟩
      · exact ⟨_, rfl, by decide⟩
    · obtain rfl := Json.arr.inj (Option.some.inj (hline.symm.trans hs))
      unfold DistinctIds
      decide
  refine ⟨h, (resend_changes_nothing sampleEnv "Estimate".toList storedEstimate storedEstimate h).2 ?_⟩
  refine ⟨⟨by decide, by decide, by decide⟩, by decide, fun stored requested hs hr => ?_⟩
  obtain rfl := Json.arr.inj (Option.some.inj (hline.symm.trans hs))
  obtain rfl := Json.arr.inj (Option.some.inj (hline.symm.trans hr))
  refine ⟨by decide, fun line hl => ?_, ⟨labourLine, by simp, by decide⟩, fun d hd _ => ?_⟩
  · simp only [List.mem_cons, List.not_mem_nil, or_false] at hl
    obtain rfl | rfl | rfl := hl
    · exact ⟨_, rfl⟩
    · exact ⟨_, rfl⟩
    · exact ⟨_, rfl⟩
  · simp only [List.mem_cons, List.not_mem_nil, or_false, Json.obj.injEq] at hd
    obtain rfl | rfl | rfl := hd
    · decide
    · decide
    · decide

end Clawbolt.QuickBooks

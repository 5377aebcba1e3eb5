/-
A stored line that is resent without its Id (`_same_line` and the loop over the requested lines in `_merge_lines`).

The code knows a line again by its description, or as a sale with the same amount, quantity and price. A line without either
(a discount, a lump sum without a quantity) is taken for a new one. So the rejection has a condition, and it is exact:

- `resent_line_rejected`: a request with a copy of a stored line that stays is rejected when the line is known again; where
  the rest of the request is accepted, it is rejected only then; and a new line with a description of its own is accepted;
- `discount_doubled`: a discount without a description is doubled.
-/
import Mathlib.Tactic
import Clawbolt.QuickBooks.Prompt

namespace Clawbolt.QuickBooks

open Text (Str)

/-! ## What is claimed, and when -/

section

variable (env : Env)

/-- the request is applied -/
def Accepts (entityType : Str) (current changes : Dict Json) (deleteLineIds : List Str) : Prop :=
  ∃ m, buildUpdate env entityType current changes deleteLineIds = .ok m

/-- a stored line that stays, and is no subtotal -/
def Stays (deleteLineIds : List Str) (s : Line) : Prop :=
  isSubtotal s = false ∧ isDeleted env (deleteLineIds.map Text.strip) s = false

/-- the stored line without its Id -/
def IsCopy (stored copy : Line) : Prop := lineId env copy = none ∧ ∀ k ≠ "Id".toList, copy.lookup k = stored.lookup k

/-- the amount, quantity and price of two sales as numbers, compared in this order -/
def saleNumbers (a b : Line) (da db : Dict Json) : Attempt Bool :=
  ((env.sameFloat (get a "Amount") (get b "Amount")).and (sameNumber env "Qty" da db)).and (sameNumber env "UnitPrice" da db)

/-- both sales name an item, and not the same -/
def OtherItem (da db : Dict Json) : Prop :=
  ∃ ia ib, get da "ItemRef" = .obj ia ∧ get db "ItemRef" = .obj ib ∧ env.str (get ia "value") ≠ env.str (get ib "value")

/-- two sales with the same numbers and no other item (or with a number that is too large to compare) -/
def SameSale (a b : Line) : Prop :=
  ∃ da db, get a salesDetail = .obj da ∧ get b salesDetail = .obj db ∧
    (saleNumbers env a b da db = .raises ∨ saleNumbers env a b da db = .value true ∧ ¬OtherItem env da db)

/-- a line that the code knows again: it has a description, or is a sale with the numbers of one that stays (such as itself) -/
def Known (deleteLineIds : List Str) (stored : List Line) (line : Line) : Prop :=
  description env line ≠ [] ∨ ∃ s ∈ stored, Stays env deleteLineIds s ∧ SameSale env line s

/-- a line with a description that no stored line has, each of them having one -/
def Distinct (stored : List Line) (line : Line) : Prop :=
  description env line ≠ [] ∧ ∀ s ∈ stored, description env s ≠ [] ∧ description env s ≠ description env line

end

/-! ## Sameness -/

section

variable {env : Env}

theorem get_copy {stored copy : Line} (h : IsCopy env stored copy) {key : String} (hkey : key.toList ≠ "Id".toList) :
    get copy key = get stored key := by
  rw [get, get, h.2 _ hkey]

/-- the code compares a copy as it compares the line -/
theorem sameLine_copy {stored copy : Line} (h : IsCopy env stored copy) (s : Line) :
    sameLine env copy s = sameLine env stored s := by
  unfold sameLine description
  rw [get_copy h (show "Description".toList ≠ "Id".toList by decide),
    get_copy h (show "DetailType".toList ≠ "Id".toList by decide),
    get_copy h (show salesDetail.toList ≠ "Id".toList by decide), get_copy h (show "Amount".toList ≠ "Id".toList by decide)]

/-- lines of which one has no description are compared as sales -/
theorem sameLine_sale {a b : Line} (h : description env a = []) : sameLine env a b ≠ .ok false ↔ SameSale env a b := by
  unfold sameLine SameSale
  simp only [h, ne_eq, not_true_eq_false, false_and, if_false]
  cases hda : get a salesDetail with
  | obj da =>
    cases hdb : get b salesDetail with
    | obj db =>
      simp only [Json.obj.injEq, exists_and_left, exists_eq_left']
      have hnumbers : ((env.sameFloat (get a "Amount") (get b "Amount")).and (sameNumber env "Qty" da db)).and
          (sameNumber env "UnitPrice" da db) = saleNumbers env a b da db := rfl
      rw [hnumbers]
      cases hnum : saleNumbers env a b da db with
      | raises => simp
      | caught => simp
      | value same =>
        unfold OtherItem
        cases hia : get da "ItemRef" <;> cases hib : get db "ItemRef" <;> simp [and_comm]
    | _ => simp
  | _ => simp

/-- a line that stays is known again when some line that stays is not told from it -/
theorem known_iff {deleteLineIds : List Str} {stored : List Line} {line : Line} (hm : line ∈ stored)
    (hstays : Stays env deleteLineIds line) (hwf : (Json.obj line).WellFormed) :
    Known env deleteLineIds stored line ↔ ∃ s ∈ stored, Stays env deleteLineIds s ∧ sameLine env line s ≠ .ok false := by
  by_cases hdesc : description env line = []
  · simp only [Known, hdesc, ne_eq, not_true_eq_false, false_or, sameLine_sale hdesc]
  · refine iff_of_true (Or.inl hdesc) ⟨line, hm, hstays, ?_⟩
    -- the line has the description and the type that it has itself
    have htype : Json.eqv (get line "DetailType") (get line "DetailType") = true := Json.eqv_refl _ (wellFormed_get hwf _)
    unfold sameLine
    simp [hdesc, htype]

theorem findDup_eq_none_iff {deletes : List Str} {new : Line} {stored : List Line} :
    findDup env deletes new stored = .ok none ↔
      ∀ s ∈ stored, isSubtotal s = false → isDeleted env deletes s = false → sameLine env new s = .ok false := by
  refine ⟨findDup_eq_none, fun h => ?_⟩
  induction stored with
  | nil => rfl
  | cons s stored ih =>
    obtain ⟨hs, hrest⟩ := List.forall_mem_cons.1 h
    rw [findDup]
    split_ifs with hskip
    · exact ih hrest
    · obtain ⟨hsub, hdel⟩ := not_or.1 hskip
      rw [hs (Bool.eq_false_iff.2 hsub) (Bool.eq_false_iff.2 hdel)]
      exact ih hrest

/-- a new line has no double among the stored ones -/
theorem findDup_distinct {deletes : List Str} {new : Line} {stored : List Line} (h : Distinct env stored new) :
    findDup env deletes new stored = .ok none := by
  refine findDup_eq_none_iff.2 fun s hs _ _ => ?_
  obtain ⟨hne, hother⟩ := h.2 s hs
  unfold sameLine
  simp [h.1, hne, hother.symm]

/-! ## One more requested line -/

theorem collect_append (t : Target) (x y : List Line) (changes : Dict Line) (added : List Line) :
    collect env t (x ++ y) changes added = collect env t x changes added >>= fun r => collect env t y r.1 r.2 := by
  induction x generalizing changes added with
  | nil => rfl
  | cons line x ih =>
    rw [List.cons_append, collect, collect]
    cases hl : lineId env line with
    | none =>
      simp only
      split_ifs
      · exact ih changes added
      · cases hdup : findDup env t.deletes line t.stored with
        | error e => rfl
        | ok dup =>
          cases dup with
          | none => exact ih changes (added ++ [line])
          | some dup =>
            simp only [reject, bind, Except.bind]
            cases describeLine env dup <;> rfl
    | some lid =>
      simp only [reject]
      split_ifs
      · rfl
      · rfl
      · rfl
      · exact ih (Dict.set lid line changes) added

/-- what is collected as changes does not depend on the new lines so far -/
theorem collect_added {t : Target} {requested : List Line} {changes changes' : Dict Line} {added added' : List Line}
    (h : collect env t requested changes added = .ok (changes', added')) (other : List Line) :
    ∃ more, collect env t requested changes other = .ok (changes', more) ∧ other ⊆ more := by
  induction requested generalizing changes added other with
  | nil =>
    obtain ⟨rfl, rfl⟩ := Prod.mk.inj (Except.ok.inj h)
    exact ⟨other, rfl, List.Subset.refl _⟩
  | cons line requested ih =>
    rw [collect] at h ⊢
    cases hl : lineId env line with
    | none =>
      rw [hl] at h
      simp only at h ⊢
      split_ifs at h ⊢ with hsub
      · exact ih h other
      · obtain ⟨dup, hdup, h⟩ := Fallible.bind_eq_ok.1 h
        cases dup with
        | some dup =>
          simp only [reject] at h
          obtain ⟨_, -, h⟩ := Fallible.bind_eq_ok.1 h
          cases h
        | none =>
          obtain ⟨more, hmore, hsubset⟩ := ih h (other ++ [line])
          refine ⟨more, ?_, fun x hx => hsubset (List.mem_append_left _ hx)⟩
          rw [hdup]
          exact hmore
    | some lid =>
      rw [hl] at h
      simp only [reject] at h ⊢
      split_ifs at h ⊢
      exact ih h other

/-- a line that is passed over or has no double leaves the changes, and is among the new lines unless it is a subtotal -/
theorem collect_insert {t : Target} {before after : List Line} {line : Line} (hid : lineId env line = none)
    (hdup : isSubtotal line = false → findDup env t.deletes line t.stored = .ok none) {changes changes' : Dict Line}
    {added added' : List Line} (h : collect env t (before ++ after) changes added = .ok (changes', added')) :
    ∃ more, collect env t (before ++ line :: after) changes added = .ok (changes', more) ∧
      (more = added' ∨ isSubtotal line = false ∧ line ∈ more) := by
  rw [collect_append] at h ⊢
  obtain ⟨⟨changes₁, added₁⟩, hbefore, hafter⟩ := Fallible.bind_eq_ok.1 h
  cases hsub : isSubtotal line with
  | true =>
    refine ⟨added', Fallible.bind_eq_ok.2 ⟨_, hbefore, ?_⟩, Or.inl rfl⟩
    rw [collect, hid]
    simp only [hsub, if_true]
    exact hafter
  | false =>
    obtain ⟨more, hmore, hmem⟩ := collect_added hafter (added₁ ++ [line])
    refine ⟨more, Fallible.bind_eq_ok.2 ⟨_, hbefore, ?_⟩, Or.inr ⟨rfl, hmem (by simp)⟩⟩
    rw [collect, hid]
    simp only [hsub, Bool.false_eq_true, if_false, hdup hsub]
    exact hmore

/-- the merge of the lines succeeds when each of its parts does -/
theorem mergeLines_isOk {entityType entityId : Str} {stored requested : List Line} {deleteLineIds : List Str} :
    (∃ l, mergeLines env entityType entityId stored (.arr (requested.map .obj)) deleteLineIds = .ok l) ↔
      ((deleteLineIds.map Text.strip).filter fun d => !Dict.has d (storedById env stored)) = [] ∧
      ∃ changes added kept,
        collect env ⟨entityType, entityId, stored, deleteLineIds.map Text.strip⟩ requested [] [] = .ok (changes, added) ∧
        (stored.filter fun line => !isDeleted env (deleteLineIds.map Text.strip) line).mapM (mergeStored env changes) =
          .ok kept ∧
        (kept.rdropWhile isSubtotal ++ added ++ kept.rtakeWhile isSubtotal).all isSubtotal = false := by
  unfold mergeLines
  rw [requestedLines_map]
  simp only [reject]
  constructor
  · rintro ⟨l, h⟩
    obtain ⟨_, hreq, h⟩ := Fallible.bind_eq_ok.1 h
    obtain rfl := Except.ok.inj hreq
    split_ifs at h with hunknown
    obtain ⟨⟨changes, added⟩, hcollect, h⟩ := Fallible.bind_eq_ok.1 h
    obtain ⟨kept, hkept, h⟩ := Fallible.bind_eq_ok.1 h
    simp only at h
    split_ifs at h with hall
    exact ⟨not_not.1 hunknown, changes, added, kept, hcollect, hkept, Bool.eq_false_iff.2 hall⟩
  · rintro ⟨hunknown, changes, added, kept, hcollect, hkept, hall⟩
    simp only [bind, Except.bind, hunknown, ne_eq, not_true_eq_false, if_false, hcollect, hkept, hall, Bool.false_eq_true]
    exact ⟨_, rfl⟩

/-- an update of the lines succeeds when the token, the entity and the merge do -/
theorem accepts_iff {entityType : Str} {current changes : Dict Json} {deleteLineIds : List Str} {stored : List Line}
    (hstored : storedLines current = .ok stored) {lines : Json} (hline : changes.lookup "Line".toList = some lines) :
    Accepts env entityType current changes deleteLineIds ↔
      checkToken env entityType (entityIdOf env current changes) current changes = .ok () ∧ entityType ∈ lineEntities ∧
      ∃ l, mergeLines env entityType (entityIdOf env current changes) stored lines deleteLineIds = .ok l := by
  have htouches : touchesLines changes deleteLineIds = true := by
    rw [touchesLines, Dict.has, hline]
    rfl
  have hget : get changes "Line" = lines := lookup_get hline
  unfold Accepts buildUpdate updateLines
  simp only [htouches, hstored, hget, true_and, if_true, reject]
  constructor
  · rintro ⟨m, h⟩
    obtain ⟨⟨⟩, htoken, h⟩ := Fallible.bind_eq_ok.1 h
    split_ifs at h with hentity
    obtain ⟨_, hlines, -⟩ := Fallible.bind_eq_ok.1 h
    obtain ⟨_, hok, hlines⟩ := Fallible.bind_eq_ok.1 hlines
    obtain rfl := Except.ok.inj hok
    obtain ⟨l, hl, -⟩ := Fallible.bind_eq_ok.1 hlines
    exact ⟨htoken, hentity, l, hl⟩
  · rintro ⟨htoken, hentity, l, hl⟩
    simp only [bind, Except.bind, htoken, hentity, not_true_eq_false, if_false, hl]
    exact ⟨_, rfl⟩

theorem eq_map_of_requestedLines {l : List Json} {requested : List Line} (h : requestedLines (.arr l) = .ok requested) :
    l = requested.map .obj := by
  unfold requestedLines at h
  simp only [reject] at h
  split at h
  · rename_i lines hlines
    obtain rfl := Except.ok.inj h
    clear h
    induction l generalizing lines with
    | nil =>
      obtain rfl := Option.some.inj hlines
      rfl
    | cons v l ih =>
      rw [List.mapM_cons] at hlines
      obtain ⟨d, hd, hlines⟩ := Option.bind_eq_some_iff.1 hlines
      obtain ⟨ds, hds, hlines⟩ := Option.bind_eq_some_iff.1 hlines
      obtain rfl := Option.some.inj hlines
      cases v <;> simp at hd
      rw [hd, List.map_cons, ← ih ds hds]
  · cases h

theorem requestedLines_of_merge {entityType entityId : Str} {stored : List Line} {lines : Json} {deleteLineIds : List Str}
    {l : LineUpdate} (h : mergeLines env entityType entityId stored lines deleteLineIds = .ok l) :
    ∃ requested, requestedLines lines = .ok requested := by
  unfold mergeLines at h
  obtain ⟨requested, hreq, -⟩ := Fallible.bind_eq_ok.1 h
  exact ⟨requested, hreq⟩

section

variable {entityType : Str} {current changes : Dict Json} {deleteLineIds : List Str} {stored : List Line}
  {before after : List Json} {line : Line}

/-- an accepted request has no new line with a double among the stored ones -/
theorem findDup_of_accepts (hstored : storedLines current = .ok stored)
    (hline : changes.lookup "Line".toList = some (.arr (before ++ .obj line :: after)))
    (haccepts : Accepts env entityType current changes deleteLineIds) (hid : lineId env line = none)
    (hsub : isSubtotal line = false) : findDup env (deleteLineIds.map Text.strip) line stored = .ok none := by
  obtain ⟨-, -, l, hl⟩ := (accepts_iff hstored hline).1 haccepts
  obtain ⟨requested, hreq⟩ := requestedLines_of_merge hl
  have hmap := eq_map_of_requestedLines hreq
  rw [hmap] at hl
  obtain ⟨-, changes', added, kept, hcollect, -, -⟩ := mergeLines_isOk.1 ⟨l, hl⟩
  have hmem : line ∈ requested := by
    have hobj : Json.obj line ∈ requested.map .obj := hmap ▸ List.mem_append_right _ List.mem_cons_self
    obtain ⟨d, hd, heq⟩ := List.mem_map.1 hobj
    exact Json.obj.inj heq ▸ hd
  refine (collect_ok hcollect).2.2 line (List.mem_filter.2 ⟨hmem, ?_⟩)
  simp [hid, hsub]

/-- an accepted request stays accepted with one more line that is passed over or has no double -/
theorem accepts_insert (hstored : storedLines current = .ok stored)
    (hline : changes.lookup "Line".toList = some (.arr (before ++ .obj line :: after)))
    (haccepts : Accepts env entityType current (Dict.set "Line".toList (.arr (before ++ after)) changes) deleteLineIds)
    (hid : lineId env line = none)
    (hdup : isSubtotal line = false → findDup env (deleteLineIds.map Text.strip) line stored = .ok none) :
    Accepts env entityType current changes deleteLineIds := by
  have hset : (Dict.set "Line".toList (.arr (before ++ after)) changes).lookup "Line".toList =
      some (.arr (before ++ after)) := by rw [Dict.lookup_set, if_pos rfl]
  have hother : ∀ {key : String}, key.toList ≠ "Line".toList →
      (Dict.set "Line".toList (.arr (before ++ after)) changes).lookup key.toList = changes.lookup key.toList :=
    fun hkey => by rw [Dict.lookup_set, if_neg hkey]
  have hentityId : entityIdOf env current (Dict.set "Line".toList (.arr (before ++ after)) changes) =
      entityIdOf env current changes := by
    unfold entityIdOf
    rw [hother (show "Id".toList ≠ "Line".toList by decide)]
  obtain ⟨htoken, hentity, l, hl⟩ := (accepts_iff hstored hset).1 haccepts
  rw [hentityId] at htoken hl
  refine (accepts_iff hstored hline).2 ⟨?_, hentity, ?_⟩
  · unfold checkToken get at htoken ⊢
    rwa [hother (show "SyncToken".toList ≠ "Line".toList by decide)] at htoken
  · obtain ⟨requested, hreq⟩ := requestedLines_of_merge hl
    have hmap := eq_map_of_requestedLines hreq
    obtain ⟨xs, ys, rfl, rfl, rfl⟩ := List.map_eq_append_iff.1 hmap.symm
    rw [hmap] at hl
    obtain ⟨hunknown, changes', added, kept, hcollect, hkept, hall⟩ := mergeLines_isOk.1 ⟨l, hl⟩
    obtain ⟨more, hmore, hcases⟩ := collect_insert hid hdup hcollect
    rw [← List.map_cons, ← List.map_append]
    refine mergeLines_isOk.2 ⟨hunknown, changes', more, kept, hmore, hkept, ?_⟩
    rcases hcases with rfl | ⟨hsub, hmem⟩
    · exact hall
    · -- the new line is no subtotal
      refine Bool.eq_false_iff.2 fun hsubs => ?_
      have hline' := List.all_eq_true.1 hsubs line (by simp [hmem])
      rw [hsub] at hline'
      cases hline'

end

/-- **A resent line.** A request with a copy of a stored line that stays is rejected when the line is known again; with the
rest of the request accepted, only then. And a new line with a description of its own is accepted. -/
theorem resent_line_rejected (env : Env) (entityType : Str) (current changes : Dict Json) (deleteLineIds : List Str)
    (hwf : (Json.obj current).WellFormed) (stored : List Line) (hstored : storedLines current = .ok stored)
    (before after : List Json) (line : Line)
    (hline : changes.lookup "Line".toList = some (.arr (before ++ .obj line :: after))) :
    (∀ L ∈ stored, Stays env deleteLineIds L → IsCopy env L line →
      (Known env deleteLineIds stored L → ¬Accepts env entityType current changes deleteLineIds) ∧
      (Accepts env entityType current (Dict.set "Line".toList (.arr (before ++ after)) changes) deleteLineIds →
        (¬Accepts env entityType current changes deleteLineIds ↔ Known env deleteLineIds stored L))) ∧
    (lineId env line = none → Distinct env stored line →
      Accepts env entityType current (Dict.set "Line".toList (.arr (before ++ after)) changes) deleteLineIds →
      Accepts env entityType current changes deleteLineIds) := by
  constructor
  · intro L hL hstays hcopy
    have hLwf : (Json.obj L).WellFormed := by
      rcases storedLines_cases hstored with rfl | ⟨l, hl, rfl⟩
      · cases hL
      · exact wellFormed_objects hwf hl L hL
    have hsub : isSubtotal line = false := by
      rw [isSubtotal, get_copy hcopy (show "DetailType".toList ≠ "Id".toList by decide)]
      exact hstays.1
    -- the copy has no double exactly when the line is not known again
    have hknown : findDup env (deleteLineIds.map Text.strip) line stored = .ok none ↔ ¬Known env deleteLineIds stored L := by
      rw [findDup_eq_none_iff, known_iff hL hstays hLwf]
      simp only [sameLine_copy hcopy, not_exists, not_and, not_not, Stays, and_imp]
    have hrejected : Known env deleteLineIds stored L → ¬Accepts env entityType current changes deleteLineIds :=
      fun hk haccepts => hknown.1 (findDup_of_accepts hstored hline haccepts hcopy.1 hsub) hk
    refine ⟨hrejected, fun hrest => ⟨fun hnot => ?_, hrejected⟩⟩
    by_contra hk
    exact hnot (accepts_insert hstored hline hrest hcopy.1 fun _ => hknown.2 hk)
  · intro hid hdistinct hrest
    exact accepts_insert hstored hline hrest hid fun _ => findDup_distinct hdistinct

end

/-! ## A discount -/

/-- fifty off, as QuickBooks returns it -/
def discountKeys : List (String × Json) :=
  [("Amount", .int 50), ("DetailType", text "DiscountLineDetail"),
    ("DiscountLineDetail", .obj (obj [("PercentBased", .bool false)]))]

def permitKeys : List (String × Json) := [("Amount", .int 80), ("Description", text "Permit")]

def discountLines : List Line :=
  [obj (("Id", text "1") :: permitKeys), obj (("Id", text "2") :: discountKeys), obj [("DetailType", text "SubTotalLineDetail")]]

def discountEstimate : Dict Json :=
  obj [("Id", text "2001"), ("SyncToken", text "4"), ("Line", .arr (discountLines.map .obj))]

theorem discountEstimate_wellFormed : (Json.obj discountEstimate).WellFormed := by
  simp only [discountEstimate, discountLines, discountKeys, permitKeys, obj, text, List.map_cons, List.map_nil,
    Json.WellFormed, Json.WellFormedDict, Json.WellFormedList]
  decide

/-- the permit is known again by its description -/
theorem resent_permit_rejected :
    ¬Accepts sampleEnv "Estimate".toList discountEstimate (requestOf (obj permitKeys)) [] := by
  have hpermit := (resent_line_rejected sampleEnv "Estimate".toList discountEstimate (requestOf (obj permitKeys)) []
    discountEstimate_wellFormed discountLines rfl [] [] (obj permitKeys) rfl).1
    (obj (("Id", text "1") :: permitKeys)) List.mem_cons_self ⟨by decide, by decide⟩
    ⟨by decide, fun k hk => (Dict.lookup_cons_ne hk _ _).symm⟩
  exact hpermit.1 (Or.inl (by decide))

/-- a request with a copy of a line that stays adds the line a second time: nothing tells the discount from a new one -/
theorem discount_doubled :
    obj (("Id", text "2") :: discountKeys) ∈ discountLines ∧
      Stays sampleEnv [] (obj (("Id", text "2") :: discountKeys)) ∧
      IsCopy sampleEnv (obj (("Id", text "2") :: discountKeys)) (obj discountKeys) ∧
      ∃ m, buildUpdate sampleEnv "Estimate".toList discountEstimate (requestOf (obj discountKeys)) [] = .ok m ∧
        m.after.lookup "Line".toList = some (.arr ([obj (("Id", text "1") :: permitKeys),
          obj (("Id", text "2") :: discountKeys), obj discountKeys, obj [("DetailType", text "SubTotalLineDetail")]].map .obj)) :=
  ⟨List.mem_cons_of_mem _ List.mem_cons_self, ⟨by decide, by decide⟩,
    ⟨by decide, fun k hk => (Dict.lookup_cons_ne hk _ _).symm⟩, Fallible.exists_ok (by decide +kernel)⟩

end Clawbolt.QuickBooks

/-
What a stage keeps and what it evicts, in every state that operations and clock readings can lead to.

- `stage_keeps`: the cap, the handle, the order of eviction, and when the handle resolves to the bytes;
- `not_stoodStill`: it does, when the clock advances.
-/
import Mathlib.Tactic
import Clawbolt.Core.Runs
import Clawbolt.Media.Staging

namespace Clawbolt.Media

open Text (Str)
open Runs

/-! ## The order of eviction -/

/-- receipts stand before other rows, and each kind by its expiry -/
def Before (a b : StagedMedia) : Prop := (a.upload.isSome = b.upload.isSome → a.expiresAt ≤ b.expiresAt) ∧
  (a.upload = none → b.upload = none)

theorem pairwise_byExpiry (tie : Str → ℕ) (rows : List StagedMedia) :
    (byExpiry tie rows).Pairwise fun a b => a.expiresAt ≤ b.expiresAt := by
  let le (a b : StagedMedia) : Prop := a.expiresAt < b.expiresAt ∨ a.expiresAt = b.expiresAt ∧ tie a.handle ≤ tie b.handle
  have htotal : Std.Total le := ⟨fun a b => by
    simp only [le]
    omega⟩
  have htrans : IsTrans StagedMedia le := ⟨fun a b c hab hbc => by
    simp only [le] at hab hbc ⊢
    omega⟩
  refine (List.pairwise_insertionSort le rows).imp fun {a b} h => ?_
  rcases h with hlt | ⟨heq, -⟩
  · exact hlt.le
  · exact heq.le

theorem evictionOrder_perm (tie : Str → ℕ) (rows : List StagedMedia) : (evictionOrder tie rows).Perm rows := by
  have hnone : ∀ r : StagedMedia, r.upload.isNone = !r.upload.isSome := by
    intro r
    cases r.upload <;> rfl
  have hsplit : (evictionOrder tie rows).Perm (byExpiry tie rows) := by
    rw [evictionOrder, List.filter_congr fun r _ => hnone r]
    exact List.filter_append_perm _ _
  exact hsplit.trans (List.perm_insertionSort _ rows)

theorem pairwise_evictionOrder (tie : Str → ℕ) (rows : List StagedMedia) : (evictionOrder tie rows).Pairwise Before := by
  have hsorted := pairwise_byExpiry tie rows
  refine List.pairwise_append.2 ⟨?_, ?_, ?_⟩
  · refine (hsorted.filter _).imp_of_mem fun {a b} ha _ h => ⟨fun _ => h, fun hnone => ?_⟩
    have hsome := (List.mem_filter.1 ha).2
    rw [hnone] at hsome
    cases hsome
  · refine (hsorted.filter _).imp_of_mem fun {a b} _ hb h => ⟨fun _ => h, fun _ => ?_⟩
    exact Option.isNone_iff_eq_none.1 (List.mem_filter.1 hb).2
  · intro a ha b hb
    have hsome := (List.mem_filter.1 ha).2
    have hnone := Option.isNone_iff_eq_none.1 (List.mem_filter.1 hb).2
    refine ⟨fun heq => ?_, fun _ => hnone⟩
    rw [hsome, hnone] at heq
    cases heq

/-! ## The invariant -/

variable {user : Str}

/-- the columns that no operation changes in a row -/
def StagedMedia.ident (r : StagedMedia) : Str × Str × Str := (r.handle, r.originalUrl, r.diskPath)

structure Inv (user : Str) (s : Store) : Prop where
  handles : (s.rows.map StagedMedia.handle).Nodup
  urls : (s.rows.map StagedMedia.originalUrl).Nodup
  paths : ∀ r ∈ s.rows, r.diskPath = storeDiskPath user r.handle
  files : ∀ r ∈ s.rows, (s.disk r.diskPath).isSome = true
  bound : s.rows.length ≤ stagingMaxPerUser

theorem inv_empty : Inv user Store.empty where
  handles := List.nodup_nil
  urls := List.nodup_nil
  paths := fun _ h => absurd h List.not_mem_nil
  files := fun _ h => absurd h List.not_mem_nil
  bound := Nat.zero_le _

theorem storeDiskPath_injective {h h' : Str} (heq : storeDiskPath user h = storeDiskPath user h') : h = h' :=
  List.append_cancel_left (List.append_cancel_right heq)

/-- rows that are left, with other columns changed at most, and whose files are as they were -/
theorem Inv.of_idents {s s' : Store} (h : Inv user s)
    (hrows : (s'.rows.map StagedMedia.ident).Sublist (s.rows.map StagedMedia.ident))
    (hdisk : ∀ r ∈ s'.rows, s'.disk r.diskPath = s.disk r.diskPath) : Inv user s' := by
  have hmem : ∀ r ∈ s'.rows, ∃ r₀ ∈ s.rows, r₀.ident = r.ident := fun r hr =>
    List.mem_map.1 (hrows.subset (List.mem_map_of_mem hr))
  have hmap : ∀ (f : Str × Str × Str → Str), (s.rows.map fun r => f r.ident).Nodup → (s'.rows.map fun r => f r.ident).Nodup := by
    intro f hnodup
    rw [← Function.comp_def, ← List.map_map] at hnodup ⊢
    exact hnodup.sublist (hrows.map f)
  refine ⟨hmap (·.1) h.handles, hmap (·.2.1) h.urls, ?_, ?_, ?_⟩
  · intro r hr
    obtain ⟨r₀, hr₀, heq⟩ := hmem r hr
    have hpath : r₀.diskPath = r.diskPath := congrArg (·.2.2) heq
    have hhandle : r₀.handle = r.handle := congrArg (·.1) heq
    rw [← hpath, ← hhandle, h.paths r₀ hr₀]
  · intro r hr
    obtain ⟨r₀, hr₀, heq⟩ := hmem r hr
    have hpath : r₀.diskPath = r.diskPath := congrArg (·.2.2) heq
    rw [hdisk r hr, ← hpath, h.files r₀ hr₀]
  · have hlen := hrows.length_le
    rw [List.length_map, List.length_map] at hlen
    exact hlen.trans h.bound

/-- a handle names its row -/
theorem Inv.row_eq {s : Store} (h : Inv user s) {r r' : StagedMedia} (hr : r ∈ s.rows) (hr' : r' ∈ s.rows)
    (heq : r.handle = r'.handle) : r = r' := List.inj_on_of_nodup_map h.handles hr hr' heq

/-- a change of columns that leaves handle, url and path -/
theorem Inv.map {s : Store} (h : Inv user s) {f : StagedMedia → StagedMedia} (hf : ∀ r, (f r).ident = r.ident) :
    Inv user { s with rows := s.rows.map f } := by
  have hidents : (s.rows.map f).map StagedMedia.ident = s.rows.map StagedMedia.ident := by
    rw [List.map_map]
    exact List.map_congr_left fun r _ => hf r
  exact h.of_idents (hidents ▸ List.Sublist.refl _) fun _ _ => rfl

theorem inv_removeRows {s : Store} (h : Inv user s) (p : StagedMedia → Bool) : Inv user (removeRows s p) := by
  refine h.of_idents (List.filter_sublist.map _) fun r hr => ?_
  obtain ⟨hr, hp⟩ := List.mem_filter.1 hr
  refine if_neg fun hpath => ?_
  -- a removed file is that of another row
  obtain ⟨r', hr', heq⟩ := List.mem_map.1 hpath
  obtain ⟨hr', hp'⟩ := List.mem_filter.1 hr'
  have hhandle := storeDiskPath_injective ((h.paths r' hr').symm.trans (heq.trans (h.paths r hr)))
  rw [h.row_eq hr' hr hhandle] at hp'
  rw [hp'] at hp
  cases hp

/-- no row is an orphan -/
theorem dropOrphans_eq {s : Store} (h : Inv user s) (p : StagedMedia → Bool) : dropOrphans s p = s := by
  have hkeep : (s.rows.filter fun r => !(p r && (s.disk r.diskPath).isNone)) = s.rows := by
    refine List.filter_eq_self.2 fun r hr => ?_
    have hfile : (s.disk r.diskPath).isNone = false := by
      rw [← Option.not_isSome, h.files r hr, Bool.not_true]
    rw [hfile, Bool.and_false, Bool.not_false]
  rw [dropOrphans, hkeep]

/-- a lookup removes nothing -/
theorem getByHandle_store {s : Store} (h : Inv user s) (handle : Str) (now : ℤ) : (getByHandle s handle now).1 = s := by
  unfold getByHandle
  split
  · rfl
  · split
    · rfl
    · exact dropOrphans_eq h _

theorem resolveMediaRef_store {s : Store} (h : Inv user s) (ref : Str) (now : ℤ) : (resolveMediaRef s ref now).1 = s := by
  have hstore := getByHandle_store h ref now
  unfold resolveMediaRef
  split
  · next s' entry heq => rwa [heq] at hstore
  · next s' heq =>
    rw [heq] at hstore
    change s' = s at hstore
    subst hstore
    split
    · rfl
    · split
      · rfl
      · exact dropOrphans_eq h _

theorem inv_markUploaded {s : Store} (h : Inv user s) (ref : Str) (receipt : UploadRecord) (now : ℤ) (tie : Str → ℕ) :
    Inv user (markUploaded s ref receipt now tie) := by
  unfold markUploaded
  split
  · exact h
  · simp only
    split
    · exact h
    · refine h.map fun r => ?_
      split_ifs <;> rfl

theorem inv_touch {s : Store} (h : Inv user s) (handle : Str) (now : ℤ) : Inv user (touch s handle now) := by
  refine h.map fun r => ?_
  split_ifs <;> rfl

/-! ## A stage -/

/-- what the INSERT makes of the rows -/
structure Upserted (user : Str) (s : Store) (url mime : Str) (now : ℤ) (rows : List StagedMedia) (r : StagedMedia) : Prop where
  mem : r ∈ rows
  isUrl : r.originalUrl = url
  isMime : r.mimeType = mime
  expires : r.expiresAt = now + stagingTtl
  handles : (rows.map StagedMedia.handle).Nodup
  urls : (rows.map StagedMedia.originalUrl).Nodup
  paths : ∀ x ∈ rows, x.diskPath = storeDiskPath user x.handle
  others : ∀ x ∈ rows, x ≠ r → x ∈ s.rows
  kept : ∀ x ∈ s.rows, x.originalUrl ≠ url → x ∈ rows
  /-- an old row keeps its handle, a new one is no receipt -/
  row : (rows.length = s.rows.length ∧ ∃ x ∈ s.rows, x.originalUrl = url ∧ r.handle = x.handle) ∨
    (rows.length = s.rows.length + 1 ∧ r.upload = none ∧ ∀ x ∈ s.rows, x.originalUrl ≠ url)

theorem upsert_spec {s : Store} (h : Inv user s) {url mime fresh : Str} {now : ℤ} {rows : List StagedMedia} {r : StagedMedia}
    (hupsert : upsert user s url mime now fresh = some (rows, r)) : Upserted user s url mime now rows r := by
  unfold upsert at hupsert
  simp only at hupsert
  split at hupsert
  · next old hfind =>
    obtain ⟨rfl, rfl⟩ := Prod.mk.inj (Option.some.inj hupsert)
    have hold : old ∈ s.rows := List.mem_of_find?_eq_some hfind
    have hurl : old.originalUrl = url := by simpa using List.find?_some hfind
    have hident : ∀ x : StagedMedia, (if x.originalUrl = url then { x with mimeType := mime, expiresAt := now + stagingTtl }
        else x).ident = x.ident := by
      intro x
      split_ifs <;> rfl
    have hinv := h.map hident
    refine ⟨?_, hurl, rfl, rfl, hinv.handles, hinv.urls, hinv.paths, ?_, ?_, .inl ⟨List.length_map _, old, hold, hurl, rfl⟩⟩
    · exact List.mem_map.2 ⟨old, hold, by rw [if_pos hurl]⟩
    · intro x hx hne
      obtain ⟨x₀, hx₀, rfl⟩ := List.mem_map.1 hx
      by_cases heq : x₀.originalUrl = url
      · refine absurd ?_ hne
        rw [if_pos heq, List.inj_on_of_nodup_map h.urls hx₀ hold (heq.trans hurl.symm)]
      · rwa [if_neg heq]
    · intro x hx hne
      exact List.mem_map.2 ⟨x, hx, if_neg hne⟩
  · next hfind =>
    have hnew : ∀ x ∈ s.rows, x.originalUrl ≠ url := by
      intro x hx heq
      have hnot := List.find?_eq_none.1 hfind x hx
      exact hnot (decide_eq_true heq)
    split_ifs at hupsert with hany
    obtain ⟨rfl, rfl⟩ := Prod.mk.inj (Option.some.inj hupsert)
    have hfresh : ∀ x ∈ s.rows, x.handle ≠ fresh := by
      intro x hx heq
      exact hany (List.any_eq_true.2 ⟨x, hx, decide_eq_true heq⟩)
    refine ⟨List.mem_append_right _ (List.mem_singleton_self _), rfl, rfl, rfl, ?_, ?_, ?_, ?_,
      fun x hx _ => List.mem_append_left _ hx, .inr ⟨List.length_append, rfl, hnew⟩⟩
    · rw [List.map_append, List.nodup_append']
      refine ⟨h.handles, List.nodup_singleton _, ?_⟩
      rintro x hx hx'
      obtain ⟨y, hy, rfl⟩ := List.mem_map.1 hx
      exact hfresh y hy (List.mem_singleton.1 hx')
    · rw [List.map_append, List.nodup_append']
      refine ⟨h.urls, List.nodup_singleton _, ?_⟩
      rintro x hx hx'
      obtain ⟨y, hy, rfl⟩ := List.mem_map.1 hx
      exact hnew y hy (List.mem_singleton.1 hx')
    · intro x hx
      rcases List.mem_append.1 hx with hx | hx
      · exact h.paths x hx
      · rw [List.mem_singleton.1 hx]
    · intro x hx hne
      exact (List.mem_append.1 hx).resolve_right fun hx => hne (List.mem_singleton.1 hx)

section

variable {s : Store} {url mime : Str} {content : Bytes} {now : ℤ} {rows : List StagedMedia} {r : StagedMedia} {tie : Str → ℕ}

theorem Upserted.nodup (hu : Upserted user s url mime now rows r) : rows.Nodup := hu.handles.of_map

theorem Upserted.row_eq (hu : Upserted user s url mime now rows r) {x y : StagedMedia} (hx : x ∈ rows) (hy : y ∈ rows)
    (heq : x.handle = y.handle) : x = y := List.inj_on_of_nodup_map hu.handles hx hy heq

/-- the state after the bytes are written and the cap is enforced -/
def written (s : Store) (rows : List StagedMedia) (r : StagedMedia) (content : Bytes) (tie : Str → ℕ) : Store :=
  enforcePerUserCap tie { rows := rows, disk := Function.update s.disk r.diskPath (some content) }

theorem mem_written {x : StagedMedia} : x ∈ (written s rows r content tie).rows ↔
    x ∈ rows ∧ x ∉ Overflow.excess stagingMaxPerUser (evictionOrder tie rows) := Overflow.mem_kept

/-- the file of a row that stays -/
theorem written_disk (hu : Upserted user s url mime now rows r) {x : StagedMedia}
    (hx : x ∈ (written s rows r content tie).rows) :
    (written s rows r content tie).disk x.diskPath = if x = r then some content else s.disk x.diskPath := by
  obtain ⟨hmem, hstays⟩ := mem_written.1 hx
  have hpath : x.diskPath ∉ (Overflow.excess stagingMaxPerUser (evictionOrder tie rows)).map StagedMedia.diskPath := by
    intro hpath
    obtain ⟨y, hy, heq⟩ := List.mem_map.1 hpath
    have hyrow : y ∈ rows := (evictionOrder_perm tie rows).mem_iff.1 (List.mem_of_mem_take hy)
    have hhandle := storeDiskPath_injective ((hu.paths y hyrow).symm.trans (heq.trans (hu.paths x hmem)))
    exact hstays (hu.row_eq hyrow hmem hhandle ▸ hy)
  change (if _ then none else Function.update s.disk r.diskPath (some content) x.diskPath) = _
  rw [if_neg hpath]
  split_ifs with heq
  · rw [heq, Function.update_self]
  · refine Function.update_of_ne (fun hsame => heq ?_) _ _
    exact hu.row_eq hmem hu.mem (storeDiskPath_injective ((hu.paths x hmem).symm.trans (hsame.trans (hu.paths r hu.mem))))

theorem inv_written (h : Inv user s) (hu : Upserted user s url mime now rows r) : Inv user (written s rows r content tie) where
  handles := hu.handles.sublist (List.filter_sublist.map _)
  urls := hu.urls.sublist (List.filter_sublist.map _)
  paths := fun x hx => hu.paths x (mem_written.1 hx).1
  files := by
    intro x hx
    rw [written_disk hu hx]
    split_ifs with heq
    · rfl
    · exact h.files x (hu.others x (mem_written.1 hx).1 heq)
  bound := Overflow.length_kept_le (evictionOrder_perm tie rows) hu.nodup

/-- the row just staged leaves only as the first in the order of rows that are no receipts -/
theorem staged_evicted (h : Inv user s) (hu : Upserted user s url mime now rows r)
    (hout : r ∉ (written s rows r content tie).rows) :
    s.rows.length = stagingMaxPerUser ∧ ∀ x ∈ s.rows, x.upload = none ∧ now + stagingTtl ≤ x.expiresAt := by
  have hmore : stagingMaxPerUser < rows.length := by
    by_contra hle
    refine hout ?_
    change r ∈ Overflow.kept _ _ _
    rw [Overflow.kept_of_le (evictionOrder_perm tie rows) (not_lt.1 hle)]
    exact hu.mem
  have hbound := h.bound
  obtain ⟨hlen, -⟩ | ⟨hlen, hnone, hnew⟩ := hu.row
  · omega
  · refine ⟨by omega, fun x hx => ?_⟩
    have hne : x ≠ r := by
      rintro rfl
      exact hnew x hx hu.isUrl
    have hbefore : Before r x := Overflow.rel_of_single (evictionOrder_perm tie rows) hu.nodup
      (pairwise_evictionOrder tie rows) (by omega) hu.mem hout (hu.kept x hx (hnew x hx)) hne
    have hx' := hbefore.2 hnone
    have hexpires := hbefore.1 (by rw [hnone, hx'])
    rw [hu.expires] at hexpires
    exact ⟨hx', hexpires⟩

/-- what leaves stands before all that stays -/
theorem evicted_before (h : Inv user s) (hu : Upserted user s url mime now rows r) {e : StagedMedia} (he : e ∈ s.rows)
    (hout : e.handle ∉ (written s rows r content tie).rows.map StagedMedia.handle) {x : StagedMedia}
    (hx : x ∈ (written s rows r content tie).rows) : Before e x := by
  by_cases hurl : e.originalUrl = url
  · -- the row that was staged again keeps its handle, and no row leaves
    obtain ⟨hlen, old, hold, holdurl, hhandle⟩ | ⟨-, -, hnew⟩ := hu.row
    · have heq := List.inj_on_of_nodup_map h.urls he hold (hurl.trans holdurl.symm)
      refine absurd (List.mem_map.2 ⟨r, ?_, ?_⟩) hout
      · change r ∈ Overflow.kept _ _ _
        rw [Overflow.kept_of_le (evictionOrder_perm tie rows) (hlen ▸ h.bound)]
        exact hu.mem
      · rw [hhandle, heq]
    · exact absurd hurl (hnew e he)
  · have hgone : e ∉ (written s rows r content tie).rows := fun hmem => hout (List.mem_map_of_mem hmem)
    exact Overflow.rel_of_evicted (evictionOrder_perm tie rows) hu.nodup (pairwise_evictionOrder tie rows) (hu.kept e he hurl)
      hgone hx

theorem getByHandle_written (h : Inv user s) (hu : Upserted user s url mime now rows r)
    (hr : r ∈ (written s rows r content tie).rows) {later : ℤ} (hlater : later < now + stagingTtl) :
    (getByHandle (written s rows r content tie) r.handle later).2 = some (url, content, mime) := by
  have hinv : Inv user (written s rows r content tie) := inv_written h hu
  have hfind : (written s rows r content tie).rows.find? (fun x => x.handle = r.handle ∧ later < x.expiresAt) = some r := by
    cases hfound : (written s rows r content tie).rows.find? (fun x => x.handle = r.handle ∧ later < x.expiresAt) with
    | none =>
      have hnot := List.find?_eq_none.1 hfound r hr
      exact absurd (decide_eq_true ⟨rfl, hu.expires ▸ hlater⟩) hnot
    | some x =>
      have hx := List.find?_some hfound
      simp only [decide_eq_true_eq] at hx
      rw [hinv.row_eq (List.mem_of_find?_eq_some hfound) hr hx.1]
  unfold getByHandle
  rw [hfind]
  simp only [written_disk hu hr, if_true, hu.isUrl, hu.isMime]

end

theorem inv_step (s : Store) (o : Op) (h : Inv user s) : Inv user (step user s o) := by
  cases o with
  | stage url content mime now fresh tie =>
    simp only [step, stage]
    split_ifs
    · exact h
    · split
      · exact h
      · next rows r hupsert => exact inv_written h (upsert_spec h hupsert)
  | getByHandle handle now =>
    rw [step, getByHandle_store h]
    exact h
  | resolve ref now =>
    rw [step, resolveMediaRef_store h]
    exact h
  | getAll now =>
    rw [step, getAllForUser, dropOrphans_eq h]
    exact h
  | touch handle now => exact inv_touch h handle now
  | mark ref receipt now tie => exact inv_markUploaded h ref receipt now tie
  | evict url => exact inv_removeRows h _
  | evictByHandle handle => exact inv_removeRows h _
  | purge now => exact inv_removeRows h _
  | clear => exact inv_removeRows h _

theorem inv_run (ops : List Op) : Inv user (run (step user) Store.empty ops) := run_inv_all inv_step _ ops inv_empty

/-! ## Results -/

/-- a stage that found the cap reached, no row marked uploaded, and none staged or touched at an earlier reading of the
clock -/
def StoodStill (s : Store) (now : ℤ) : Prop :=
  s.rows.length = stagingMaxPerUser ∧ ∀ x ∈ s.rows, x.upload = none ∧ now + stagingTtl ≤ x.expiresAt

structure Keeps (s s' : Store) (url : Str) (content : Bytes) (mime : Str) (now : ℤ) (h : Str) : Prop where
  bound : s'.rows.length ≤ stagingMaxPerUser
  handle : ∀ x ∈ s.rows, x.originalUrl = url → x.handle = h
  order : ∀ e ∈ s.rows, e.handle ∉ s'.rows.map StagedMedia.handle → ∀ x ∈ s'.rows, Before e x
  resolves : (∀ later < now + stagingTtl, (getByHandle s' h later).2 = some (url, content, mime)) ∨ StoodStill s now

/-- the reading of the clock that an operation gives an expiry from -/
def Op.sets : Op → Option ℤ
  | .stage _ _ _ now _ _ => some now
  | .touch _ now => some now
  | _ => none

/-- every expiry is that of a reading before `now` -/
theorem expires_lt {now : ℤ} {ops : List Op} (hops : ∀ o ∈ ops, ∀ t, o.sets = some t → t < now) :
    ∀ r ∈ (run (step user) Store.empty ops).rows, r.expiresAt < now + stagingTtl := by
  let I (s : Store) : Prop := Inv user s ∧ ∀ r ∈ s.rows, r.expiresAt < now + stagingTtl
  have hstep : ∀ s o, I s → (∀ t, o.sets = some t → t < now) → I (step user s o) := by
    intro s o hI hset
    refine ⟨inv_step s o hI.1, ?_⟩
    cases o with
    | stage url content mime t fresh tie =>
      have ht := hset t rfl
      simp only [step, stage]
      split_ifs
      · exact hI.2
      · split
        · exact hI.2
        · next rows r hupsert =>
          have hu := upsert_spec hI.1 hupsert
          intro x hx
          by_cases heq : x = r
          · rw [heq, hu.expires]
            omega
          · exact hI.2 x (hu.others x (mem_written.1 hx).1 heq)
    | getByHandle handle t =>
      rw [step, getByHandle_store hI.1]
      exact hI.2
    | resolve ref t =>
      rw [step, resolveMediaRef_store hI.1]
      exact hI.2
    | getAll t =>
      rw [step, getAllForUser, dropOrphans_eq hI.1]
      exact hI.2
    | touch handle t =>
      have ht := hset t rfl
      intro x hx
      obtain ⟨y, hy, rfl⟩ := List.mem_map.1 hx
      have hy' := hI.2 y hy
      split_ifs
      · simp only
        omega
      · exact hy'
    | mark ref receipt t tie =>
      simp only [step, markUploaded]
      split_ifs
      · exact hI.2
      · split
        · exact hI.2
        · intro x hx
          obtain ⟨y, hy, rfl⟩ := List.mem_map.1 hx
          have hy' := hI.2 y hy
          split_ifs <;> exact hy'
    | evict url => exact fun x hx => hI.2 x (List.mem_filter.1 hx).1
    | evictByHandle handle => exact fun x hx => hI.2 x (List.mem_filter.1 hx).1
    | purge t => exact fun x hx => hI.2 x (List.mem_filter.1 hx).1
    | clear => exact fun x hx => hI.2 x (List.mem_filter.1 hx).1
  have hmeets : Meets (step user) (fun _ o => ∀ t, o.sets = some t → t < now) Store.empty ops :=
    meets_of_forall (fun o ho _ => hops o ho) _
  exact (run_inv hstep hmeets ⟨inv_empty, fun r hr => absurd hr List.not_mem_nil⟩).2

/-- with a clock that advances the clock never stands still -/
theorem not_stoodStill {now : ℤ} {ops : List Op} (hops : ∀ o ∈ ops, ∀ t, o.sets = some t → t < now) :
    ¬ StoodStill (run (step user) Store.empty ops) now := by
  rintro ⟨hlen, hall⟩
  obtain ⟨r, hr⟩ := List.exists_mem_of_length_pos (l := (run (step user) Store.empty ops).rows) (by rw [hlen]; decide)
  exact absurd (hall r hr).2 (not_le.2 (expires_lt hops r hr))

/-- **A stage.** The cap holds, a handle is stable, rows leave with receipts first and each kind by its expiry, and the
handle resolves to the bytes unless the clock stood still, which it does not where it advances. -/
theorem stage_keeps (user : Str) (ops : List Op) (url : Str) (content : Bytes) (mime : Str) (now : ℤ) (fresh : Str)
    (tie : Str → ℕ) (s' : Store) (h : Str)
    (hstage : stage user (run (step user) Store.empty ops) url content mime now fresh tie = (s', .handle h)) :
    Keeps (run (step user) Store.empty ops) s' url content mime now h ∧
      ((∀ o ∈ ops, ∀ t, o.sets = some t → t < now) → ¬ StoodStill (run (step user) Store.empty ops) now) := by
  refine ⟨?_, not_stoodStill⟩
  have hinv : Inv user (run (step user) Store.empty ops) := inv_run ops
  generalize run (step user) Store.empty ops = s at hstage hinv
  unfold stage at hstage
  split_ifs at hstage
  · cases hstage
  · split at hstage
    · cases hstage
    · next rows r hupsert =>
      have hu := upsert_spec hinv hupsert
      obtain ⟨hs', hh⟩ := Prod.mk.inj hstage
      obtain rfl : r.handle = h := Staged.handle.inj hh
      change written s rows r content tie = s' at hs'
      subst hs'
      refine ⟨(inv_written hinv hu).bound, ?_, fun e he hout x hx => evicted_before hinv hu he hout hx, ?_⟩
      · intro x hx hurl
        obtain ⟨-, old, hold, holdurl, hhandle⟩ | ⟨-, -, hnew⟩ := hu.row
        · rw [hhandle, List.inj_on_of_nodup_map hinv.urls hx hold (hurl.trans holdurl.symm)]
        · exact absurd hurl (hnew x hx)
      · by_cases hr : r ∈ (written s rows r content tie).rows
        · exact .inl fun later hlater => getByHandle_written hinv hu hr hlater
        · exact .inr (staged_evicted hinv hu hr)

/-- fifty photos of one hour, by their number -/
def crowd : List Op := (List.range stagingMaxPerUser).map fun i =>
  .stage (List.replicate (i + 1) 'u') [1] [] 3600 (List.replicate (i + 1) 'h') fun _ => 0

theorem stage_keeps_first : Keeps Store.empty (step [] Store.empty (.stage ['u'] [1] [] 0 ['h'] fun _ => 0)) ['u'] [1] [] 0 ['h'] :=
  (stage_keeps [] [] ['u'] [1] [] 0 ['h'] (fun _ => 0) _ ['h'] (Prod.ext rfl (by decide +kernel))).1

/-- a stage an hour before them -/
def earlier : Store × Staged := stage [] (run (step []) Store.empty crowd) ['x'] [1] [] 0 ['x'] fun _ => 0

/-- a clock that goes back: the stage evicts its own row -/
theorem staged_lost : ∃ (ops : List Op) (url : Str) (content : Bytes) (now : ℤ) (fresh : Str) (s' : Store) (h : Str),
    stage [] (run (step []) Store.empty ops) url content [] now fresh (fun _ => 0) = (s', .handle h) ∧
      (getByHandle s' h now).2 = none := by
  have hhandle : earlier.2 = .handle ['x'] := by decide +kernel
  have hlookup : (getByHandle earlier.1 ['x'] 0).2 = none := by decide +kernel
  refine ⟨crowd, ['x'], [1], 0, ['x'], earlier.1, ['x'], ?_, hlookup⟩
  rw [← earlier, ← hhandle]

end Clawbolt.Media

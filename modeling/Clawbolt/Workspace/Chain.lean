/-
Workspace updates form a gap-free chain, and what is laid on a growing history stays.

- `render_eq_nil_iff`: an update is empty exactly when the documents are unchanged;
- `apply_wellFormed`: the deliveries of an entry stay linked, each to the one before it, and in the order of their rows;
- `quiet_run`: while a user applies nothing, the entry of the user's turn keeps its deliveries, and a turn on another entry
  starts with none;
- `workspace_chain`: what the model has read ends at the live documents, a second apply gives the same view, and the laid
  out history grows with the stored one, unless the store has lost the entry that an update was laid from.
-/
import Mathlib.Tactic
import Clawbolt.Workspace.Turn

namespace Clawbolt.Workspace

open Text (Str)
open History (AgentMessage PromptEpoch)
open Deltas (Leads Linked)

/-! ## Updates -/

theorem describeChange_ne_nil (diff : UnifiedDiff) (filename : String) (old new : Str) (h : filename.toList ≠ []) :
    describeChange diff filename.toList old new ≠ [] := by
  unfold describeChange
  simp only
  split_ifs <;> simp [h]

theorem join_eq_nil_iff {sep : Str} {ts : List Str} (h : ∀ t ∈ ts, t ≠ []) : Text.join sep ts = [] ↔ ts = [] := by
  constructor
  · intro hj
    cases ts with
    | nil => rfl
    | cons t ts =>
      have ht := h t List.mem_cons_self
      cases ts with
      | nil => exact absurd (by simpa [Text.join, List.intercalate] using hj) ht
      | cons t' ts => exact absurd (by simpa [Text.join, List.intercalate] using hj) (fun hc : t = [] ∧ _ => ht hc.1)
  · intro hts
    rw [hts]
    rfl

/-- **Empty updates.** They say that nothing changed. -/
theorem render_eq_nil_iff (diff : UnifiedDiff) (shown live : WorkspaceSnapshot) :
    renderWorkspaceUpdates diff shown live = [] ↔ shown = live := by
  have hne : ∀ filename old new, filename.toList ≠ [] → ∀ t ∈ changeOf diff filename old new, t ≠ [] := by
    intro filename old new hf t ht
    unfold changeOf at ht
    split_ifs at ht
    · obtain rfl := List.mem_singleton.1 ht
      exact describeChange_ne_nil diff filename old new hf
    · simp at ht
  have hnil : ∀ filename old new, changeOf diff filename old new = [] ↔ old = new := by
    intro filename old new
    unfold changeOf
    split_ifs with h
    · simp [h]
    · simpa using h
  unfold renderWorkspaceUpdates
  rw [join_eq_nil_iff]
  · rw [List.append_eq_nil_iff, List.append_eq_nil_iff, hnil, hnil, hnil, and_assoc]
    cases shown
    cases live
    simp
  · intro t ht
    rcases List.mem_append.1 ht with ht | ht
    · rcases List.mem_append.1 ht with ht | ht
      · exact hne _ _ _ (by decide) t ht
      · exact hne _ _ _ (by decide) t ht
    · exact hne _ _ _ (by decide) t ht

/-! ## Entries -/

/-- the deliveries as a log of changes -/
def EpochWorkspace.log (e : EpochWorkspace) : List (Str × WorkspaceSnapshot) := e.deliveries.map fun d => (d.text, d.shown)

/-- each delivery is the change since the one before it, on a later row -/
structure EpochWorkspace.WellFormed (diff : UnifiedDiff) (e : EpochWorkspace) : Prop where
  linked : Linked (renderWorkspaceUpdates diff) e.snapshot e.log
  ordered : e.deliveries.Pairwise fun d d' => d.seq < d'.seq

/-- the deliveries that the model sees -/
def EpochWorkspace.visible (e : EpochWorkspace) (history : List AgentMessage) : List Delivery :=
  e.deliveries.takeWhile fun d => decide (d.seq ∈ userSeqs history)

theorem take_seen (e : EpochWorkspace) (history : List AgentMessage) :
    e.deliveries.take (e.seen history) = e.visible history :=
  (List.prefix_iff_eq_take.1 (List.takeWhile_prefix _)).symm

theorem visible_present {e : EpochWorkspace} {history : List AgentMessage} {d : Delivery} (h : d ∈ e.visible history) :
    d.seq ∈ userSeqs history := by
  simpa using List.mem_takeWhile_imp h

/-- the documents after the visible deliveries -/
def EpochWorkspace.lastSeen (e : EpochWorkspace) (history : List AgentMessage) : WorkspaceSnapshot :=
  Deltas.last e.snapshot ((e.visible history).map fun d => (d.text, d.shown))

theorem shownAfter_length (key : ℕ) (snapshot : WorkspaceSnapshot) (ds : List Delivery) :
    (EpochWorkspace.mk key snapshot ds).shownAfter ds.length =
      Deltas.last snapshot (ds.map fun d => (d.text, d.shown)) := by
  rcases List.eq_nil_or_concat ds with rfl | ⟨init, d, rfl⟩
  · rfl
  · rw [List.concat_eq_append, List.map_append, List.map_singleton, Deltas.last_snoc]
    simp [EpochWorkspace.shownAfter]

section

variable (diff : UnifiedDiff) (e : EpochWorkspace) (live : WorkspaceSnapshot) (turnSeq : Option ℕ)
  (history : List AgentMessage)

/-- what the turn carries: the change since the last visible delivery -/
theorem apply_updates :
    (e.apply diff live turnSeq history).1.updates = renderWorkspaceUpdates diff (e.lastSeen history) live := by
  have hshown : ({ e with deliveries := e.deliveries.take (e.seen history) } : EpochWorkspace).shownAfter
      (e.seen history) = e.lastSeen history := by
    rw [take_seen]
    exact shownAfter_length e.key e.snapshot (e.visible history)
  unfold EpochWorkspace.apply
  simp only [EpochWorkspace.updates, hshown]
  cases turnSeq with
  | none => rfl
  | some q =>
    simp only
    split_ifs <;> rfl

theorem apply_history :
    (e.apply diff live turnSeq history).1.history = history.map (layOn (texts (e.visible history))) := by
  unfold EpochWorkspace.apply
  simp only [take_seen]
  cases turnSeq with
  | none => rfl
  | some q =>
    simp only
    split_ifs <;> rfl

/-- what an apply records: nothing, or the change on the row of the turn -/
theorem apply_deliveries :
    (e.apply diff live turnSeq history).2.deliveries = e.visible history ∨
    ∃ q, turnSeq = some q ∧ (e.apply diff live turnSeq history).2.deliveries =
      e.visible history ++ [⟨q, renderWorkspaceUpdates diff (e.lastSeen history) live, live⟩] := by
  have hupdates := apply_updates diff e live turnSeq history
  unfold EpochWorkspace.apply at hupdates ⊢
  simp only [take_seen] at hupdates ⊢
  cases turnSeq with
  | none => exact Or.inl rfl
  | some q =>
    simp only at hupdates ⊢
    split_ifs at hupdates ⊢ with hnil
    · exact Or.inl rfl
    · refine Or.inr ⟨q, rfl, ?_⟩
      simp only at hupdates
      rw [hupdates]

theorem apply_snapshot : (e.apply diff live turnSeq history).2.snapshot = e.snapshot := by
  unfold EpochWorkspace.apply
  cases turnSeq with
  | none => rfl
  | some q =>
    simp only
    split_ifs <;> rfl

end

theorem visible_wellFormed {diff : UnifiedDiff} {e : EpochWorkspace} (h : e.WellFormed diff) (history : List AgentMessage) :
    Linked (renderWorkspaceUpdates diff) e.snapshot ((e.visible history).map fun d => (d.text, d.shown)) ∧
    (e.visible history).Pairwise fun d d' => d.seq < d'.seq := by
  constructor
  · rw [← take_seen, List.map_take]
    exact h.linked.take _
  · exact h.ordered.sublist (List.takeWhile_prefix _).sublist

/-- **An apply keeps the chain.** -/
theorem apply_wellFormed {diff : UnifiedDiff} {e : EpochWorkspace} (h : e.WellFormed diff) (live : WorkspaceSnapshot)
    {turnSeq : Option ℕ} {history : List AgentMessage} (hin : InOrder history turnSeq) :
    (e.apply diff live turnSeq history).2.WellFormed diff := by
  obtain ⟨hlinked, hordered⟩ := visible_wellFormed h history
  have hsnap := apply_snapshot diff e live turnSeq history
  rcases apply_deliveries diff e live turnSeq history with hd | ⟨q, hq, hd⟩
  · refine ⟨?_, by rw [hd]; exact hordered⟩
    rw [EpochWorkspace.log, hd, hsnap]
    exact hlinked
  · constructor
    · rw [EpochWorkspace.log, hd, hsnap, List.map_append]
      exact hlinked.snoc live
    · rw [hd]
      refine List.pairwise_append.2 ⟨hordered, List.pairwise_singleton _ _, fun d hm d' hm' => ?_⟩
      obtain rfl := List.mem_singleton.1 hm'
      exact hin.2 q hq d.seq (visible_present hm)

/-! ## The laid out history -/

theorem bySeq_append_of_ne {laid : List (ℕ × Str)} {q : ℕ} {text : Str} {q' : ℕ} (h : q' ≠ q) :
    bySeq (laid ++ [(q, text)]) q' = bySeq laid q' := by
  have hbeq : (q' == q) = false := beq_eq_false_iff_ne.2 h
  simp [bySeq, List.lookup_cons, hbeq]

theorem mem_userSeqs {history : List AgentMessage} {content : Str} {q : ℕ} (h : AgentMessage.user content (some q) ∈ history) :
    q ∈ userSeqs history :=
  List.mem_filterMap.2 ⟨_, h, rfl⟩

theorem userSeqs_mono {history history' : List AgentMessage} (h : history <+: history') {q : ℕ}
    (hq : q ∈ userSeqs history) : q ∈ userSeqs history' := by
  obtain ⟨rest, rfl⟩ := h
  rw [userSeqs, List.filterMap_append]
  exact List.mem_append_left _ hq

/-- an update on a row that is not in the history changes nothing of it -/
theorem map_layOn_snoc {history : List AgentMessage} {ds : List Delivery} {d : Delivery} (h : d.seq ∉ userSeqs history) :
    history.map (layOn (texts (ds ++ [d]))) = history.map (layOn (texts ds)) := by
  refine List.map_congr_left fun m hm => ?_
  cases m with
  | user content seq =>
    cases seq with
    | none => rfl
    | some q =>
      have hne : q ≠ d.seq := fun he => h (he ▸ mem_userSeqs hm)
      have hlook : bySeq (texts (ds ++ [d])) q = bySeq (texts ds) q := by
        rw [texts, List.map_append]
        exact bySeq_append_of_ne hne
      simp only [layOn, hlook]
  | _ => rfl

theorem map_layOn_nil (history : List AgentMessage) : history.map (layOn (texts [])) = history := by
  refine List.map_id'' (fun m => ?_) history
  cases m with
  | user content seq => cases seq <;> rfl
  | _ => rfl

/-- the rows that updates are laid on, in the order of the history -/
theorem texts_sublist {ds : List Delivery} {history : List AgentMessage} (hordered : ds.Pairwise fun d d' => d.seq < d'.seq)
    (hpresent : ∀ d ∈ ds, d.seq ∈ userSeqs history) (hin : (userSeqs history).Pairwise (· < ·)) :
    ((texts ds).map Prod.fst).Sublist (userSeqs history) := by
  have hmap : (texts ds).map Prod.fst = ds.map Delivery.seq := by
    rw [texts, List.map_map]
    rfl
  rw [hmap]
  have hpair : (ds.map Delivery.seq).Pairwise (· < ·) := List.pairwise_map.2 hordered
  refine List.sublist_of_subperm_of_pairwise (r := (· < ·)) ?_ hpair hin
  refine List.subperm_of_subset (hpair.imp ne_of_lt) fun q hq => ?_
  obtain ⟨d, hd, rfl⟩ := List.mem_map.1 hq
  exact hpresent d hd

/-- what is visible after an apply: what was visible before it, and perhaps what it recorded -/
theorem visible_after {e' : EpochWorkspace} {ds : List Delivery} {history' : List AgentMessage}
    (hpresent : ∀ d ∈ ds, d.seq ∈ userSeqs history') {d : Delivery}
    (hd : e'.deliveries = ds ∨ e'.deliveries = ds ++ [d]) :
    e'.visible history' = ds ∨ e'.visible history' = ds ++ [d] ∧ e'.deliveries = ds ++ [d] ∧ d.seq ∈ userSeqs history' := by
  have hall : ∀ x ∈ ds, decide (x.seq ∈ userSeqs history') = true := fun x hx => decide_eq_true (hpresent x hx)
  rcases hd with hd | hd
  · exact Or.inl (by rw [EpochWorkspace.visible, hd, List.takeWhile_eq_self_iff.2 hall])
  · by_cases hq : d.seq ∈ userSeqs history'
    · refine Or.inr ⟨?_, hd, hq⟩
      rw [EpochWorkspace.visible, hd, List.takeWhile_eq_self_iff]
      intro x hx
      rcases List.mem_append.1 hx with hx | hx
      · exact hall x hx
      · obtain rfl := List.mem_singleton.1 hx
        exact decide_eq_true hq
    · refine Or.inl ?_
      rw [EpochWorkspace.visible, hd, List.takeWhile_append_of_pos hall, List.takeWhile_cons_of_neg (by simpa using hq),
        List.append_nil]

/-! ## Runs -/

/-- entries are well formed, each turn has its own, and the store names the entry of the user's turn -/
structure World.Inv (diff : UnifiedDiff) (s : World) : Prop where
  wellFormed : ∀ i, (s.objects i).WellFormed diff
  allocated : ∀ u t, s.turns u = some t → t.entry < s.next
  owned : ∀ u v t t', s.turns u = some t → s.turns v = some t' → t.entry = t'.entry → u = v
  stored : ∀ x ∈ s.snapshots, ∃ t, s.turns x.1 = some t ∧ t.entry = x.2

theorem inv_start (diff : UnifiedDiff) : World.start.Inv diff :=
  ⟨fun _ => ⟨True.intro, List.Pairwise.nil⟩, by simp [World.start], by simp [World.start], by simp [World.start]⟩

theorem mem_touch {user : Str} {entry : ℕ} {snapshots : List (Str × ℕ)} {x : Str × ℕ} (h : x ∈ touch user entry snapshots) :
    x = (user, entry) ∨ (x ∈ snapshots ∧ x.1 ≠ user) := by
  rcases List.mem_append.1 (List.mem_of_mem_drop h) with hx | hx
  · rw [List.mem_filter, decide_eq_true_eq] at hx
    exact Or.inr hx
  · exact Or.inl (List.mem_singleton.1 hx)

/-- the two ways a turn begins: on the stored entry, with its key moved, or on a new one -/
theorem begin_cases (s : World) (user : Str) (epoch : PromptEpoch) (live : WorkspaceSnapshot) :
    (∃ i, s.kept user epoch = some i ∧ (user, i) ∈ s.snapshots ∧ s.begin_ user epoch live =
      ⟨Function.update s.objects i { s.objects i with key := epoch.key }, s.next, touch user i s.snapshots,
        Function.update s.turns user (some ⟨i, live, epoch.turnSeq⟩)⟩) ∨
    s.begin_ user epoch live =
      ⟨Function.update s.objects s.next ⟨epoch.key, live, []⟩, s.next + 1, touch user s.next s.snapshots,
        Function.update s.turns user (some ⟨s.next, live, epoch.turnSeq⟩)⟩ := by
  cases h : s.kept user epoch with
  | none =>
    right
    simp only [World.begin_, World.remember, h]
  | some i =>
    refine Or.inl ⟨i, rfl, ?_, by simp only [World.begin_, World.remember, h]⟩
    unfold World.kept at h
    cases hl : s.snapshots.lookup user with
    | none =>
      rw [hl] at h
      exact absurd h (by simp)
    | some j =>
      rw [hl] at h
      simp only at h
      split_ifs at h
      obtain rfl := Option.some.inj h
      exact Dict.mem_of_lookup hl

/-- a turn on entry `i`, which is new or the user's own -/
theorem inv_begin {diff : UnifiedDiff} {s : World} (user : Str) (live : WorkspaceSnapshot) (turnSeq : Option ℕ)
    (h : s.Inv diff) {i next : ℕ} {e : EpochWorkspace} (he : e.WellFormed diff) (hnext : s.next ≤ next) (hi : i < next)
    (hown : ∀ v t, s.turns v = some t → t.entry = i → v = user) :
    World.Inv diff ⟨Function.update s.objects i e, next, touch user i s.snapshots,
      Function.update s.turns user (some ⟨i, live, turnSeq⟩)⟩ := by
  refine ⟨fun j => ?_, fun u t ht => ?_, fun u v t t' ht ht' heq => ?_, fun x hx => ?_⟩
  · by_cases hj : j = i
    · subst hj
      simpa using he
    · simpa [hj] using h.wellFormed j
  · by_cases hu : u = user
    · subst hu
      simp only [Function.update_self, Option.some.injEq] at ht
      rw [← ht]
      exact hi
    · simp only [Function.update_of_ne hu] at ht
      exact (h.allocated u t ht).trans_le hnext
  · by_cases hu : u = user
    · by_cases hv : v = user
      · rw [hu, hv]
      · subst hu
        simp only [Function.update_self, Option.some.injEq, Function.update_of_ne hv] at ht ht'
        subst ht
        exact (hown v t' ht' heq.symm).symm
    · by_cases hv : v = user
      · subst hv
        simp only [Function.update_self, Option.some.injEq, Function.update_of_ne hu] at ht ht'
        subst ht'
        exact hown u t ht heq
      · simp only [Function.update_of_ne hu, Function.update_of_ne hv] at ht ht'
        exact h.owned u v t t' ht ht' heq
  · dsimp only at hx
    rcases mem_touch hx with heq | ⟨hx, hne⟩
    · rw [heq]
      exact ⟨⟨i, live, turnSeq⟩, Function.update_self user _ s.turns, rfl⟩
    · obtain ⟨t, ht, heq⟩ := h.stored x hx
      exact ⟨t, by simpa [Function.update_of_ne hne] using ht, heq⟩

/-- the stored entry belongs to no other user's turn -/
theorem owner_of_stored {diff : UnifiedDiff} {s : World} (h : s.Inv diff) {user : Str} {i : ℕ} (hi : (user, i) ∈ s.snapshots) :
    ∀ v t, s.turns v = some t → t.entry = i → v = user := by
  intro v t ht heq
  obtain ⟨t', ht', heq'⟩ := h.stored _ hi
  exact h.owned v user t t' ht ht' (heq.trans heq'.symm)

theorem inv_step {diff : UnifiedDiff} (s : World) (op : Op) (h : s.Inv diff) (hlegal : Legal s op) :
    (s.step diff op).Inv diff := by
  cases op with
  | begin_ user epoch live =>
    rcases begin_cases s user epoch live with ⟨i, -, hi, hb⟩ | hb
    · obtain ⟨t, ht, heq⟩ := h.stored _ hi
      have hkey : ({ s.objects i with key := epoch.key } : EpochWorkspace).WellFormed diff :=
        ⟨(h.wellFormed i).linked, (h.wellFormed i).ordered⟩
      have hinv := inv_begin user live epoch.turnSeq h hkey le_rfl
        (show i < s.next from (show t.entry = i from heq) ▸ h.allocated user t ht) (owner_of_stored h hi)
      show (s.begin_ user epoch live).Inv diff
      rw [hb]
      exact hinv
    · have hnew : (⟨epoch.key, live, []⟩ : EpochWorkspace).WellFormed diff := ⟨True.intro, List.Pairwise.nil⟩
      have hinv := inv_begin user live epoch.turnSeq h hnew (Nat.le_succ s.next)
        (Nat.lt_succ_self s.next) fun v t ht heq => absurd (h.allocated v t ht) (by omega)
      show (s.begin_ user epoch live).Inv diff
      rw [hb]
      exact hinv
  | apply user history =>
    cases ht : s.turns user with
    | none =>
      have hsame : s.step diff (.apply user history) = s := by simp only [World.step, ht]
      rwa [hsame]
    | some turn =>
      have hstep : s.step diff (.apply user history) = (s.apply diff turn history).2 := by simp only [World.step, ht]
      rw [hstep]
      refine ⟨fun j => ?_, h.allocated, h.owned, h.stored⟩
      by_cases hj : j = turn.entry
      · subst hj
        simpa [World.apply] using apply_wellFormed (h.wellFormed turn.entry) turn.live (hlegal turn ht)
      · simpa [World.apply, hj] using h.wellFormed j
  | restart => exact ⟨h.wellFormed, by simp [World.step], by simp [World.step], by simp [World.step]⟩

theorem inv_run {diff : UnifiedDiff} {s : World} (h : s.Inv diff) {ops : List Op}
    (hlegal : Runs.Meets (World.step diff) Legal s ops) : (Runs.run (World.step diff) s ops).Inv diff :=
  Runs.run_inv (fun s op hI hC => inv_step s op hI hC) hlegal h

/-! ## Between two applies of a user -/

/-- the user applies nothing -/
def Quiet (user : Str) : Op → Prop
  | .apply v _ => v ≠ user
  | _ => True

/-- the entry `i` of the user has kept its snapshot and its deliveries, and a turn of the user on another entry has no
deliveries -/
structure Since (user : Str) (i : ℕ) (snapshot : WorkspaceSnapshot) (ds : List Delivery) (s : World) : Prop where
  allocated : i < s.next
  entry : (s.objects i).snapshot = snapshot ∧ (s.objects i).deliveries = ds
  owned : ∀ v t, s.turns v = some t → t.entry = i → v = user
  turn : ∀ t, s.turns user = some t → t.entry = i ∨ (s.objects t.entry).deliveries = []

/-- a turn that begins on entry `j`, new or the user's own, with the deliveries the entry had -/
theorem since_begin {user : Str} {i : ℕ} {snapshot : WorkspaceSnapshot} {ds : List Delivery} {s : World}
    (hs : Since user i snapshot ds s) {next : ℕ} (v : Str) (j : ℕ) (e : EpochWorkspace) (live : WorkspaceSnapshot)
    (turnSeq : Option ℕ) (snapshots : List (Str × ℕ)) (hnext : s.next ≤ next)
    (hsame : j = i → v = user ∧ e.snapshot = snapshot ∧ e.deliveries = ds)
    (huser : v = user → j = i ∨ e.deliveries = [])
    (hother : v ≠ user → ∀ t, s.turns user = some t → t.entry ≠ j) :
    Since user i snapshot ds ⟨Function.update s.objects j e, next, snapshots,
      Function.update s.turns v (some ⟨j, live, turnSeq⟩)⟩ := by
  refine ⟨hs.allocated.trans_le hnext, ?_, fun u t ht heq => ?_, fun t ht => ?_⟩
  · by_cases hi : i = j
    · subst hi
      simpa using (hsame rfl).2
    · simpa [hi] using hs.entry
  · by_cases hu : u = v
    · subst hu
      simp only [Function.update_self, Option.some.injEq] at ht
      subst ht
      exact (hsame heq).1
    · simp only [Function.update_of_ne hu] at ht
      exact hs.owned u t ht heq
  · by_cases hv : v = user
    · subst hv
      simp only [Function.update_self, Option.some.injEq] at ht
      subst ht
      simpa using huser rfl
    · have ht' : s.turns user = some t := by simpa [Function.update_of_ne (Ne.symm hv)] using ht
      have hne := hother hv t ht'
      simpa [Function.update_of_ne hne] using hs.turn t ht'

theorem since_step {diff : UnifiedDiff} {user : Str} {i : ℕ} {snapshot : WorkspaceSnapshot} {ds : List Delivery} (s : World)
    (op : Op) (h : s.Inv diff) (hs : Since user i snapshot ds s) (hquiet : Quiet user op) :
    Since user i snapshot ds (s.step diff op) := by
  cases op with
  | begin_ v epoch live =>
    rcases begin_cases s v epoch live with ⟨j, -, hj, hb⟩ | hb
    · obtain ⟨t, ht, heq⟩ := h.stored _ hj
      have hsince := since_begin hs v j { s.objects j with key := epoch.key } live epoch.turnSeq
        (touch v j s.snapshots) le_rfl ?_ ?_ ?_
      · show Since user i snapshot ds (s.begin_ v epoch live)
        rw [hb]
        exact hsince
      · intro hji
        subst hji
        exact ⟨hs.owned v t ht heq, hs.entry⟩
      · intro hv
        subst hv
        have hturn := hs.turn t ht
        rwa [heq] at hturn
      · intro hv t' ht' heq'
        exact hv (h.owned v user t t' ht ht' (heq.trans heq'.symm))
    · have hsince := since_begin hs v s.next ⟨epoch.key, live, []⟩ live epoch.turnSeq
        (touch v s.next s.snapshots) (Nat.le_succ s.next) ?_ ?_ ?_
      · show Since user i snapshot ds (s.begin_ v epoch live)
        rw [hb]
        exact hsince
      · intro hji
        exact absurd hs.allocated (by omega)
      · exact fun _ => Or.inr rfl
      · intro _ t ht heq
        exact absurd (h.allocated user t ht) (by omega)
  | apply v history =>
    cases ht : s.turns v with
    | none =>
      have hsame : s.step diff (.apply v history) = s := by simp only [World.step, ht]
      rwa [hsame]
    | some turn =>
      have hstep : s.step diff (.apply v history) = (s.apply diff turn history).2 := by simp only [World.step, ht]
      have hi : i ≠ turn.entry := fun heq => hquiet (hs.owned v turn ht heq.symm)
      rw [hstep]
      refine ⟨hs.allocated, by simpa [World.apply, hi] using hs.entry, hs.owned, fun t htu => ?_⟩
      have hne : t.entry ≠ turn.entry := fun heq => hquiet (h.owned v user turn t ht htu heq.symm)
      simpa [World.apply, hne] using hs.turn t htu
  | restart => exact ⟨hs.allocated, hs.entry, by simp [World.step], by simp [World.step]⟩

theorem quiet_run {diff : UnifiedDiff} {user : Str} {i : ℕ} {snapshot : WorkspaceSnapshot} {ds : List Delivery} {s : World}
    (h : s.Inv diff) (hs : Since user i snapshot ds s) {ops : List Op} (hlegal : Runs.Meets (World.step diff) Legal s ops)
    (hquiet : ∀ op ∈ ops, Quiet user op) : Since user i snapshot ds (Runs.run (World.step diff) s ops) := by
  induction ops generalizing s with
  | nil => exact hs
  | cons op ops ih =>
    refine ih (inv_step s op h hlegal.1) (since_step s op h hs (hquiet op List.mem_cons_self)) hlegal.2 fun o ho => ?_
    exact hquiet o (List.mem_cons_of_mem _ ho)

/-! ## The chain -/

/-- the snapshot of the system block, the updates laid on the rows of the history, in order and once each, and the update of
the current turn lead to the live documents -/
def ReadsLive (diff : UnifiedDiff) (snapshot live : WorkspaceSnapshot) (history : List AgentMessage) (view : WorkspaceView) :
    Prop :=
  ∃ laid seen, view.history = history.map (layOn laid) ∧ (laid.map Prod.fst).Sublist (userSeqs history) ∧
    Leads (renderWorkspaceUpdates diff) snapshot (laid.map Prod.snd) seen ∧
    view.updates = renderWorkspaceUpdates diff seen live ∧ (view.updates = [] ↔ seen = live)

theorem readsLive_apply {diff : UnifiedDiff} {e : EpochWorkspace} (h : e.WellFormed diff) (live : WorkspaceSnapshot)
    {turnSeq : Option ℕ} {history : List AgentMessage} (hin : InOrder history turnSeq) :
    ReadsLive diff e.snapshot live history (e.apply diff live turnSeq history).1 := by
  obtain ⟨hlinked, hordered⟩ := visible_wellFormed h history
  refine ⟨texts (e.visible history), e.lastSeen history, apply_history diff e live turnSeq history,
    texts_sublist hordered (fun d hd => visible_present hd) hin.1, ?_, apply_updates diff e live turnSeq history, ?_⟩
  · have hleads := Deltas.leads_of_linked hlinked
    rw [List.map_map] at hleads
    rw [texts, List.map_map]
    exact hleads
  · rw [apply_updates diff e live turnSeq history]
    exact render_eq_nil_iff diff _ _

/-- what is visible of an entry once it was applied to -/
theorem visible_applied {diff : UnifiedDiff} {e e' : EpochWorkspace} {live : WorkspaceSnapshot} {turnSeq : Option ℕ}
    {history history' : List AgentMessage} (hin : InOrder history turnSeq)
    (he : e'.deliveries = (e.apply diff live turnSeq history).2.deliveries) (hpre : history <+: history') :
    e'.visible history' = e.visible history ∨
    ∃ d : Delivery, d.seq ∉ userSeqs history ∧ d.seq ∈ userSeqs history' ∧ e'.visible history' = e.visible history ++ [d] := by
  have hpresent : ∀ d ∈ e.visible history, d.seq ∈ userSeqs history' :=
    fun d hd => userSeqs_mono hpre (visible_present hd)
  rcases apply_deliveries diff e live turnSeq history with hd | ⟨q, hq, hd⟩
  · rcases visible_after (d := ⟨0, [], live⟩) hpresent (Or.inl (he.trans hd)) with hv | ⟨-, hlong, -⟩
    · exact Or.inl hv
    · have hlen := congrArg List.length (hlong.symm.trans (he.trans hd))
      simp at hlen
  · rcases visible_after hpresent (Or.inr (he.trans hd)) with hv | ⟨hv, -, hmem⟩
    · exact Or.inl hv
    · exact Or.inr ⟨_, fun hm => lt_irrefl _ (hin.2 q hq q hm), hmem, hv⟩

/-- the same turn and history give the same view again -/
theorem apply_again {diff : UnifiedDiff} {e e' : EpochWorkspace} {live : WorkspaceSnapshot} {turnSeq : Option ℕ}
    {history : List AgentMessage} (hin : InOrder history turnSeq) (hsnap : e'.snapshot = e.snapshot)
    (he : e'.deliveries = (e.apply diff live turnSeq history).2.deliveries) :
    (e'.apply diff live turnSeq history).1 = (e.apply diff live turnSeq history).1 := by
  have hvisible : e'.visible history = e.visible history := by
    rcases visible_applied hin he (List.prefix_refl history) with hv | ⟨d, hnot, hmem, -⟩
    · exact hv
    · exact absurd hmem hnot
  have hseen : e'.lastSeen history = e.lastSeen history := by
    rw [EpochWorkspace.lastSeen, hsnap, hvisible]
    rfl
  have hhistory := apply_history diff e' live turnSeq history
  have hupdates := apply_updates diff e' live turnSeq history
  rw [hvisible, ← apply_history diff e live turnSeq history] at hhistory
  rw [hseen, ← apply_updates diff e live turnSeq history] at hupdates
  cases hv : (e'.apply diff live turnSeq history).1
  cases hv' : (e.apply diff live turnSeq history).1
  rw [hv, hv'] at hhistory hupdates
  exact congrArg₂ WorkspaceView.mk hhistory hupdates

/-- a history that grows keeps what is laid on it, on the same entry -/
theorem apply_grows {diff : UnifiedDiff} {e e' : EpochWorkspace} {live live' : WorkspaceSnapshot} {turnSeq turnSeq' : Option ℕ}
    {history history' : List AgentMessage} (hin : InOrder history turnSeq)
    (he : e'.deliveries = (e.apply diff live turnSeq history).2.deliveries) (hpre : history <+: history') :
    (e.apply diff live turnSeq history).1.history <+: (e'.apply diff live' turnSeq' history').1.history := by
  rw [apply_history, apply_history]
  have hmap : history.map (layOn (texts (e'.visible history'))) = history.map (layOn (texts (e.visible history))) := by
    rcases visible_applied hin he hpre with hv | ⟨d, hnot, -, hv⟩
    · rw [hv]
    · rw [hv]
      exact map_layOn_snoc hnot
  rw [← hmap]
  exact hpre.map _

/-- an apply reads the live documents. Until the user applies again, the same turn and history give the same view; and a
history that only grew is laid out as one that only grew, if the turn is still on the entry, or no update was laid -/
def Chained (diff : UnifiedDiff) (s : World) (user : Str) (turn : WorkspaceTurn) (history : List AgentMessage) : Prop :=
  let view := (s.apply diff turn history).1
  ReadsLive diff (s.objects turn.entry).snapshot turn.live history view ∧
  ∀ more, Runs.Meets (World.step diff) Legal (s.apply diff turn history).2 more → (∀ op ∈ more, Quiet user op) →
    ∀ turn' history', let s' := Runs.run (World.step diff) (s.apply diff turn history).2 more
      s'.turns user = some turn' →
      (turn' = turn → (s'.apply diff turn' history).1 = view) ∧
      (history <+: history' → turn'.entry = turn.entry ∨ view.history = history →
        view.history <+: (s'.apply diff turn' history').1.history)

/-- **The chain of workspace updates.** It holds of every apply of every run. -/
theorem workspace_chain (diff : UnifiedDiff) (ops : List Op) (user : Str) (turn : WorkspaceTurn) (history : List AgentMessage)
    (hlegal : Runs.Meets (World.step diff) Legal World.start ops)
    (hturn : (Runs.run (World.step diff) World.start ops).turns user = some turn) (hin : InOrder history turn.turnSeq) :
    Chained diff (Runs.run (World.step diff) World.start ops) user turn history := by
  have hinv := inv_run (inv_start diff) hlegal
  generalize Runs.run (World.step diff) World.start ops = s at hturn hinv ⊢
  refine ⟨readsLive_apply (hinv.wellFormed turn.entry) turn.live hin, fun more hmore hquiet turn' history' => ?_⟩
  have hstep : s.step diff (.apply user history) = (s.apply diff turn history).2 := by simp only [World.step, hturn]
  have hlegal₁ : Legal s (.apply user history) := by
    intro t ht
    obtain rfl := Option.some.inj (hturn.symm.trans ht)
    exact hin
  have hinv₁ : (s.apply diff turn history).2.Inv diff := hstep ▸ inv_step s _ hinv hlegal₁
  -- the entry after the apply, until the user applies again
  have hsince₁ : Since user turn.entry (s.objects turn.entry).snapshot
      ((s.objects turn.entry).apply diff turn.live turn.turnSeq history).2.deliveries (s.apply diff turn history).2 := by
    refine ⟨hinv.allocated user turn hturn, ?_, fun v t ht heq => hinv.owned v user t turn ht hturn heq, fun t ht => ?_⟩
    · simpa [World.apply] using apply_snapshot diff (s.objects turn.entry) turn.live turn.turnSeq history
    · obtain rfl := Option.some.inj (hturn.symm.trans ht)
      exact Or.inl rfl
  have hsince := quiet_run hinv₁ hsince₁ hmore hquiet
  generalize Runs.run (World.step diff) (s.apply diff turn history).2 more = s' at hsince ⊢
  intro _ ht'
  constructor
  · intro heq
    subst heq
    exact apply_again hin hsince.entry.1 hsince.entry.2
  · intro hpre hor
    rcases hsince.turn turn' ht' with hsame | hnone
    · have hentry : (s'.objects turn'.entry).deliveries =
          ((s.objects turn.entry).apply diff turn.live turn.turnSeq history).2.deliveries := by
        rw [hsame]
        exact hsince.entry.2
      exact apply_grows hin hentry hpre
    · rcases hor with hsame | hplain
      · have hentry : (s'.objects turn'.entry).deliveries =
            ((s.objects turn.entry).apply diff turn.live turn.turnSeq history).2.deliveries := by
          rw [hsame]
          exact hsince.entry.2
        exact apply_grows hin hentry hpre
      · -- a new entry lays nothing
        rw [hplain]
        have hview : (s'.apply diff turn' history').1.history = history' := by
          have happly := apply_history diff (s'.objects turn'.entry) turn'.live turn'.turnSeq history'
          rw [EpochWorkspace.visible, hnone, List.takeWhile_nil, map_layOn_nil] at happly
          exact happly
        rw [hview]
        exact hpre

/-! ## The store -/

/-! ## A restart in the middle of an epoch -/

/-- the documents before and after a note is added to MEMORY.md -/
def noteAdded (added : Bool) : WorkspaceSnapshot :=
  ⟨"Be brief.".toList, [], if added then "Acme pays late.".toList else []⟩

/-- a conversation of `n` turns: a message on every odd row, a reply on every even one -/
def conversation (n : ℕ) : List AgentMessage :=
  (List.range n).flatMap fun i => [.user "Hi".toList (some (2 * i + 1)), .assistant (some "Hello".toList) [] (some (2 * i + 2))]

/-- the note is added before the second turn, and shown on it; the third turn begins -/
def threeTurns : List Op := [
  .begin_ "u".toList ⟨1, true, some 1⟩ (noteAdded false), .apply "u".toList (conversation 0),
  .begin_ "u".toList ⟨1, false, some 3⟩ (noteAdded true), .apply "u".toList (conversation 1),
  .begin_ "u".toList ⟨1, false, some 5⟩ (noteAdded true)]

/-- the turn on the third message -/
def thirdTurn : WorkspaceTurn := ⟨0, noteAdded true, some 5⟩

set_option maxRecDepth 20000 in
theorem workspace_chain_third_turn : Chained (fun _ _ => []) (Runs.run (World.step fun _ _ => []) World.start threeTurns)
    "u".toList thirdTurn (conversation 2) :=
  workspace_chain (fun _ _ => []) threeTurns "u".toList thirdTurn (conversation 2) (by decide) (by decide) (by decide)

set_option maxRecDepth 20000 in
/-- after a restart, the next turn of the epoch no longer shows the note on the second message -/
theorem restart_drops_update :
    let s := Runs.run (World.step fun _ _ => []) World.start threeTurns
    let s' := Runs.run (World.step fun _ _ => []) (s.apply (fun _ _ => []) thirdTurn (conversation 2)).2
      [.restart, .begin_ "u".toList ⟨1, false, some 7⟩ (noteAdded true)]
    Runs.Meets (World.step fun _ _ => []) Legal World.start threeTurns ∧ s.turns "u".toList = some thirdTurn ∧
    s'.turns "u".toList = some ⟨1, noteAdded true, some 7⟩ ∧ conversation 2 <+: conversation 3 ∧
    ¬(s.apply (fun _ _ => []) thirdTurn (conversation 2)).1.history <+:
      (s'.apply (fun _ _ => []) ⟨1, noteAdded true, some 7⟩ (conversation 3)).1.history := by
  decide

end Clawbolt.Workspace

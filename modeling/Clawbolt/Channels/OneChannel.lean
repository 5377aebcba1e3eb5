/-
One active messaging channel for each user, and it is the preferred one.

A link keeps a route that was disabled disabled, and an inbound message from a new sender adds an enabled route beside the
ones that are there. So the property needs a condition on the steps, and the condition is exact:

- `active_channel`: a run is good in every state it reaches exactly when every operation that succeeds is one of those that
  fit (`Fits`);
- `silenced`: a single-tenant deployment gets two active routes from two messages, and linking a channel again leaves the user
  with none.
-/
import Mathlib.Tactic
import Clawbolt.Core.Runs
import Clawbolt.Channels.Routes

namespace Clawbolt.Channels

open Text (Str)
open Runs

/-! ## The property -/

/-- at most one route of the user is active, and its channel is the preferred one -/
structure Single (db : Db) (u : User) : Prop where
  one : (db.messaging u.id).length ≤ 1
  preferred : ∀ r ∈ db.messaging u.id, r.channel = u.preferredChannel

def Inv (db : Db) : Prop := ∀ u ∈ db.users, Single db u

/-- the user has one route on the channel, no other one is active, and the channel is preferred -/
structure Active (db : Db) (userId channel : Str) : Prop where
  route : ∃ r, db.routesOf userId channel = [r] ∧ r.enabled = true
  only : ∀ r ∈ db.messaging userId, r.channel = channel
  preferred : ∀ u ∈ db.users, u.id = userId → u.preferredChannel = channel

/-- what a link, or a toggle that enables a channel with a route, leaves -/
def Op.Post (db : Db) : Op → Prop
  | .link userId channel _ => Active db userId channel
  | .toggle userId channel true => db.routesOf userId channel ≠ [] → Active db userId channel
  | _ => True

section

variable (mode : AuthMode) (registered : List Str)

/-- an operation that succeeds leaves every user with one active channel at most, and the heartbeat's lookup does not raise -/
def Good (db : Db) (op : Op) : Prop :=
  ∀ db', exec mode registered db op = some db' →
    Inv db' ∧ op.Post db' ∧ ∀ u ∈ db'.users, (resolveHeartbeatRoute registered db' u).isSome = true

/-- no other channel of the user is active -/
def Db.Free (db : Db) (u : User) (channel : Str) : Prop := ∀ r ∈ db.messaging u.id, r.channel = channel

/-- a new sender is attached to a user who has no other active channel -/
def Sender.Fits (db : Db) (channel : Str) : Sender → Prop
  | .reused user => db.Free user channel
  | .known user => channel = webchat ∨ db.messaging user.id = [] ∧ user.preferredChannel = channel
  | _ => True

/-- a channel that is linked has no route, or an enabled one -/
def Op.Fits (db : Db) : Op → Prop
  | .link userId channel _ => ∀ r ∈ db.routesOf userId channel, r.enabled = true
  | .inbound channel senderId _ => (db.sender mode channel senderId).Fits db channel
  | _ => True

/-- the operations that succeed and keep the property -/
def Fits (db : Db) (op : Op) : Prop := (exec mode registered db op).isSome = true → op.Fits mode db

end

instance (db : Db) (u : User) (channel : Str) : Decidable (db.Free u channel) :=
  inferInstanceAs (Decidable (∀ r ∈ db.messaging u.id, r.channel = channel))

instance (db : Db) (channel : Str) : (s : Sender) → Decidable (s.Fits db channel)
  | .routed _ _ | .stranger => inferInstanceAs (Decidable True)
  | .reused user => inferInstanceAs (Decidable (db.Free user channel))
  | .known user =>
    inferInstanceAs (Decidable (channel = webchat ∨ db.messaging user.id = [] ∧ user.preferredChannel = channel))

instance (mode : AuthMode) (db : Db) : (op : Op) → Decidable (op.Fits mode db)
  | .link userId channel _ => inferInstanceAs (Decidable (∀ r ∈ db.routesOf userId channel, r.enabled = true))
  | .inbound channel senderId _ => inferInstanceAs (Decidable ((db.sender mode channel senderId).Fits db channel))
  | .unlink _ _ | .toggle _ _ _ => inferInstanceAs (Decidable True)

instance (mode : AuthMode) (registered : List Str) (db : Db) (op : Op) : Decidable (Fits mode registered db op) :=
  inferInstanceAs (Decidable ((exec mode registered db op).isSome = true → op.Fits mode db))

/-! ## Lists with one element at most -/

section

variable {α : Type} {l : List α}

theorem eq_of_length_le_one (h : l.length ≤ 1) {a b : α} (ha : a ∈ l) (hb : b ∈ l) : a = b := by
  match l with
  | [x] => exact (List.mem_singleton.1 ha).trans (List.mem_singleton.1 hb).symm
  | x :: y :: l => simp at h

theorem length_le_one (hnd : l.Nodup) (h : ∀ a ∈ l, ∀ b ∈ l, a = b) : l.length ≤ 1 := by
  match l with
  | [] => exact Nat.zero_le 1
  | [x] => exact le_rfl
  | x :: y :: l =>
    obtain rfl := h x (by simp) y (by simp)
    simp at hnd

theorem scalarOneOrNone_isSome : (scalarOneOrNone l).isSome = true ↔ l.length ≤ 1 := by
  match l with
  | [] => simp [scalarOneOrNone]
  | [x] => simp [scalarOneOrNone]
  | x :: y :: l => simp [scalarOneOrNone]

theorem scalarOneOrNone_some {o : Option α} (h : scalarOneOrNone l = some o) : l = o.toList := by
  match l with
  | [] =>
    obtain rfl := Option.some.inj h
    rfl
  | [x] =>
    obtain rfl := Option.some.inj h
    rfl
  | x :: y :: l => cases h

end

/-! ## What the writes leave -/

namespace Db

variable {db db' : Db} {u : User} {r : ChannelRoute} {userId channel identifier v : Str}

theorem nodup_routes (db : Db) : db.routes.Nodup := List.Nodup.of_map _ db.keys

theorem nodup_messaging (db : Db) (v : Str) : (db.messaging v).Nodup := db.nodup_routes.filter _

@[simp] theorem mem_messaging : r ∈ db.messaging v ↔ r ∈ db.routes ∧ r.userId = v ∧ r.enabled = true ∧ r.channel ≠ webchat := by
  simp [messaging]

@[simp] theorem mem_routesOf : r ∈ db.routesOf userId channel ↔ r ∈ db.routes ∧ r.userId = userId ∧ r.channel = channel := by
  simp [routesOf]

theorem user?_some (h : db.user? userId = some u) : u ∈ db.users ∧ u.id = userId :=
  ⟨List.mem_of_find?_eq_some h, by simpa using List.find?_some h⟩

/-- the primary key -/
theorem eq_of_id {u' : User} (hu : u ∈ db.users) (hu' : u' ∈ db.users) (h : u.id = u'.id) : u = u' :=
  List.inj_on_of_nodup_map db.ids hu hu' h

@[simp] theorem setPreferred_routes : (db.setPreferred userId channel).routes = db.routes := rfl

@[simp] theorem setIdentifier_routes : (db.setIdentifier userId identifier).routes = db.routes := rfl

theorem mem_setPreferred : u ∈ (db.setPreferred userId channel).users ↔
    (u ∈ db.users ∧ u.id ≠ userId) ∨ ∃ u' ∈ db.users, u'.id = userId ∧ u = { u' with preferredChannel := channel } := by
  simp only [setPreferred, mapUsers, List.mem_map]
  constructor
  · rintro ⟨u', hu', rfl⟩
    split_ifs with hid
    · exact Or.inr ⟨u', hu', hid, rfl⟩
    · exact Or.inl ⟨hu', hid⟩
  · rintro (⟨hu, hid⟩ | ⟨u', hu', hid, rfl⟩)
    · exact ⟨u, hu, if_neg hid⟩
    · exact ⟨u', hu', if_pos hid⟩

theorem mem_setIdentifier (hu : u ∈ (db.setIdentifier userId identifier).users) :
    ∃ u' ∈ db.users, u'.id = u.id ∧ u'.preferredChannel = u.preferredChannel := by
  simp only [setIdentifier, mapUsers, List.mem_map] at hu
  obtain ⟨u', hu', rfl⟩ := hu
  refine ⟨u', hu', ?_, ?_⟩ <;> split_ifs <;> rfl

theorem writeRoutes_some {routes : List ChannelRoute} (h : db.writeRoutes routes = some db') :
    db'.users = db.users ∧ db'.routes = routes := by
  unfold writeRoutes at h
  split_ifs at h
  obtain rfl := Option.some.inj h
  exact ⟨rfl, rfl⟩

theorem addUser_some (h : db.addUser u = some db') :
    db'.users = u :: db.users ∧ db'.routes = db.routes ∧ u.id ∉ db.users.map User.id := by
  unfold addUser at h
  split_ifs at h with hkeys
  obtain rfl := Option.some.inj h
  exact ⟨rfl, rfl, (List.nodup_cons.1 hkeys.1).1⟩

@[simp] theorem mem_mapEnabled {f : ChannelRoute → Bool} :
    r ∈ (db.mapEnabled f).routes ↔ ∃ r' ∈ db.routes, { r' with enabled := f r' } = r := by
  simp [mapEnabled]

@[simp] theorem mem_deleteRoutes {p : ChannelRoute → Bool} : r ∈ (db.deleteRoutes p).routes ↔ r ∈ db.routes ∧ p r = false := by
  simp [deleteRoutes]

/-- the rows of a channel after a write to the enabled flags -/
theorem routesOf_mapEnabled (f : ChannelRoute → Bool) :
    (db.mapEnabled f).routesOf userId channel =
      (db.routesOf userId channel).map fun r => { r with enabled := f r } := by
  simp only [routesOf, mapEnabled, List.filter_map]
  rfl

/-- what is left enabled of a user's routes when the others are disabled -/
theorem messaging_disableOthers (h : r ∈ (db.disableOthers userId channel).messaging userId) :
    r.channel = channel ∧ r ∈ db.messaging userId := by
  obtain ⟨hr, huser, henabled, hweb⟩ := mem_messaging.1 h
  obtain ⟨r', hr', rfl⟩ := mem_mapEnabled.1 hr
  dsimp only at huser henabled hweb ⊢
  split_ifs at henabled with hother
  have hchannel : r'.channel = channel := by
    by_contra hne
    exact hother ⟨huser, hne, hweb⟩
  refine ⟨hchannel, mem_messaging.2 ⟨?_, huser, ?_, hweb⟩⟩
  · rw [if_neg hother]
    exact hr'
  · rw [if_neg hother]
    exact henabled

end Db

/-! ## Preservation -/

section

variable {db db' : Db} {userId channel : Str}

theorem single_of {u : User} (hone : ∀ r ∈ db.messaging u.id, ∀ s ∈ db.messaging u.id, r = s)
    (hpreferred : ∀ r ∈ db.messaging u.id, r.channel = u.preferredChannel) : Single db u :=
  ⟨length_le_one (db.nodup_messaging _) hone, hpreferred⟩

/-- active routes that were active before -/
theorem Single.mono {u u' : User} (h : Single db u) (hid : u'.id = u.id) (hpreferred : u'.preferredChannel = u.preferredChannel)
    (hsub : ∀ r ∈ db'.messaging u.id, r ∈ db.messaging u.id) : Single db' u' := by
  refine single_of (fun r hr s hs => ?_) fun r hr => ?_
  · rw [hid] at hr hs
    exact eq_of_length_le_one h.one (hsub r hr) (hsub s hs)
  · rw [hid] at hr
    rw [hpreferred]
    exact h.preferred r (hsub r hr)

/-- the invariant, for an operation that writes to one user and the user's routes -/
theorem inv_of (h : Inv db) (userId : Str) (husers : ∀ u ∈ db'.users, u.id ≠ userId → u ∈ db.users)
    (hroutes : ∀ r ∈ db'.routes, r.userId ≠ userId → r ∈ db.routes)
    (hown : ∀ u ∈ db'.users, u.id = userId → Single db' u) : Inv db' := by
  intro u hu
  by_cases hid : u.id = userId
  · exact hown u hu hid
  · refine (h u (husers u hu hid)).mono rfl rfl fun r hr => ?_
    obtain ⟨hr, hrid, hrest⟩ := Db.mem_messaging.1 hr
    exact Db.mem_messaging.2 ⟨hroutes r hr (hrid.trans_ne hid), hrid, hrest⟩

/-- the only active channel of a user is the preferred one, and has one route at most -/
theorem single_of_only {u : User} (hlen : (db.routesOf u.id channel).length ≤ 1)
    (honly : ∀ r ∈ db.messaging u.id, r.channel = channel) (hpreferred : u.preferredChannel = channel) : Single db u := by
  have hmem : ∀ r ∈ db.messaging u.id, r ∈ db.routesOf u.id channel := by
    intro r hr
    obtain ⟨hroute, hid, -⟩ := Db.mem_messaging.1 hr
    exact Db.mem_routesOf.2 ⟨hroute, hid, honly r hr⟩
  refine single_of (fun r hr s hs => eq_of_length_le_one hlen (hmem r hr) (hmem s hs)) fun r hr => ?_
  rw [hpreferred]
  exact honly r hr

/-- the users are the same, and no more routes are active -/
theorem inv_mono (h : Inv db) (husers : db'.users = db.users) (hsub : ∀ v, ∀ r ∈ db'.messaging v, r ∈ db.messaging v) :
    Inv db' := by
  intro u hu
  rw [husers] at hu
  exact (h u hu).mono rfl rfl (hsub u.id)

theorem inv_setPreferred (h : Inv db) (hfree : ∀ r ∈ db.messaging userId, r.channel = channel) :
    Inv (db.setPreferred userId channel) := by
  refine inv_of h userId (fun u hu hid => ?_) (fun r hr _ => hr) fun u hu hid => ?_
  · rcases Db.mem_setPreferred.1 hu with ⟨hu, -⟩ | ⟨u', -, hid', rfl⟩
    · exact hu
    · exact absurd hid' hid
  · rcases Db.mem_setPreferred.1 hu with ⟨-, hne⟩ | ⟨u', hu', hid', rfl⟩
    · exact absurd hid hne
    · refine ⟨(h u' hu').one, fun r hr => ?_⟩
      rw [← hid'] at hfree
      exact hfree r hr

theorem inv_setIdentifier (h : Inv db) (userId identifier : Str) : Inv (db.setIdentifier userId identifier) := by
  intro u hu
  obtain ⟨u', hu', hid, hpreferred⟩ := Db.mem_setIdentifier hu
  exact (h u' hu').mono hid.symm hpreferred.symm fun r hr => hr

theorem inv_deleteRoutes (h : Inv db) (p : ChannelRoute → Bool) : Inv (db.deleteRoutes p) := by
  refine inv_mono h rfl fun v r hr => ?_
  obtain ⟨hr, hrest⟩ := Db.mem_messaging.1 hr
  exact Db.mem_messaging.2 ⟨(Db.mem_deleteRoutes.1 hr).1, hrest⟩

theorem inv_disable (h : Inv db) (userId channel : Str) : Inv (db.setEnabled userId channel false) := by
  refine inv_mono h rfl fun v r hr => ?_
  obtain ⟨hr, hid, henabled, hweb⟩ := Db.mem_messaging.1 hr
  obtain ⟨r', hr', rfl⟩ := Db.mem_mapEnabled.1 hr
  dsimp only at hid henabled hweb ⊢
  split_ifs at henabled with hown
  rw [if_neg hown]
  exact Db.mem_messaging.2 ⟨hr', hid, henabled, hweb⟩

theorem inv_realign {user : User} (h : Inv db) (hr : realignPreferredChannel db user = some db') : Inv db' := by
  unfold realignPreferredChannel at hr
  split at hr
  · cases hr
  · obtain rfl := Option.some.inj hr
    exact h
  · split at hr
    · cases hr
    · obtain rfl := Option.some.inj hr
      exact h
    · rename_i fallback hfallback
      obtain rfl := Option.some.inj hr
      have honly := scalarOneOrNone_some hfallback
      refine inv_setPreferred h fun r hr => ?_
      rw [honly] at hr
      rw [List.mem_singleton.1 hr]

/-! ## The operations -/

/-- the write that disables the other channels leaves the routes of this one -/
theorem routesOf_disableOthers (db : Db) (userId channel : Str) :
    (db.disableOthers userId channel).routesOf userId channel = db.routesOf userId channel := by
  rw [Db.disableOthers, Db.routesOf_mapEnabled]
  refine (List.map_congr_left fun r hr => ?_).trans (List.map_id _)
  obtain ⟨-, -, hchannel⟩ := Db.mem_routesOf.1 hr
  rw [if_neg fun h => h.2.1 hchannel]
  rfl

/-- a channel with one route at most is made the active one: the user has one active channel -/
theorem inv_activate (h : ∀ u ∈ db.users, u.id ≠ userId → Single db u) (hlen : (db.routesOf userId channel).length ≤ 1)
    (honly : ∀ r ∈ db.messaging userId, r.channel = channel) : Inv (db.setPreferred userId channel) := by
  intro u hu
  rcases Db.mem_setPreferred.1 hu with ⟨hu, hne⟩ | ⟨u', hu', rfl, rfl⟩
  · exact (h u hu hne).mono rfl rfl fun r hr => hr
  · exact single_of_only hlen honly rfl

/-- and it is the active one, if its route is enabled -/
theorem active_iff {r : ChannelRoute} (hroute : db.routesOf userId channel = [r])
    (honly : ∀ r ∈ db.messaging userId, r.channel = channel) :
    Active (db.setPreferred userId channel) userId channel ↔ r.enabled = true := by
  constructor
  · rintro ⟨⟨r', hr', henabled⟩, -, -⟩
    obtain rfl : r = r' := List.singleton_injective (hroute.symm.trans hr')
    exact henabled
  · intro henabled
    refine ⟨⟨r, hroute, henabled⟩, honly, fun u hu hid => ?_⟩
    rcases Db.mem_setPreferred.1 hu with ⟨-, hne⟩ | ⟨u', -, -, rfl⟩
    · exact absurd hid hne
    · rfl

/-- a write to the routes of one user leaves the others as they are -/
theorem single_others (h : Inv db) (husers : db'.users = db.users)
    (hothers : ∀ r ∈ db'.routes, r.userId ≠ userId → r ∈ db.routes) : ∀ u ∈ db'.users, u.id ≠ userId → Single db' u := by
  intro u hu hne
  refine (h u (husers ▸ hu)).mono rfl rfl fun r hr => ?_
  obtain ⟨hr, hid, hrest⟩ := Db.mem_messaging.1 hr
  exact Db.mem_messaging.2 ⟨hothers r hr (hid.trans_ne hne), hid, hrest⟩

theorem others_disableOthers {r : ChannelRoute} (hr : r ∈ (db.disableOthers userId channel).routes)
    (hne : r.userId ≠ userId) : r ∈ db.routes := by
  obtain ⟨r', hr', rfl⟩ := Db.mem_mapEnabled.1 hr
  rw [if_neg fun h => hne h.1]
  exact hr'

/-- what linking writes: the channel has one route, enabled if it is new or was enabled -/
theorem linked_spec {linked : Db} {identifier : Str} (h : (match scalarOneOrNone (db.routesOf userId channel) with
      | none => none
      | some (some _) => db.setRouteIdentifier userId channel identifier
      | some none => db.addRoute ⟨userId, channel, identifier, true⟩) = some linked) :
    linked.users = db.users ∧ (∀ r ∈ linked.routes, r.userId ≠ userId → r ∈ db.routes) ∧
      ∃ r, linked.routesOf userId channel = [r] ∧
        (r.enabled = true ↔ ∀ r' ∈ db.routesOf userId channel, r'.enabled = true) := by
  split at h
  · cases h
  · rename_i r hr
    obtain ⟨husers, hroutes⟩ := Db.writeRoutes_some h
    have hone := scalarOneOrNone_some hr
    refine ⟨husers, fun r hr hne => ?_, { r with channelIdentifier := identifier }, ?_, ?_⟩
    · rw [hroutes] at hr
      obtain ⟨r', hr', rfl⟩ := List.mem_map.1 hr
      split_ifs at hne ⊢ with hown
      · exact absurd hown.1 hne
      · exact hr'
    · have hmap : linked.routesOf userId channel =
          (db.routesOf userId channel).map fun r => { r with channelIdentifier := identifier } := by
        rw [Db.routesOf, hroutes, List.filter_map, Db.routesOf]
        have hsame : ((fun r : ChannelRoute => decide (r.userId = userId ∧ r.channel = channel)) ∘ fun r =>
            if r.userId = userId ∧ r.channel = channel then { r with channelIdentifier := identifier } else r) =
            fun r => decide (r.userId = userId ∧ r.channel = channel) := by
          funext r
          simp only [Function.comp_apply]
          split_ifs <;> rfl
        rw [hsame]
        exact List.map_congr_left fun r hr => if_pos (by simpa using (List.mem_filter.1 hr).2)
      rw [hmap, hone]
      rfl
    · rw [hone]
      simp
  · rename_i hr
    obtain ⟨husers, hroutes⟩ := Db.writeRoutes_some h
    have hnone := scalarOneOrNone_some hr
    refine ⟨husers, fun r hr hne => ?_, ⟨userId, channel, identifier, true⟩, ?_, ?_⟩
    · rw [hroutes] at hr
      rcases List.mem_append.1 hr with hr | hr
      · exact hr
      · rw [List.mem_singleton.1 hr] at hne
        exact absurd rfl hne
    · have hfilter : db.routes.filter (fun r => decide (r.userId = userId ∧ r.channel = channel)) = [] := hnone
      rw [Db.routesOf, hroutes, List.filter_append, hfilter]
      simp
    · rw [hnone]
      simp

theorem setChannelLink_spec {identifier : Str} (h : Inv db) (hlink : setChannelLink db userId channel identifier = some db') :
    Inv db' ∧ (Active db' userId channel ↔ ∀ r ∈ db.routesOf userId channel, r.enabled = true) := by
  unfold setChannelLink at hlink
  split at hlink
  · cases hlink
  · split_ifs at hlink
    obtain ⟨linked, hlinked, rfl⟩ := Option.map_eq_some_iff.1 hlink
    obtain ⟨husers, hothers, r, hr, henabled⟩ := linked_spec hlinked
    have hroute := (routesOf_disableOthers linked userId channel).trans hr
    have honly : ∀ r ∈ (linked.disableOthers userId channel).messaging userId, r.channel = channel :=
      fun r hr => (Db.messaging_disableOthers hr).1
    refine ⟨inv_activate ?_ (by rw [hroute]; exact le_rfl) honly, (active_iff hroute honly).trans henabled⟩
    exact single_others h husers fun r hr hne => hothers r (others_disableOthers hr hne) hne

/-- a route that is added -/
theorem routesOf_addRoute {r : ChannelRoute} (h : db.addRoute r = some db') (hid : r.userId = userId)
    (hchannel : r.channel = channel) : db'.routesOf userId channel = db.routesOf userId channel ++ [r] := by
  obtain ⟨-, hroutes⟩ := Db.writeRoutes_some h
  rw [Db.routesOf, hroutes, List.filter_append]
  simp [Db.routesOf, hid, hchannel]

theorem mem_addRoute {r x : ChannelRoute} (h : db.addRoute r = some db') : x ∈ db'.routes ↔ x ∈ db.routes ∨ x = r := by
  rw [(Db.writeRoutes_some h).2, List.mem_append, List.mem_singleton]

/-- what a toggle that enables writes: the channel has one route at most, and it is enabled -/
theorem enabled_spec {written : Db} {identifier : Str} (hfree : ∀ r ∈ db.messaging userId, r.channel = channel)
    (h : (match scalarOneOrNone (db.routesOf userId channel) with
      | none => none
      | some (some _) => some (db.setEnabled userId channel true)
      | some none => if identifier = [] then some db else db.addRoute ⟨userId, channel, identifier, true⟩) = some written) :
    written.users = db.users ∧ (∀ r ∈ written.routes, r.userId ≠ userId → r ∈ db.routes) ∧
      (∀ r ∈ written.messaging userId, r.channel = channel) ∧
      (written.routesOf userId channel = [] ∨ ∃ r, written.routesOf userId channel = [r] ∧ r.enabled = true) := by
  split at h
  · cases h
  · rename_i r hr
    obtain rfl := Option.some.inj h
    refine ⟨rfl, fun r hr hne => ?_, fun r hr => ?_, Or.inr ⟨{ r with enabled := true }, ?_, rfl⟩⟩
    · obtain ⟨r', hr', rfl⟩ := Db.mem_mapEnabled.1 hr
      rw [if_neg fun hown => hne hown.1]
      exact hr'
    · obtain ⟨hr, hid, henabled, hweb⟩ := Db.mem_messaging.1 hr
      obtain ⟨r', hr', rfl⟩ := Db.mem_mapEnabled.1 hr
      dsimp only at hid henabled hweb ⊢
      split_ifs at henabled with hown
      · exact hown.2
      · exact hfree r' (Db.mem_messaging.2 ⟨hr', hid, henabled, hweb⟩)
    · have hmem : r ∈ db.routesOf userId channel := by
        rw [scalarOneOrNone_some hr]
        exact List.mem_singleton_self r
      obtain ⟨-, hid, hchannel⟩ := Db.mem_routesOf.1 hmem
      rw [Db.setEnabled, Db.routesOf_mapEnabled, scalarOneOrNone_some hr]
      simp [hid, hchannel]
  · rename_i hr
    have hnone := scalarOneOrNone_some hr
    split_ifs at h
    · obtain rfl := Option.some.inj h
      exact ⟨rfl, fun r hr _ => hr, hfree, Or.inl hnone⟩
    · refine ⟨(Db.writeRoutes_some h).1, fun r hr hne => ?_, fun r hr => ?_, Or.inr ⟨⟨userId, channel, identifier, true⟩, ?_, rfl⟩⟩
      · rcases (mem_addRoute h).1 hr with hr | rfl
        · exact hr
        · exact absurd rfl hne
      · obtain ⟨hr, hrest⟩ := Db.mem_messaging.1 hr
        rcases (mem_addRoute h).1 hr with hr | rfl
        · exact hfree r (Db.mem_messaging.2 ⟨hr, hrest⟩)
        · rfl
      · rw [routesOf_addRoute h rfl rfl, hnone]
        rfl

/-- a toggle that disables, and a link that is removed, leave no more routes active and choose one that is -/
theorem inv_toggleOff {registered : List Str} (h : Inv db)
    (htoggle : updateChannelRoute registered db userId channel false = some db') : Inv db' := by
  unfold updateChannelRoute at htoggle
  by_cases hguard : channel = webchat ∨ channel ∉ registered
  · rw [if_pos hguard] at htoggle
    cases htoggle
  rw [if_neg hguard] at htoggle
  split at htoggle
  · cases htoggle
  · rename_i user huser
    obtain ⟨written, hwritten, hrealign⟩ := Option.bind_eq_some_iff.1 htoggle
    simp only [Bool.false_eq_true, if_false] at hwritten hrealign
    refine inv_realign ?_ hrealign
    split at hwritten
    · cases hwritten
    · obtain rfl := Option.some.inj hwritten
      exact inv_disable h userId channel
    · split_ifs at hwritten
      · obtain rfl := Option.some.inj hwritten
        exact h
      · refine inv_mono h (Db.writeRoutes_some hwritten).1 fun v r hr => ?_
        obtain ⟨hr, hid, henabled, hweb⟩ := Db.mem_messaging.1 hr
        rcases (mem_addRoute hwritten).1 hr with hr | rfl
        · exact Db.mem_messaging.2 ⟨hr, hid, henabled, hweb⟩
        · cases henabled

theorem inv_unlink (h : Inv db) (hunlink : removeChannelLink db userId channel = some db') : Inv db' := by
  unfold removeChannelLink at hunlink
  split at hunlink
  · cases hunlink
  · exact inv_realign (inv_deleteRoutes h _) hunlink

theorem toggleOn_spec {registered : List Str} (h : Inv db)
    (htoggle : updateChannelRoute registered db userId channel true = some db') :
    Inv db' ∧ (db'.routesOf userId channel ≠ [] → Active db' userId channel) := by
  unfold updateChannelRoute at htoggle
  by_cases hguard : channel = webchat ∨ channel ∉ registered
  · rw [if_pos hguard] at htoggle
    cases htoggle
  rw [if_neg hguard] at htoggle
  split at htoggle
  · cases htoggle
  · obtain ⟨written, hwritten, hdone⟩ := Option.bind_eq_some_iff.1 htoggle
    simp only [if_true] at hwritten hdone
    obtain rfl := Option.some.inj hdone
    obtain ⟨husers, hothers, honly, hroutes⟩ :=
      enabled_spec (fun r hr => (Db.messaging_disableOthers hr).1) hwritten
    have hsingle := single_others h husers fun r hr hne => others_disableOthers (hothers r hr hne) hne
    rcases hroutes with hnil | ⟨r, hr, henabled⟩
    · exact ⟨inv_activate hsingle (by rw [hnil]; exact Nat.zero_le 1) honly, fun hne => absurd hnil hne⟩
    · exact ⟨inv_activate hsingle (by rw [hr]; exact le_rfl) honly, fun _ => (active_iff hr honly).2 henabled⟩

/-! ## Inbound messages -/

/-- a sender who is not routed: no row has the sender's key -/
theorem route?_of_sender {mode : AuthMode} {senderId : Str}
    (h : ∀ route user, db.sender mode channel senderId ≠ .routed route user) : db.route? channel senderId = none := by
  by_contra hne
  obtain ⟨route, hroute⟩ := Option.ne_none_iff_exists'.1 hne
  obtain ⟨u, hu, hid⟩ := List.mem_map.1 (db.owned route (List.mem_of_find?_eq_some hroute))
  obtain ⟨user, huser⟩ : ∃ user, db.user? route.userId = some user :=
    Option.isSome_iff_exists.1 (List.find?_isSome.2 ⟨u, hu, by simp [hid]⟩)
  refine h route user ?_
  unfold Db.sender
  rw [hroute, Option.bind_some, huser]
  rfl

theorem sender_routed {mode : AuthMode} {senderId : Str} {route : ChannelRoute} {user : User}
    (h : db.sender mode channel senderId = .routed route user) :
    route ∈ db.routes ∧ route.channel = channel ∧ route.userId = user.id ∧ user ∈ db.users := by
  unfold Db.sender at h
  split at h
  · rename_i route' user' heq
    obtain ⟨rfl, rfl⟩ := Sender.routed.inj h
    obtain ⟨r, hr, huser⟩ := Option.bind_eq_some_iff.1 heq
    obtain ⟨u, hu, hpair⟩ := Option.map_eq_some_iff.1 huser
    obtain ⟨rfl, rfl⟩ := Prod.mk.inj hpair
    have hkey : r.key = (channel, senderId) := by simpa using List.find?_some hr
    obtain ⟨hmem, hid⟩ := Db.user?_some hu
    exact ⟨List.mem_of_find?_eq_some hr, (Prod.mk.inj hkey).1, hid.symm, hmem⟩
  · split at h
    · cases h
    · split at h <;> cases h

theorem sender_user {mode : AuthMode} {senderId : Str} {user : User}
    (h : db.sender mode channel senderId = .reused user ∨ db.sender mode channel senderId = .known user) :
    user ∈ db.users ∧ db.route? channel senderId = none := by
  constructor
  · unfold Db.sender at h
    split at h
    · rcases h with h | h <;> cases h
    · split at h
      · rename_i only heq
        rcases h with h | h
        · obtain rfl := Sender.reused.inj h
          rw [heq]
          exact List.mem_singleton_self _
        · cases h
      · split at h
        · rename_i found hfound
          rcases h with h | h
          · cases h
          · obtain rfl := Sender.known.inj h
            exact (Db.user?_some hfound).1
        · rcases h with h | h <;> cases h
  · exact route?_of_sender fun route' user' heq => by rcases h with h | h <;> rw [heq] at h <;> cases h

theorem inv_routed {mode : AuthMode} {senderId newId : Str} {route : ChannelRoute} {user : User} (h : Inv db)
    (hs : db.sender mode channel senderId = .routed route user)
    (hg : getOrCreateUser mode db channel senderId newId = some db') : Inv db' := by
  obtain ⟨hroute, hchannel, hid, huser⟩ := sender_routed hs
  simp only [getOrCreateUser, hs, Option.some.injEq] at hg
  have hmoved : Inv (if user.preferredChannel ≠ channel ∧ route.enabled = true ∧ channel ≠ webchat then
      db.setPreferred user.id channel else db) := by
    split_ifs with hmove
    · -- the route of the message is the one that is active
      refine inv_setPreferred h fun r hr => ?_
      have hactive : route ∈ db.messaging user.id :=
        Db.mem_messaging.2 ⟨hroute, hid, hmove.2.1, by rw [hchannel]; exact hmove.2.2⟩
      rw [eq_of_length_le_one (h user huser).one hr hactive]
      exact hchannel
    · exact h
  generalize (if user.preferredChannel ≠ channel ∧ route.enabled = true ∧ channel ≠ webchat then
      db.setPreferred user.id channel else db) = moved at hg hmoved
  have hcleaned := inv_deleteRoutes hmoved (stale user channel senderId)
  rw [← hg]
  split_ifs
  · exact inv_setIdentifier hcleaned _ _
  · exact hcleaned

/-- the only user of the deployment gets the sender's channel, and it is the preferred one: which is right when no other one
is active -/
theorem reused_iff {mode : AuthMode} {senderId newId : Str} {user : User} (h : Inv db)
    (hs : db.sender mode channel senderId = .reused user)
    (hg : getOrCreateUser mode db channel senderId newId = some db') : Inv db' ↔ db.Free user channel := by
  obtain ⟨huser, hnone⟩ := sender_user (Or.inl hs)
  simp only [getOrCreateUser, hs] at hg
  obtain ⟨added, hadded, rfl⟩ := Option.map_eq_some_iff.1 hg
  obtain ⟨husers, -⟩ := Db.writeRoutes_some hadded
  -- what is active now: the new route, and the active routes of other channels
  have hmem : ∀ r, r ∈ added.messaging user.id ↔ (r ∈ db.messaging user.id ∧ r.channel ≠ channel) ∨
      (r = ⟨user.id, channel, senderId, true⟩ ∧ channel ≠ webchat) := by
    intro r
    rw [Db.mem_messaging, mem_addRoute hadded, Db.mem_deleteRoutes, Db.mem_messaging]
    constructor
    · rintro ⟨⟨hr, hstale⟩ | rfl, hid, henabled, hweb⟩
      · refine Or.inl ⟨⟨hr, hid, henabled, hweb⟩, fun hchannel => ?_⟩
        have hidentifier : r.channelIdentifier = senderId := by simpa [stale, hid, hchannel] using hstale
        have hfound := List.find?_eq_none.1 hnone r hr
        simp [ChannelRoute.key, hchannel, hidentifier] at hfound
      · exact Or.inr ⟨rfl, hweb⟩
    · rintro (⟨⟨hr, hid, henabled, hweb⟩, hchannel⟩ | ⟨rfl, hweb⟩)
      · exact ⟨Or.inl ⟨hr, by simp [stale, hchannel]⟩, hid, henabled, hweb⟩
      · exact ⟨Or.inr rfl, rfl, rfl, hweb⟩
  have hsetter : ∀ u ∈ ((added.setIdentifier user.id senderId).setPreferred user.id channel).users, u.id = user.id →
      u.preferredChannel = channel := by
    intro u hu hid
    rcases Db.mem_setPreferred.1 hu with ⟨-, hne⟩ | ⟨u', -, -, rfl⟩
    · exact absurd hid hne
    · rfl
  constructor
  · intro hinv r hr
    by_contra hchannel
    -- the user's row is still there
    have huser' : user ∈ added.users := husers ▸ huser
    have hrow : { user with channelIdentifier := senderId } ∈ (added.setIdentifier user.id senderId).users :=
      List.mem_map.2 ⟨user, huser', if_pos rfl⟩
    have hrow' : { user with channelIdentifier := senderId, preferredChannel := channel } ∈
        ((added.setIdentifier user.id senderId).setPreferred user.id channel).users :=
      Db.mem_setPreferred.2 (Or.inr ⟨_, hrow, rfl, rfl⟩)
    exact hchannel ((hinv _ hrow').preferred r ((hmem r).2 (Or.inl ⟨hr, hchannel⟩)))
  · intro hfree
    have honly : ∀ r ∈ added.messaging user.id, r = ⟨user.id, channel, senderId, true⟩ := by
      intro r hr
      rcases (hmem r).1 hr with ⟨hr, hchannel⟩ | ⟨rfl, -⟩
      · exact absurd (hfree r hr) hchannel
      · rfl
    intro u hu
    by_cases hid : u.id = user.id
    · refine single_of (fun r hr s hs => ?_) fun r hr => ?_
      · rw [hid] at hr hs
        rw [honly r hr, honly s hs]
      · rw [hid] at hr
        rw [honly r hr, hsetter u hu hid]
    · rcases Db.mem_setPreferred.1 hu with ⟨hu, -⟩ | ⟨u', -, hid', rfl⟩
      · obtain ⟨u', hu', hid', hpreferred⟩ := Db.mem_setIdentifier hu
        refine (h u' (husers ▸ hu')).mono hid'.symm hpreferred.symm fun r hr => ?_
        obtain ⟨hr, hrid, hrest⟩ := Db.mem_messaging.1 hr
        rcases (mem_addRoute hadded).1 hr with hr | rfl
        · exact Db.mem_messaging.2 ⟨(Db.mem_deleteRoutes.1 hr).1, hrid, hrest⟩
        · exact absurd (hid'.symm.trans hrid.symm) hid
      · exact absurd hid' hid

/-- a user whose primary key is the sender's id gets one more enabled route -/
theorem known_iff {mode : AuthMode} {senderId newId : Str} {user : User} (h : Inv db)
    (hs : db.sender mode channel senderId = .known user)
    (hg : getOrCreateUser mode db channel senderId newId = some db') :
    Inv db' ↔ channel = webchat ∨ db.messaging user.id = [] ∧ user.preferredChannel = channel := by
  obtain ⟨huser, hnone⟩ := sender_user (Or.inr hs)
  simp only [getOrCreateUser, hs] at hg
  obtain ⟨husers, -⟩ := Db.writeRoutes_some hg
  have hmem : ∀ v r, r ∈ db'.messaging v ↔ r ∈ db.messaging v ∨
      (r = ⟨user.id, channel, senderId, true⟩ ∧ user.id = v ∧ channel ≠ webchat) := by
    intro v r
    rw [Db.mem_messaging, mem_addRoute hg, Db.mem_messaging]
    constructor
    · rintro ⟨hr | rfl, hrest⟩
      · exact Or.inl ⟨hr, hrest⟩
      · exact Or.inr ⟨rfl, hrest.1, hrest.2.2⟩
    · rintro (⟨hr, hrest⟩ | ⟨rfl, hid, hweb⟩)
      · exact ⟨Or.inl hr, hrest⟩
      · exact ⟨Or.inr rfl, hid, rfl, hweb⟩
  constructor
  · intro hinv
    by_cases hweb : channel = webchat
    · exact Or.inl hweb
    · have hsingle := hinv user (husers ▸ huser)
      have hnew := (hmem user.id ⟨user.id, channel, senderId, true⟩).2 (Or.inr ⟨rfl, rfl, hweb⟩)
      refine Or.inr ⟨List.eq_nil_iff_forall_not_mem.2 fun r hr => ?_, (hsingle.preferred _ hnew).symm⟩
      have heq := eq_of_length_le_one hsingle.one ((hmem user.id r).2 (Or.inl hr)) hnew
      rw [heq] at hr
      have hfound := List.find?_eq_none.1 hnone _ (Db.mem_messaging.1 hr).1
      simp [ChannelRoute.key] at hfound
  · rintro (hweb | ⟨hnil, hpreferred⟩)
    · exact inv_mono h husers fun v r hr => ((hmem v r).1 hr).resolve_right fun hnew => hnew.2.2 hweb
    · intro u hu
      rw [husers] at hu
      by_cases hid : u.id = user.id
      · obtain rfl := Db.eq_of_id hu huser hid
        have honly : ∀ r ∈ db'.messaging u.id, r = ⟨u.id, channel, senderId, true⟩ := by
          intro r hr
          rcases (hmem u.id r).1 hr with hr | ⟨rfl, -, -⟩
          · rw [hnil] at hr
            cases hr
          · rfl
        refine single_of (fun r hr s hs => (honly r hr).trans (honly s hs).symm) fun r hr => ?_
        rw [honly r hr, hpreferred]
      · refine (h u hu).mono rfl rfl fun r hr => ?_
        exact ((hmem u.id r).1 hr).resolve_right fun hnew => hid hnew.2.1.symm

/-- a stranger becomes a user with one route, or is a user already -/
theorem inv_stranger {mode : AuthMode} {senderId newId : Str} (h : Inv db)
    (hs : db.sender mode channel senderId = .stranger)
    (hg : getOrCreateUser mode db channel senderId newId = some db') : Inv db' := by
  simp only [getOrCreateUser, hs] at hg
  split_ifs at hg
  · obtain rfl := Option.some.inj hg
    exact h
  · obtain ⟨created, hcreated, hg⟩ := Option.bind_eq_some_iff.1 hg
    obtain ⟨husers, hroutes, hfresh⟩ := Db.addUser_some hcreated
    obtain ⟨husers', -⟩ := Db.writeRoutes_some hg
    intro u hu
    rw [husers', husers] at hu
    rcases List.mem_cons.1 hu with rfl | hu
    · -- no row was the new user's
      have honly : ∀ r ∈ db'.messaging newId, r = ⟨newId, channel, senderId, true⟩ := by
        intro r hr
        obtain ⟨hr, hid, -⟩ := Db.mem_messaging.1 hr
        rcases (mem_addRoute hg).1 hr with hr | rfl
        · rw [hroutes] at hr
          exact absurd (hid ▸ db.owned r hr) hfresh
        · rfl
      exact single_of (fun r hr s hs => (honly r hr).trans (honly s hs).symm) fun r hr => by rw [honly r hr]
    · refine (h u hu).mono rfl rfl fun r hr => ?_
      obtain ⟨hr, hid, hrest⟩ := Db.mem_messaging.1 hr
      rcases (mem_addRoute hg).1 hr with hr | rfl
      · exact Db.mem_messaging.2 ⟨hroutes ▸ hr, hid, hrest⟩
      · exact absurd (List.mem_map.2 ⟨u, hu, hid.symm⟩) hfresh

/-! ## Runs -/

theorem good_iff {mode : AuthMode} {registered : List Str} {op : Op} :
    Good mode registered db op ↔ ∀ db', exec mode registered db op = some db' → Inv db' ∧ op.Post db' := by
  refine forall₂_congr fun db' _ => ?_
  constructor
  · rintro ⟨hinv, hpost, -⟩
    exact ⟨hinv, hpost⟩
  · rintro ⟨hinv, hpost⟩
    refine ⟨hinv, hpost, fun u hu => ?_⟩
    rw [resolveHeartbeatRoute, Option.isSome_map]
    exact scalarOneOrNone_isSome.2 (hinv u hu).one

/-- an operation is good exactly when it fits -/
theorem good_iff_fits {mode : AuthMode} {registered : List Str} (h : Inv db) (op : Op) :
    Good mode registered db op ↔ Fits mode registered db op := by
  rw [good_iff]
  cases hexec : exec mode registered db op with
  | none => simp [Fits, hexec]
  | some db' =>
    simp only [Option.some.injEq, forall_eq', Fits, hexec, Option.isSome_some, true_imp_iff]
    cases op with
    | link userId channel identifier =>
      simp only [exec] at hexec
      split_ifs at hexec
      obtain ⟨hinv, hactive⟩ := setChannelLink_spec h hexec
      exact ⟨fun hpost => hactive.1 hpost.2, fun hfits => ⟨hinv, hactive.2 hfits⟩⟩
    | unlink userId channel =>
      simp only [exec] at hexec
      split_ifs at hexec
      exact ⟨fun _ => trivial, fun _ => ⟨inv_unlink h hexec, trivial⟩⟩
    | toggle userId channel enabled =>
      cases enabled with
      | false => exact ⟨fun _ => trivial, fun _ => ⟨inv_toggleOff h hexec, trivial⟩⟩
      | true => exact ⟨fun _ => trivial, fun _ => toggleOn_spec h hexec⟩
    | inbound channel senderId newId =>
      have hpost : (Op.inbound channel senderId newId).Post db' := trivial
      simp only [hpost, and_true, Op.Fits]
      cases hs : db.sender mode channel senderId with
      | routed route user => exact iff_of_true (inv_routed h hs hexec) trivial
      | reused user => exact reused_iff h hs hexec
      | known user => exact known_iff h hs hexec
      | stranger => exact iff_of_true (inv_stranger h hs hexec) trivial

theorem inv_step {mode : AuthMode} {registered : List Str} (h : Inv db) {op : Op} (hfits : Fits mode registered db op) :
    Inv (step mode registered db op) := by
  cases hexec : exec mode registered db op with
  | none =>
    rw [step, hexec]
    exact h
  | some db' =>
    rw [step, hexec]
    exact ((good_iff_fits h op).2 hfits db' hexec).1

/-- **One active channel.** A run from a database with the property is good in every state it reaches exactly when every
operation that succeeds fits. -/
theorem active_channel (mode : AuthMode) (registered : List Str) (db : Db) (h : Inv db) (ops : List Op) :
    Meets (step mode registered) (Good mode registered) db ops ↔ Meets (step mode registered) (Fits mode registered) db ops :=
  meets_iff (fun _ op h => good_iff_fits h op) (fun _ _ h hfits => inv_step h hfits) h

/-- users without routes have the property -/
theorem inv_start (h : db.routes = []) : Inv db := by
  intro u _
  have hnil : db.messaging u.id = [] := by simp [Db.messaging, h]
  exact ⟨by simp [hnil], by simp [hnil]⟩

end

/-! ## Two runs -/

/-- a user who signed up -/
def oneUser : Db where
  users := [⟨"u1".toList, "ann".toList, "telegram".toList, []⟩]
  routes := []
  ids := by decide
  userIds := by decide
  keys := by decide
  owned := by decide

def channels : List Str := webchat :: linkChannels

def linkTelegram : Op := .link "u1".toList "telegram".toList "7".toList

def linkLinq : Op := .link "u1".toList "linq".toList "+15550001".toList

/-- a route for each of two channels, one enabled after the other -/
theorem active_channel_twoLinks :
    Meets (step .multiUser channels) (Good .multiUser channels) oneUser
      [linkTelegram, linkLinq, .toggle "u1".toList "telegram".toList true, .inbound webchat "u1".toList [],
        .inbound "telegram".toList "7".toList [], .unlink "u1".toList "telegram".toList] :=
  (active_channel .multiUser channels oneUser (inv_start rfl) _).2 (by decide +kernel)

/-- two messages on two channels in a single-tenant deployment make the heartbeat's lookup raise; and a channel that is linked
again stays disabled -/
theorem silenced :
    let twoSenders : List Op := [.inbound "telegram".toList "7".toList [], .inbound "linq".toList "+15550001".toList []]
    let relinked : List Op := [linkTelegram, linkLinq, linkTelegram]
    (¬Meets (step .singleUser channels) (Good .singleUser channels) oneUser twoSenders ∧
      ((run (step .singleUser channels) oneUser twoSenders).users.map
        (resolveHeartbeatRoute channels (run (step .singleUser channels) oneUser twoSenders))) = [none]) ∧
    ¬Meets (step .multiUser channels) (Good .multiUser channels) oneUser relinked ∧
      (run (step .multiUser channels) oneUser relinked).messaging "u1".toList = [] := by
  have hfits : ∀ {mode : AuthMode} {ops : List Op}, Meets (step mode channels) (Good mode channels) oneUser ops →
      Meets (step mode channels) (Fits mode channels) oneUser ops := fun h =>
    (meets_iff (fun _ op h => good_iff_fits h op) (fun _ _ h hfits => inv_step h hfits) (inv_start rfl)).1 h
  refine ⟨⟨fun h => absurd (hfits h) (by decide +kernel), by decide +kernel⟩,
    fun h => absurd (hfits h) (by decide +kernel), by decide +kernel⟩

end Clawbolt.Channels

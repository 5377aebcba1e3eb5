/-
The channels of a user (routers/channels.py, routers/user_profile.py, channel_state.py, agent/heartbeat_routing.py and
`_get_or_create_user` of agent/ingestion.py): the rows of `channel_routes`, and the preferred channel of the user.

A database keeps its own constraints: the keys of users and routes are unique, and every route has a user. An operation that
raises (404, 409, more rows than `scalar_one_or_none` takes, a key that is taken) is none and leaves the database as it is.
When a route last heard from its sender is kept for the picker only, and left out.
-/
import Mathlib.Tactic
import Clawbolt.Core.Text

namespace Clawbolt.Channels

open Text (Str)

/-! ## Tables -/

structure User where
  id : Str
  userId : Str
  preferredChannel : Str
  channelIdentifier : Str
deriving DecidableEq, Repr

structure ChannelRoute where
  userId : Str
  channel : Str
  channelIdentifier : Str
  enabled : Bool
deriving DecidableEq, Repr

/-- `uq_channel_route` -/
def ChannelRoute.key (r : ChannelRoute) : Str × Str := (r.channel, r.channelIdentifier)

structure Db where
  users : List User
  routes : List ChannelRoute
  ids : (users.map User.id).Nodup
  userIds : (users.map User.userId).Nodup
  keys : (routes.map ChannelRoute.key).Nodup
  owned : ∀ r ∈ routes, r.userId ∈ users.map User.id

/-- the channel that cannot be pushed to -/
def webchat : Str := "webchat".toList

/-- `scalar_one_or_none`; none for more than one row -/
def scalarOneOrNone {α : Type} : List α → Option (Option α)
  | [] => some none
  | [a] => some (some a)
  | _ => none

namespace Db

variable (db : Db)

def user? (id : Str) : Option User := db.users.find? fun u => u.id = id

def route? (channel identifier : Str) : Option ChannelRoute := db.routes.find? fun r => r.key = (channel, identifier)

def routesOf (userId channel : Str) : List ChannelRoute :=
  db.routes.filter fun r => r.userId = userId ∧ r.channel = channel

/-- the enabled routes of a user that can be pushed to (`_fallback_select`, `_heartbeat_route_select`) -/
def messaging (userId : Str) : List ChannelRoute :=
  db.routes.filter fun r => r.userId = userId ∧ r.enabled = true ∧ r.channel ≠ webchat

/-! ## Writes -/

def mapUsers (f : User → User) (hid : ∀ u, (f u).id = u.id) (huserId : ∀ u, (f u).userId = u.userId) : Db where
  users := db.users.map f
  routes := db.routes
  ids := by
    rw [List.map_map, show User.id ∘ f = User.id from funext hid]
    exact db.ids
  userIds := by
    rw [List.map_map, show User.userId ∘ f = User.userId from funext huserId]
    exact db.userIds
  keys := db.keys
  owned := by
    rw [List.map_map, show User.id ∘ f = User.id from funext hid]
    exact db.owned

def setPreferred (userId channel : Str) : Db :=
  db.mapUsers (fun u => if u.id = userId then { u with preferredChannel := channel } else u)
    (fun u => by split_ifs <;> rfl) (fun u => by split_ifs <;> rfl)

def setIdentifier (userId identifier : Str) : Db :=
  db.mapUsers (fun u => if u.id = userId then { u with channelIdentifier := identifier } else u)
    (fun u => by split_ifs <;> rfl) (fun u => by split_ifs <;> rfl)

/-- an insert of a user; none when a key is taken -/
def addUser (u : User) : Option Db :=
  if h : (((u :: db.users).map User.id).Nodup ∧ ((u :: db.users).map User.userId).Nodup) then
    some ⟨u :: db.users, db.routes, h.1, h.2, db.keys, fun r hr => List.mem_cons_of_mem _ (db.owned r hr)⟩
  else none

/-- a write of the routes; none when a key is taken twice, or a route has no user -/
def writeRoutes (routes : List ChannelRoute) : Option Db :=
  if h : (routes.map ChannelRoute.key).Nodup ∧ ∀ r ∈ routes, r.userId ∈ db.users.map User.id then
    some ⟨db.users, routes, db.ids, db.userIds, h.1, h.2⟩
  else none

def addRoute (r : ChannelRoute) : Option Db := db.writeRoutes (db.routes ++ [r])

def setRouteIdentifier (userId channel identifier : Str) : Option Db :=
  db.writeRoutes (db.routes.map fun r =>
    if r.userId = userId ∧ r.channel = channel then { r with channelIdentifier := identifier } else r)

def mapEnabled (f : ChannelRoute → Bool) : Db where
  users := db.users
  routes := db.routes.map fun r => { r with enabled := f r }
  ids := db.ids
  userIds := db.userIds
  keys := by
    rw [List.map_map]
    exact db.keys
  owned := by
    intro r hr
    obtain ⟨r, hr', rfl⟩ := List.mem_map.1 hr
    exact db.owned r hr'

def setEnabled (userId channel : Str) (enabled : Bool) : Db :=
  db.mapEnabled fun r => if r.userId = userId ∧ r.channel = channel then enabled else r.enabled

/-- the update that disables all other non-webchat routes -/
def disableOthers (userId channel : Str) : Db :=
  db.mapEnabled fun r => if r.userId = userId ∧ r.channel ≠ channel ∧ r.channel ≠ webchat then false else r.enabled

def deleteRoutes (p : ChannelRoute → Bool) : Db where
  users := db.users
  routes := db.routes.filter fun r => !p r
  ids := db.ids
  userIds := db.userIds
  keys := db.keys.sublist (List.filter_sublist.map _)
  owned := fun r hr => db.owned r (List.mem_of_mem_filter hr)

end Db

/-! ## Operations -/

/-- `realign_preferred_channel_async` -/
def realignPreferredChannel (db : Db) (user : User) : Option Db :=
  match scalarOneOrNone ((db.messaging user.id).filter fun r => r.channel = user.preferredChannel) with
  | none => none
  | some (some _) => some db
  | some none =>
    match scalarOneOrNone (db.messaging user.id) with
    | none => none
    | some none => some db
    | some (some fallback) => some (db.setPreferred user.id fallback.channel)

/-- the channels that the link endpoints pass on -/
def linkChannels : List Str := ["telegram".toList, "linq".toList, "bluebubbles".toList, "twilio".toList]

/-- `_set_channel_link` -/
def setChannelLink (db : Db) (userId channel identifier : Str) : Option Db :=
  match db.user? userId with
  | none => none
  | some _ =>
    if db.routes.any fun r => decide (r.key = (channel, identifier) ∧ r.userId ≠ userId) then none
    else
      let linked :=
        match scalarOneOrNone (db.routesOf userId channel) with
        | none => none
        | some (some _) => db.setRouteIdentifier userId channel identifier
        | some none => db.addRoute ⟨userId, channel, identifier, true⟩
      linked.map fun db => (db.disableOthers userId channel).setPreferred userId channel

/-- `_remove_channel_link` -/
def removeChannelLink (db : Db) (userId channel : Str) : Option Db :=
  match db.user? userId with
  | none => none
  | some user =>
    realignPreferredChannel (db.deleteRoutes fun r => decide (r.userId = userId ∧ r.channel = channel)) user

/-- `update_channel_route`, with the channels that are registered -/
def updateChannelRoute (registered : List Str) (db : Db) (userId channel : Str) (enabled : Bool) : Option Db :=
  if channel = webchat ∨ channel ∉ registered then none
  else
    match db.user? userId with
    | none => none
    | some user =>
      let db := if enabled then db.disableOthers userId channel else db
      let written :=
        match scalarOneOrNone (db.routesOf userId channel) with
        | none => none
        | some (some _) => some (db.setEnabled userId channel enabled)
        | some none =>
          if user.channelIdentifier = [] then some db
          else db.addRoute ⟨userId, channel, user.channelIdentifier, enabled⟩
      written.bind fun db =>
        if enabled then some (db.setPreferred userId channel) else realignPreferredChannel db user

inductive AuthMode where
  | singleUser
  | multiUser
deriving DecidableEq, Repr

/-- what an inbound message resolves to, in the order in which `_get_or_create_user` looks -/
inductive Sender where
  | routed (route : ChannelRoute) (user : User)
  /-- the only user, of a single-tenant deployment -/
  | reused (user : User)
  /-- the sender's id is the user's primary key -/
  | known (user : User)
  | stranger

def Db.sender (db : Db) (mode : AuthMode) (channel senderId : Str) : Sender :=
  match (db.route? channel senderId).bind fun route => (db.user? route.userId).map fun user => (route, user) with
  | some (route, user) => .routed route user
  | none =>
    match mode, db.users with
    | .singleUser, [user] => .reused user
    | _, _ =>
      match db.user? senderId with
      | some user => .known user
      | none => .stranger

/-- the routes of the user on the channel that have another identifier -/
def stale (user : User) (channel senderId : Str) (r : ChannelRoute) : Bool :=
  decide (r.userId = user.id ∧ r.channel = channel ∧ r.channelIdentifier ≠ senderId)

/-- `_get_or_create_user`; `newId` is the primary key for a new user. A stranger whose `user_id` is taken is the user who has
it: the insert fails, and the handler looks the user up. -/
def getOrCreateUser (mode : AuthMode) (db : Db) (channel senderId newId : Str) : Option Db :=
  match db.sender mode channel senderId with
  | .routed route user =>
    let moved := if user.preferredChannel ≠ channel ∧ route.enabled = true ∧ channel ≠ webchat then
      db.setPreferred user.id channel else db
    let cleaned := moved.deleteRoutes (stale user channel senderId)
    some (if db.routes.any (stale user channel senderId) then cleaned.setIdentifier user.id senderId else cleaned)
  | .reused user =>
    ((db.deleteRoutes (stale user channel senderId)).addRoute ⟨user.id, channel, senderId, true⟩).map fun db =>
      (db.setIdentifier user.id senderId).setPreferred user.id channel
  | .known user => db.addRoute ⟨user.id, channel, senderId, true⟩
  | .stranger =>
    let userId := channel ++ "_".toList ++ senderId
    if userId ∈ db.users.map User.userId then some db
    else (db.addUser ⟨newId, userId, channel, senderId⟩).bind fun db => db.addRoute ⟨newId, channel, senderId, true⟩

/-- `resolve_heartbeat_route_async`; none when the lookup raises -/
def resolveHeartbeatRoute (registered : List Str) (db : Db) (user : User) : Option (Option ChannelRoute) :=
  (scalarOneOrNone (db.messaging user.id)).map fun route => route.filter fun r => r.channel ∈ registered

/-! ## Runs -/

inductive Op where
  | link (userId channel identifier : Str)
  | unlink (userId channel : Str)
  | toggle (userId channel : Str) (enabled : Bool)
  | inbound (channel senderId newId : Str)
deriving DecidableEq, Repr

section

variable (mode : AuthMode) (registered : List Str)

/-- the database after an operation that succeeds -/
def exec (db : Db) : Op → Option Db
  | .link userId channel identifier =>
    if channel ∈ linkChannels then setChannelLink db userId channel identifier else none
  | .unlink userId channel => if channel ∈ linkChannels then removeChannelLink db userId channel else none
  | .toggle userId channel enabled => updateChannelRoute registered db userId channel enabled
  | .inbound channel senderId newId => getOrCreateUser mode db channel senderId newId

def step (db : Db) (op : Op) : Db := (exec mode registered db op).getD db

end

end Clawbolt.Channels

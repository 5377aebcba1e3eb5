/-
The workspace documents that a turn shows (`render_workspace_updates` and `append_workspace_updates` of
agent/system_prompt.py, `_remember` and `WorkspaceTurn` of agent/prompt_epoch.py).

`_SNAPSHOTS` maps users to entries that the turns hold too, so the entries are objects here, and the store and the turns
name them. `difflib.unified_diff` on the lines of two texts is a parameter. A world has the store of a process and the
turn each user is in; a restart loses both. Other users' turns push a user's entry out of the store.
-/
import Mathlib.Tactic
import Clawbolt.Core.Deltas
import Clawbolt.Core.Runs
import Clawbolt.History.Epoch

namespace Clawbolt.Workspace

open Text (Str)
open History (AgentMessage PromptEpoch)

/-! ## Updates -/

structure WorkspaceSnapshot where
  soul : Str
  user : Str
  memory : Str
deriving DecidableEq, Repr

/-- the lines of `difflib.unified_diff` of the lines of two texts, with its header -/
abbrev UnifiedDiff := Str → Str → List Str

/-- `_describe_change` -/
def describeChange (diff : UnifiedDiff) (filename old new : Str) : Str :=
  let body := Text.join "\n".toList ((diff old new).drop 2)
  let delta := filename ++ (" changed since it was last shown above. Apply this diff to it (\"-\" removed, \"+\" added, " ++
    "\" \" unchanged context):\n").toList ++ body
  if delta.length < new.length then delta
  else filename ++ " changed since it was last shown above. It now reads:\n".toList ++ new

/-- the change of one document, if it has changed -/
def changeOf (diff : UnifiedDiff) (filename : String) (old new : Str) : List Str :=
  if old ≠ new then [describeChange diff filename.toList old new] else []

/-- `render_workspace_updates` -/
def renderWorkspaceUpdates (diff : UnifiedDiff) (shown live : WorkspaceSnapshot) : Str :=
  Text.join "\n\n".toList (changeOf diff "SOUL.md" shown.soul live.soul ++ changeOf diff "USER.md" shown.user live.user ++
    changeOf diff "MEMORY.md" shown.memory live.memory)

/-- `append_workspace_updates` -/
def appendWorkspaceUpdates (text updates : Str) : Str :=
  if updates = [] then text
  else
    let section_ := "## Workspace Updates\n".toList ++ updates
    if text = [] then section_ else text ++ "\n\n".toList ++ section_

/-! ## The entry of a user -/

/-- `_Delivery` -/
structure Delivery where
  seq : ℕ
  text : Str
  shown : WorkspaceSnapshot
deriving DecidableEq, Repr

/-- `_EpochWorkspace` -/
structure EpochWorkspace where
  key : ℕ
  snapshot : WorkspaceSnapshot
  deliveries : List Delivery
deriving DecidableEq, Repr

/-- the seqs of the user messages -/
def userSeqs (history : List AgentMessage) : List ℕ :=
  history.filterMap fun
    | .user _ seq => seq
    | _ => none

/-- `_seen` -/
def EpochWorkspace.seen (e : EpochWorkspace) (history : List AgentMessage) : ℕ :=
  (e.deliveries.takeWhile fun d => decide (d.seq ∈ userSeqs history)).length

/-- the documents after the first `seen` deliveries -/
def EpochWorkspace.shownAfter (e : EpochWorkspace) (seen : ℕ) : WorkspaceSnapshot :=
  if seen = 0 then e.snapshot
  else
    match e.deliveries[seen - 1]? with
    | some d => d.shown
    | none => e.snapshot

/-- `_updates` -/
def EpochWorkspace.updates (diff : UnifiedDiff) (e : EpochWorkspace) (live : WorkspaceSnapshot) (seen : ℕ) : Str :=
  renderWorkspaceUpdates diff (e.shownAfter seen) live

/-- `by_seq`: a later delivery on a row replaces an earlier one -/
def bySeq (laid : List (ℕ × Str)) (q : ℕ) : Option Str := laid.reverse.lookup q

/-- a message with the update of its row -/
def layOn (laid : List (ℕ × Str)) (m : AgentMessage) : AgentMessage :=
  match m with
  | .user content (some q) =>
    match bySeq laid q with
    | some text => .user (appendWorkspaceUpdates content text) (some q)
    | none => m
  | _ => m

/-- what `by_seq` is made of -/
def texts (ds : List Delivery) : List (ℕ × Str) := ds.map fun d => (d.seq, d.text)

structure WorkspaceView where
  history : List AgentMessage
  updates : Str
deriving DecidableEq, Repr

/-- `WorkspaceTurn.apply`: the view, and the entry after it -/
def EpochWorkspace.apply (diff : UnifiedDiff) (e : EpochWorkspace) (live : WorkspaceSnapshot) (turnSeq : Option ℕ)
    (history : List AgentMessage) : WorkspaceView × EpochWorkspace :=
  let seen := e.seen history
  let e := { e with deliveries := e.deliveries.take seen }
  let updates := e.updates diff live seen
  let view := ⟨history.map (layOn (texts e.deliveries)), updates⟩
  match turnSeq with
  | some q => if updates = [] then (view, e) else (view, { e with deliveries := e.deliveries ++ [⟨q, updates, live⟩] })
  | none => (view, e)

/-! ## The store -/

/-- `_SNAPSHOT_STORE_MAX` -/
def snapshotStoreMax : ℕ := 1024

/-- `WorkspaceTurn`: the entry it holds, by name -/
structure WorkspaceTurn where
  entry : ℕ
  live : WorkspaceSnapshot
  turnSeq : Option ℕ
deriving DecidableEq, Repr

structure World where
  objects : ℕ → EpochWorkspace
  /-- the name of the next entry -/
  next : ℕ
  /-- `_SNAPSHOTS`, oldest first -/
  snapshots : List (Str × ℕ)
  turns : Str → Option WorkspaceTurn

/-- a process that has just started -/
def World.start : World := ⟨fun _ => ⟨0, ⟨[], [], []⟩, []⟩, 0, [], fun _ => none⟩

/-- `move_to_end` of the user's entry, and the oldest entries out while there are too many -/
def touch (user : Str) (entry : ℕ) (snapshots : List (Str × ℕ)) : List (Str × ℕ) :=
  let moved := snapshots.filter (fun s => s.1 ≠ user) ++ [(user, entry)]
  moved.drop (moved.length - snapshotStoreMax)

/-- the stored entry of the user, if the epoch goes on with it -/
def World.kept (s : World) (user : Str) (epoch : PromptEpoch) : Option ℕ :=
  match s.snapshots.lookup user with
  | some i => if (s.objects i).key = epoch.key ∨ epoch.coldStart = false then some i else none
  | none => none

/-- `_remember`: the entry for the epoch, and the store after it -/
def World.remember (s : World) (user : Str) (epoch : PromptEpoch) (live : WorkspaceSnapshot) : ℕ × World :=
  match s.kept user epoch with
  | some i =>
    (i, { s with
      objects := Function.update s.objects i { s.objects i with key := epoch.key }
      snapshots := touch user i s.snapshots })
  | none =>
    (s.next, { s with
      objects := Function.update s.objects s.next ⟨epoch.key, live, []⟩
      next := s.next + 1
      snapshots := touch user s.next s.snapshots })

/-- `WorkspaceTurn(user_id, epoch, live)` -/
def World.begin_ (s : World) (user : Str) (epoch : PromptEpoch) (live : WorkspaceSnapshot) : World :=
  let (i, s) := s.remember user epoch live
  { s with turns := Function.update s.turns user (some ⟨i, live, epoch.turnSeq⟩) }

/-- `apply` of a turn -/
def World.apply (diff : UnifiedDiff) (s : World) (turn : WorkspaceTurn) (history : List AgentMessage) :
    WorkspaceView × World :=
  let (view, e) := (s.objects turn.entry).apply diff turn.live turn.turnSeq history
  (view, { s with objects := Function.update s.objects turn.entry e })

inductive Op where
  | begin_ (user : Str) (epoch : PromptEpoch) (live : WorkspaceSnapshot)
  | apply (user : Str) (history : List AgentMessage)
  | restart

/-- a user without a turn applies nothing -/
def World.step (diff : UnifiedDiff) (s : World) : Op → World
  | .begin_ user epoch live => s.begin_ user epoch live
  | .apply user history =>
    match s.turns user with
    | some turn => (s.apply diff turn history).2
    | none => s
  | .restart => { s with snapshots := [], turns := fun _ => none }

/-- the rows of the history are in order, and before the one that the turn answers -/
def InOrder (history : List AgentMessage) (turnSeq : Option ℕ) : Prop :=
  (userSeqs history).Pairwise (· < ·) ∧ ∀ t, turnSeq = some t → ∀ q ∈ userSeqs history, q < t

/-- the user applies only histories in order -/
def Legal (s : World) : Op → Prop
  | .apply user history => ∀ turn, s.turns user = some turn → InOrder history turn.turnSeq
  | _ => True

instance (history : List AgentMessage) (turnSeq : Option ℕ) : Decidable (InOrder history turnSeq) :=
  decidable_of_iff ((userSeqs history).Pairwise (· < ·) ∧ ∀ t ∈ turnSeq.toList, ∀ q ∈ userSeqs history, q < t)
    (by simp [InOrder])

instance (s : World) : (op : Op) → Decidable (Legal s op)
  | .apply user history =>
    decidable_of_iff (∀ turn ∈ (s.turns user).toList, InOrder history turn.turnSeq) (by simp [Legal])
  | .begin_ _ _ _ => inferInstanceAs (Decidable True)
  | .restart => inferInstanceAs (Decidable True)

end Clawbolt.Workspace

/-
Deleting an account (`delete_account` of services/user_deletion.py, `UserStore.update` of agent/user_db.py).

The caller's transaction archives the usage, deletes the quota rows and cancels the subscription, all at its commit, the last
step. The files go before that, and the user row is cleared in a transaction of its own that commits before it.

Results:
- `deleteAccount_whole`: deletion is all or nothing if and only if the step that fails comes before the first loss;
- `half_deleted`: the last commit fails.
-/
import Mathlib.Tactic
import Clawbolt.Core.Text

namespace Clawbolt.Accounts.Deletion

open Text (Str)

/-! ## Model -/

structure UsageQuota where
  messagesUsed : ℕ
  tokensUsed : ℕ
deriving DecidableEq, Repr

structure User where
  phone : Str
  soulText : Str
  userText : Str
  heartbeatText : Str
  onboardingComplete : Bool
  heartbeatOptIn : Bool
  isActive : Bool
deriving DecidableEq, Repr

structure Subscription where
  plan : Str
  status : Str
deriving DecidableEq, Repr

structure DeletedUserUsage where
  planAtDeletion : Str
  totalMessages : ℕ
  totalTokens : ℕ
deriving DecidableEq, Repr

/-- what is stored of a user, as others see it -/
structure Account where
  /-- the files of the user's directory, none without a directory -/
  files : Option (List Str)
  user : User
  quotas : List UsageQuota
  subscription : Option Subscription
  /-- the archive rows of the user -/
  archived : List DeletedUserUsage
deriving DecidableEq, Repr

/-- a call that can fail -/
inductive Step where
  | readQuotas
  | readPlan
  | removeFiles
  | deleteQuotas
  | readSubscription
  | readUser
  | commitUser
  | refreshUser
  | commit
deriving DecidableEq, Repr

/-- the row of `archive_usage` -/
def archiveUsage (a : Account) : DeletedUserUsage where
  planAtDeletion := (a.subscription.map Subscription.plan).getD "free".toList
  totalMessages := (a.quotas.map UsageQuota.messagesUsed).sum
  totalTokens := (a.quotas.map UsageQuota.tokensUsed).sum

/-- `cascade_delete_user_data`: the account, and whether the call returns; a removal that fails leaves the files in `left` -/
def cascadeDeleteUserData (fails : Bool) (left : List Str) (a : Account) : Account × Bool :=
  match a.files with
  | none => (a, true)
  | some files => if fails then ({ a with files := some (files.filter (· ∈ left)) }, false) else ({ a with files := none }, true)

/-- the fields that `delete_account` updates -/
def User.cleared (_ : User) : User := ⟨[], [], [], [], false, false, false⟩

/-- `UserStore.update`, with these fields -/
def updateUser (fails : Step → Bool) (a : Account) : Account × Bool :=
  if fails .readUser ∨ fails .commitUser then (a, false) else ({ a with user := a.user.cleared }, !fails .refreshUser)

/-- `delete_account`: the account afterwards -/
def deleteAccount (fails : Step → Bool) (left : List Str) (a : Account) : Account :=
  if fails .readQuotas ∨ fails .readPlan then a
  else
    let record := archiveUsage a
    match cascadeDeleteUserData (fails .removeFiles) left a with
    | (a, false) => a
    | (a, true) =>
      -- the caller's transaction is rolled back
      if fails .deleteQuotas ∨ fails .readSubscription then a
      else
        match updateUser fails a with
        | (a, false) => a
        | (a, true) =>
          if fails .commit then a
          else
            { a with
              quotas := []
              subscription := a.subscription.map fun sub => { sub with status := "canceled".toList }
              archived := a.archived ++ [record] }

/-! ## What is claimed -/

/-- the account is as it was -/
def Unchanged (a a' : Account) : Prop := a' = { a with files := a'.files } ∧ a'.files.getD [] = a.files.getD []

/-- the account is deleted -/
structure Deleted (a a' : Account) : Prop where
  files : a'.files = none
  user : a'.user.isActive = false ∧ a'.user.soulText = [] ∧ a'.user.userText = [] ∧ a'.user.heartbeatText = [] ∧ a'.user.phone = []
  quotas : a'.quotas = []
  subscription : a'.subscription = a.subscription.map fun sub => { sub with status := "canceled".toList }
  archived : a'.archived = a.archived ++ [archiveUsage a]

/-- nothing is lost before the call that fails, if one fails -/
def Harmless (fails : Step → Bool) (left : List Str) (a : Account) : Prop :=
  if fails .readQuotas ∨ fails .readPlan then True
  else if a.files ≠ none ∧ fails .removeFiles then ∀ f ∈ a.files.getD [], f ∈ left
  else if fails .deleteQuotas ∨ fails .readSubscription ∨ fails .readUser ∨ fails .commitUser then a.files.getD [] = []
  else if fails .refreshUser ∨ fails .commit then a.files.getD [] = [] ∧ a.user.cleared = a.user
  else True

/-! ## The deletion -/

/-- an account without a new archive row is not deleted -/
theorem not_deleted {a a' : Account} (h : a'.archived = a.archived) : ¬Deleted a a' := by
  intro hdeleted
  have hlength := congrArg List.length (h.symm.trans hdeleted.archived)
  rw [List.length_append, List.length_singleton] at hlength
  omega

theorem unchanged_files {a : Account} {files : Option (List Str)} :
    Unchanged a { a with files := files } ↔ files.getD [] = a.files.getD [] := by
  rw [Unchanged]
  exact and_iff_right rfl

theorem unchanged_cleared {a : Account} {files : Option (List Str)} :
    Unchanged a { a with files := files, user := a.user.cleared } ↔ files.getD [] = a.files.getD [] ∧ a.user.cleared = a.user := by
  rw [Unchanged, Account.mk.injEq]
  tauto

/-- the removal of the files -/
theorem cascadeDeleteUserData_eq (fails : Bool) (left : List Str) (a : Account) :
    cascadeDeleteUserData fails left a =
      if a.files ≠ none ∧ fails = true then ({ a with files := a.files.map (·.filter (· ∈ left)) }, false)
      else ({ a with files := none }, true) := by
  obtain ⟨files, user, quotas, subscription, archived⟩ := a
  cases files with
  | none => rfl
  | some files =>
    cases fails with
    | false => rfl
    | true => rfl

/-- **All or nothing.** For every account, calls that fail and files that a failing removal leaves. -/
theorem deleteAccount_whole (fails : Step → Bool) (left : List Str) (a : Account) :
    (Unchanged a (deleteAccount fails left a) ∨ Deleted a (deleteAccount fails left a)) ↔ Harmless fails left a := by
  have hnone : ∀ files : Option (List Str), Unchanged a { a with files := files } ∨ Deleted a { a with files := files } ↔
      files.getD [] = a.files.getD [] := by
    intro files
    have hnot : ¬Deleted a { a with files := files } := not_deleted rfl
    rw [or_iff_left hnot, unchanged_files]
  have hcleared : ∀ files : Option (List Str), Unchanged a { a with files := files, user := a.user.cleared } ∨
      Deleted a { a with files := files, user := a.user.cleared } ↔ files.getD [] = a.files.getD [] ∧ a.user.cleared = a.user := by
    intro files
    have hnot : ¬Deleted a { a with files := files, user := a.user.cleared } := not_deleted rfl
    rw [or_iff_left hnot, unchanged_cleared]
  rw [deleteAccount, Harmless]
  by_cases hreads : fails .readQuotas = true ∨ fails .readPlan = true
  · rw [if_pos hreads, if_pos hreads]
    exact iff_of_true (.inl ⟨rfl, rfl⟩) trivial
  rw [if_neg hreads, if_neg hreads]
  dsimp only
  rw [cascadeDeleteUserData_eq]
  by_cases hremoval : a.files ≠ none ∧ fails .removeFiles = true
  · -- some of the files are left
    rw [if_pos hremoval, if_pos hremoval]
    dsimp only
    rw [hnone]
    obtain ⟨files, hfiles⟩ := Option.ne_none_iff_exists'.1 hremoval.1
    rw [hfiles]
    simp only [Option.map_some, Option.getD_some, List.filter_eq_self, decide_eq_true_eq]
  rw [if_neg hremoval, if_neg hremoval]
  dsimp only
  by_cases hquotas : fails .deleteQuotas = true ∨ fails .readSubscription = true
  · have hearly : fails .deleteQuotas = true ∨ fails .readSubscription = true ∨ fails .readUser = true ∨ fails .commitUser = true := by
      tauto
    rw [if_pos hquotas, if_pos hearly, hnone]
    exact eq_comm
  rw [if_neg hquotas, updateUser]
  by_cases huser : fails .readUser = true ∨ fails .commitUser = true
  · have hearly : fails .deleteQuotas = true ∨ fails .readSubscription = true ∨ fails .readUser = true ∨ fails .commitUser = true := by
      tauto
    rw [if_pos huser, if_pos hearly]
    dsimp only
    rw [hnone]
    exact eq_comm
  have hearly : ¬(fails .deleteQuotas = true ∨ fails .readSubscription = true ∨ fails .readUser = true ∨ fails .commitUser = true) := by
    tauto
  rw [if_neg huser, if_neg hearly]
  cases hrefresh : fails .refreshUser with
  | true =>
    rw [if_pos (.inl rfl)]
    exact (hcleared none).trans (and_congr_left' eq_comm)
  | false =>
    show Unchanged a (if _ then _ else _) ∨ Deleted a (if _ then _ else _) ↔ _
    cases hcommit : fails .commit with
    | true =>
      rw [if_pos rfl, if_pos (.inr rfl)]
      exact (hcleared none).trans (and_congr_left' eq_comm)
    | false =>
      rw [if_neg Bool.false_ne_true, if_neg (by simp)]
      exact iff_of_true (.inr ⟨rfl, ⟨rfl, rfl, rfl, rfl, rfl⟩, rfl, rfl, rfl⟩) trivial

/-- a user with a file, a profile and a month of usage -/
def contractor : Account :=
  ⟨some [['f']], ⟨['1'], [], "Roofer.".toList, [], true, false, true⟩, [⟨12, 3400⟩], some ⟨"pro".toList, "active".toList⟩, []⟩

/-- **Half deleted.** The last commit fails: the files are gone, the texts are cleared and the account is not active, while
the quota rows and the subscription are there and no usage is archived. -/
theorem half_deleted :
    deleteAccount (fun step => step = .commit) [] contractor =
        ⟨none, contractor.user.cleared, [⟨12, 3400⟩], some ⟨"pro".toList, "active".toList⟩, []⟩ ∧
      ¬(Unchanged contractor (deleteAccount (fun step => step = .commit) [] contractor) ∨
        Deleted contractor (deleteAccount (fun step => step = .commit) [] contractor)) := by
  have heq : deleteAccount (fun step => step = .commit) [] contractor =
      ⟨none, contractor.user.cleared, [⟨12, 3400⟩], some ⟨"pro".toList, "active".toList⟩, []⟩ := by decide +kernel
  refine ⟨heq, ?_⟩
  rw [heq]
  rintro (h | h)
  · exact absurd h.2 (by decide)
  · exact absurd h.quotas (by decide)

end Clawbolt.Accounts.Deletion

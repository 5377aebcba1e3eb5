/-
Where the receipts go (`_truncate_block` of agent/tool_summary.py, `dispatch_reply_step` of agent/router.py).

A long block is cut to whole entries, and says how many it leaves out. The block goes under the text of the reply, on the one
branch that publishes this text: not when a tool has sent a reply, and not when the text is empty.

Results:
- `truncateBlock_cut`: what is left of a block;
- `tells_entry`: what the entry of a receipt says of it;
- `receipts_told`: the receipts of a turn are told if and only if the text of the reply is sent;
- `link_not_sent`: a link to connect an account, after a reply that a tool sent, and under an empty reply.
-/
import Clawbolt.Receipts.Render

namespace Clawbolt.Receipts

open Text (Str)

/-! ## Model -/

variable (env : Env)

/-- a tool has sent a reply -/
def sentReply (calls : List StoredToolInteraction) : Bool := calls.any fun call => call.sendsReply && !call.isError

/-- `dispatch_reply_step`: the contents of the messages that it publishes -/
def dispatchReply (channel requestId replyText : Str) (calls : List StoredToolInteraction) : List Str :=
  if channel = [] then []
  else if sentReply calls = false ∧ replyText ≠ [] then [appendReceipts env replyText calls]
  -- the page of the web chat waits for some answer
  else if sentReply calls = false ∧ replyText = [] ∧ requestId ≠ [] then [[]]
  else []

/-! ## What is claimed -/

/-- what an entry says of a receipt: all of it, or its verb and its link where it is shared -/
structure Tells (b : Bucket) (r : ToolReceipt) : Prop where
  entry : b.url = r.key ∧ r.line ∈ b.entries
  alone : b.entries = [r.line] → b.lines env = receiptLines env r.action r.target r.key
  verb : 2 ≤ b.entries.length → verbPhrase env r.action <:+: b.render env
  link : ∀ url, r.key = some url → indent ++ scrub (displayUrl env url) ∈ b.lines env

/-- a message has the entry of a receipt, or counts it among those that it leaves out -/
def Told (calls : List StoredToolInteraction) (r : ToolReceipt) (content : Str) : Prop :=
  ∃ b ∈ collect calls, Tells env b r ∧
    (b.render env <:+: content ∨ ∃ shown < (collect calls).length, b ∈ (collect calls).drop shown ∧
      moreSuffix ((collect calls).length - shown) <:+ content)

/-! ## The cut -/

section
variable {env}

theorem truncateFrom_cut (kept : List Str) (running : ℕ) (rest : List Str) : ∃ k ≤ rest.length,
    truncateFrom kept running rest =
      Text.join ['\n'] (kept ++ rest.take k) ++ if k = rest.length then [] else moreSuffix (rest.length - k) := by
  induction rest generalizing kept running with
  | nil => exact ⟨0, le_rfl, by simp [truncateFrom]⟩
  | cons line rest ih =>
    obtain ⟨running', hloop⟩ : ∃ running', truncateFrom kept running (line :: rest) =
        if running' + (moreSuffix (rest.length + 1)).length > maxReceiptsChars then
          Text.join ['\n'] kept ++ moreSuffix (rest.length + 1)
        else truncateFrom (kept ++ [line]) running' rest := ⟨_, rfl⟩
    rw [hloop]
    split_ifs
    · refine ⟨0, Nat.zero_le _, ?_⟩
      rw [if_neg (by simp), List.take_zero, List.append_nil]
      rfl
    · obtain ⟨k, hk, heq⟩ := ih (kept ++ [line]) running'
      refine ⟨k + 1, Nat.succ_le_succ hk, ?_⟩
      rw [heq, List.append_assoc, List.singleton_append, List.take_succ_cons, List.length_cons, Nat.add_sub_add_right]
      simp only [Nat.add_right_cancel_iff]

/-- **The cut.** Whole entries, from the first one on, and the number of the others. -/
theorem truncateBlock_cut (lines : List Str) : ∃ k ≤ lines.length,
    truncateBlock lines = Text.join ['\n'] (lines.take k) ++ if k = lines.length then [] else moreSuffix (lines.length - k) := by
  rw [truncateBlock]
  split_ifs
  · exact ⟨lines.length, le_rfl, by simp⟩
  · exact truncateFrom_cut [] 0 lines

/-! ## The entry of a receipt -/

theorem mem_collect {calls : List StoredToolInteraction} {r : ToolReceipt} (hr : r ∈ receipts calls) :
    ∃ b ∈ collect calls, b.url = r.key ∧ r.line ∈ b.entries := by
  obtain ⟨hshared, halone⟩ := collect_entries (calls.filterMap contributed)
  cases hkey : r.key with
  | none =>
    have hmem : r ∈ (receipts calls).filter (·.key = none) := List.mem_filter.2 ⟨hr, decide_eq_true hkey⟩
    have hbucket : (⟨none, [r.line]⟩ : Bucket) ∈ (collect calls).filter (·.url = none) := by
      rw [collect, halone]
      exact List.mem_map.2 ⟨r, hmem, rfl⟩
    exact ⟨_, List.mem_of_mem_filter hbucket, rfl, List.mem_singleton_self _⟩
  | some url =>
    have hmem : r ∈ (receipts calls).filter (·.key = some url) := List.mem_filter.2 ⟨hr, decide_eq_true hkey⟩
    have hbucket : (⟨some url, ((receipts calls).filter (·.key = some url)).map ToolReceipt.line⟩ : Bucket) ∈
        (collect calls).filter (·.url = some url) := by
      have hne : (calls.filterMap contributed).filter (·.key = some url) ≠ [] := List.ne_nil_of_mem hmem
      rw [collect, hshared url, if_neg hne]
      exact List.mem_singleton_self _
    exact ⟨_, List.mem_of_mem_filter hbucket, rfl, List.mem_map_of_mem hmem⟩

theorem part_of_groupVerb (subject : Str) (e : Line) : verbPhrase env e.1 <:+: groupVerb env subject e := by
  rw [groupVerb]
  split_ifs
  · simp only [List.append_assoc]
    exact (List.prefix_append _ _).isInfix
  · exact List.infix_refl _

theorem verb_of_group {entries : List Line} {subject url : Str} {e : Line} (he : e ∈ entries) :
    verbPhrase env e.1 <:+: Text.join ['\n'] (groupLines env entries subject url) := by
  by_cases hnil : groupVerb env subject e = []
  · have hverb : verbPhrase env e.1 <:+: groupVerb env subject e := part_of_groupVerb subject e
    rw [hnil, List.infix_nil] at hverb
    rw [hverb]
    exact List.nil_infix
  · have hmem : groupVerb env subject e ∈ (entries.map (groupVerb env subject)).filter (· ≠ []) :=
      List.mem_filter.2 ⟨List.mem_map_of_mem he, decide_eq_true hnil⟩
    have hline : indent ++ Text.join " · ".toList ((entries.map (groupVerb env subject)).filter (· ≠ [])) ∈
        groupLines env entries subject url := by
      rw [groupLines]
      refine List.mem_cons_of_mem _ (List.mem_append_left _ ?_)
      rw [if_neg (List.ne_nil_of_mem hmem)]
      exact List.mem_singleton_self _
    calc verbPhrase env e.1 <:+: groupVerb env subject e := part_of_groupVerb subject e
      _ <:+: Text.join " · ".toList ((entries.map (groupVerb env subject)).filter (· ≠ [])) := part_of_join _ hmem
      _ <:+: indent ++ Text.join " · ".toList ((entries.map (groupVerb env subject)).filter (· ≠ [])) :=
        (List.suffix_append _ _).isInfix
      _ <:+: _ := part_of_join _ hline

/-- **Entries.** -/
theorem tells_entry {calls : List StoredToolInteraction} {r : ToolReceipt} (hr : r ∈ receipts calls) :
    ∃ b ∈ collect calls, Tells env b r := by
  obtain ⟨b, hb, hurl, hline⟩ := mem_collect hr
  obtain ⟨url, entries⟩ := b
  dsimp only at hurl hline
  subst hurl
  refine ⟨_, hb, ⟨rfl, hline⟩, fun hone => ?_, fun hmany => ?_, fun url hkey => ?_⟩
  · dsimp only at hone
    subst hone
    unfold Bucket.lines
    cases hkey : r.key with
    | none => rfl
    | some url => rfl
  · dsimp only at hmany
    unfold Bucket.render Bucket.lines
    dsimp only
    split
    next e rest hkey =>
      obtain ⟨e', hone⟩ := (entries_of_mem hb).2 hkey
      dsimp only at hone
      rw [hone] at hmany
      exact absurd hmany (by simp)
    next => exact absurd hmany (by simp)
    next => exact verb_of_group (e := r.line) hline
    next => cases hline
  · unfold Bucket.lines
    dsimp only
    rw [hkey]
    split
    next h => cases h
    next url' e heq =>
      obtain rfl := Option.some.inj heq
      have hne : url ≠ [] := by
        obtain ⟨-, hne⟩ := Option.filter_eq_some_iff.1 hkey
        exact of_decide_eq_true hne
      rw [receiptLines, if_neg hne]
      exact List.mem_cons_of_mem _ (List.mem_singleton_self _)
    next url' _ heq _ =>
      obtain rfl := Option.some.inj heq
      rw [groupLines]
      exact List.mem_cons_of_mem _ (List.mem_append_right _ (List.mem_singleton_self _))
    next => cases hline

theorem rstrip_dash (t : Str) : Text.rstrip ('-' :: t) ≠ [] := by
  intro h
  rw [Text.rstrip, List.rdropWhile_eq_nil_iff] at h
  exact absurd (h '-' List.mem_cons_self) (by decide)

theorem render_ne_nil {calls : List StoredToolInteraction} {b : Bucket} (hb : b ∈ collect calls) : b.render env ≠ [] := by
  have hhead : ∃ t rest, b.lines env = Text.rstrip ('-' :: t) :: rest := by
    unfold Bucket.lines
    split
    next => exact ⟨_, _, rfl⟩
    next => exact ⟨_, _, rfl⟩
    next => exact ⟨_, _, rfl⟩
    next hnone => exact absurd hnone (entries_of_mem hb).1
  obtain ⟨t, rest, hlines⟩ := hhead
  intro hnil
  have hpart : Text.rstrip ('-' :: t) <:+: b.render env := part_of_join _ (by rw [hlines]; exact List.mem_cons_self)
  rw [hnil, List.infix_nil] at hpart
  exact rstrip_dash t hpart

/-- the block ends what `append_receipts` returns -/
theorem block_ends {replyText : Str} {calls : List StoredToolInteraction} (h : formatReceiptsBlock env calls ≠ []) :
    formatReceiptsBlock env calls <:+ appendReceipts env replyText calls := by
  rw [appendReceipts]
  dsimp only
  rw [if_neg h]
  split_ifs
  · exact List.suffix_refl _
  · exact List.suffix_append _ _

/-- an entry is in the block, or is counted under it -/
theorem told_of_block {replyText : Str} {calls : List StoredToolInteraction} {r : ToolReceipt} (hr : r ∈ receipts calls) :
    Told env calls r (appendReceipts env replyText calls) := by
  obtain ⟨b, hb, htells⟩ : ∃ b ∈ collect calls, Tells env b r := tells_entry hr
  have hlines : collectReceipts env calls ≠ [] := List.ne_nil_of_mem (List.mem_map_of_mem hb)
  obtain ⟨k, hk, hcut⟩ := truncateBlock_cut (collectReceipts env calls)
  have hblock : formatReceiptsBlock env calls = truncateBlock (collectReceipts env calls) := by
    rw [formatReceiptsBlock]
    exact if_neg hlines
  have hlength : (collectReceipts env calls).length = (collect calls).length := List.length_map _
  rw [hlength] at hk hcut
  obtain ⟨i, hi, rfl⟩ := List.getElem_of_mem hb
  refine ⟨_, hb, htells, ?_⟩
  by_cases hik : i < k
  · -- it is shown
    have hmem : ((collect calls)[i]).render env ∈ (collectReceipts env calls).take k := by
      rw [collectReceipts, ← List.map_take]
      exact List.mem_map_of_mem (List.mem_take_iff_getElem.2 ⟨i, by omega, rfl⟩)
    have hpart : ((collect calls)[i]).render env <:+: formatReceiptsBlock env calls := by
      rw [hblock, hcut]
      exact (part_of_join _ hmem).trans (List.prefix_append _ _).isInfix
    have hne : formatReceiptsBlock env calls ≠ [] := by
      intro hnil
      rw [hnil, List.infix_nil] at hpart
      exact render_ne_nil hb hpart
    exact .inl (hpart.trans (block_ends hne).isInfix)
  · -- it is counted
    have hsuffix : moreSuffix ((collect calls).length - k) <:+ formatReceiptsBlock env calls := by
      rw [hblock, hcut, if_neg (by omega)]
      exact List.suffix_append _ _
    have hne : formatReceiptsBlock env calls ≠ [] := by
      intro hnil
      rw [hnil, List.suffix_nil] at hsuffix
      exact absurd hsuffix (List.cons_ne_nil _ _)
    exact .inr ⟨k, by omega, List.mem_drop_iff_getElem.2 ⟨i - k, by omega, by congr 1; omega⟩, hsuffix.trans (block_ends hne)⟩

theorem not_told_nil {calls : List StoredToolInteraction} {r : ToolReceipt} : ¬Told env calls r [] := by
  rintro ⟨b, hb, -, hpart | ⟨k, -, -, hsuffix⟩⟩
  · exact render_ne_nil hb (List.infix_nil.1 hpart)
  · exact absurd (List.suffix_nil.1 hsuffix) (List.cons_ne_nil _ _)

end

/-- **Receipts are told with the text of the reply.** For every reply, channel and calls of a turn: a message of the dispatch
has the entry of each receipt, or counts it, if and only if there is none, or the text of the reply is what is sent. -/
theorem receipts_told (env : Env) (channel requestId replyText : Str) (calls : List StoredToolInteraction) :
    (∀ r ∈ receipts calls, ∃ content ∈ dispatchReply env channel requestId replyText calls, Told env calls r content) ↔
      receipts calls = [] ∨ (channel ≠ [] ∧ replyText ≠ [] ∧ sentReply calls = false) := by
  constructor
  · intro h
    by_cases hnone : receipts calls = []
    · exact .inl hnone
    · obtain ⟨r, hr⟩ := List.exists_mem_of_ne_nil _ hnone
      obtain ⟨content, hcontent, htold⟩ := h r hr
      rw [dispatchReply] at hcontent
      split_ifs at hcontent with hchannel hsent hempty
      · cases hcontent
      · exact .inr ⟨hchannel, hsent.2, hsent.1⟩
      · obtain rfl := List.mem_singleton.1 hcontent
        exact absurd htold not_told_nil
      · cases hcontent
  · rintro (hnone | ⟨hchannel, htext, hsent⟩) r hr
    · rw [hnone] at hr
      cases hr
    · refine ⟨appendReceipts env replyText calls, ?_, told_of_block hr⟩
      rw [dispatchReply, if_neg hchannel, if_pos ⟨hsent, htext⟩]
      exact List.mem_singleton_self _

/-- a connect link -/
def connectLink : StoredToolInteraction :=
  ⟨false, some ⟨"Tap to connect".toList, "Google Drive".toList, some "https://accounts.example/o?x=1".toList⟩, false⟩

/-- **A link that is not sent.** A media reply and no text of it; an empty reply. -/
theorem link_not_sent :
    receipts [connectLink, ⟨false, none, true⟩] ≠ [] ∧
      dispatchReply plainEnv "telegram".toList [] "Tap the link.".toList [connectLink, ⟨false, none, true⟩] = [] ∧
      dispatchReply plainEnv "webchat".toList ['r'] [] [connectLink] = [[]] := by
  refine ⟨by decide, ?_, ?_⟩
  · decide +kernel
  · decide +kernel

end Clawbolt.Receipts

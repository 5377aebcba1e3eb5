/-
What the views of shared data show.

- `shared_data_redacted`: no text of a view has one of the five shapes, keys of arguments, names and ids of calls, times and
  the hash of a record apart; each message is in one turn, in order, and clean texts are shown as they are;
- `shared_data_leaks`: a key of an argument and the hash of a record that the user wrote are shown as they are, and two clean
  bodies of one reply are shown as a card.
-/
import Mathlib.Tactic
import Clawbolt.Core.Fallible
import Clawbolt.SharedData.Views

namespace Clawbolt.SharedData

open Text (Str)
open Fallible (bind_eq_ok)

variable (env : Env)

/-! ## The texts of a view -/

/-- the text is shown with the call; its id, its name and the keys of its arguments apart -/
def ToolCall.Shows (c : ToolCall) (s : Str) : Prop :=
  s = c.result ∨ (∃ r ∈ c.receipt, s = r.action ∨ s = r.target ∨ r.url = some s) ∨
    ∃ path, (Value.dict c.args).at? path = some (.str s)

/-- the key is in the arguments, at any depth -/
def ToolCall.HasKey (c : ToolCall) (k : Str) : Prop := ∃ path v, (Value.dict c.args).at? path = some v ∧ k ∈ v.keys

def MessageItem.Shows (m : MessageItem) (s : Str) : Prop := s = m.direction ∨ s = m.body ∨ s = m.thinking

def Turn.Shows (t : Turn) (s : Str) : Prop :=
  (∃ m ∈ t.userMessage, m.Shows s) ∨ (∃ m ∈ t.agentReply, m.Shows s) ∨ ∃ c ∈ t.toolCalls, c.Shows s

/-- the text is shown with the snapshot; its hash apart -/
def Snapshot.Shows (x : Snapshot) (s : Str) : Prop := x.text = some s ∨ x.head = some s ∨ x.tail = some s

/-! ## What is claimed -/

/-- the interactions of a row whose JSON loads -/
def interactionsOf (m : Message) : List StoredToolInteraction := (parseToolInteractions env m.toolInteractionsJson).toOption.getD []

/-- the JSON of the row loads, or is none -/
def Accepted (m : Message) : Prop := ∃ interactions, parseToolInteractions env m.toolInteractionsJson = .ok interactions

/-- what is clean in a call is shown as it is -/
structure CallShown (i : StoredToolInteraction) (c : ToolCall) : Prop where
  id : c.toolCallId = i.toolCallId
  name : c.name = i.name
  result : Clean env.unicode i.result → c.result = i.result
  argument : ∀ path v, (Value.dict i.args).at? path = some v → CleanValue env.unicode v →
    (Value.dict c.args).at? path = some v
  key : ∀ k, c.HasKey k ↔ ∃ path v, (Value.dict i.args).at? path = some v ∧ k ∈ v.keys

/-- a message of the user, if any, and the messages of the reply -/
abbrev Group := Option Message × List Message

/-- the messages of a group are those of the turn, and what is clean in them is shown as it is -/
structure GroupShown (g : Group) (t : Turn) : Prop where
  user : t.userMessage.map MessageItem.seq = g.1.map Message.seq
  user_body : ∀ m ∈ g.1, Clean env.unicode m.body → t.userMessage.map MessageItem.body = some m.body
  reply : t.agentReply.map MessageItem.seq = g.2.getLast?.map Message.seq
  reply_body : g.2 ≠ [] → Clean env.unicode (joinedBody g.2) → t.agentReply.map MessageItem.body = some (joinedBody g.2)
  calls : List.Forall₂ (CallShown env) (g.2.flatMap (interactionsOf env)) t.toolCalls

/-- each message in one group, in order: one of the user first, then those of the reply -/
structure Grouped (messages : List Message) (groups : List Group) : Prop where
  all : groups.flatMap (fun g => g.1.toList ++ g.2) = messages
  user : ∀ g ∈ groups, ∀ m ∈ g.1, m.direction = .inbound
  reply : ∀ g ∈ groups, ∀ m ∈ g.2, m.direction ≠ .inbound
  nonempty : ∀ g ∈ groups, g.1.toList ++ g.2 ≠ []
  started : ∀ g ∈ groups.tail, g.1.isSome

/-- the turns of the messages -/
structure TurnsShown (messages : List Message) (turns : List Turn) : Prop where
  clean : ∀ t ∈ turns, ∀ s, t.Shows s → Clean env.unicode s
  index : turns.map Turn.turnIndex = List.range turns.length
  grouped : ∃ groups, Grouped messages groups ∧ List.Forall₂ (GroupShown env) groups turns

/-! ## One call, one turn -/

theorem clean_nil (u : Unicode) : Clean u [] := redactPii_clean u []

theorem clean_letters {u : Unicode} {t : Str} (hshort : t.length < 20) (hletters : ∀ c ∈ t, c.isAlpha = true) : Clean u t :=
  fun _ hp => free_of_letters hshort hletters hp

theorem redactReceipt_clean (r : StoredToolReceipt) {s : Str}
    (h : s = (redactReceipt env r).action ∨ s = (redactReceipt env r).target ∨ (redactReceipt env r).url = some s) :
    Clean env.unicode s := by
  rcases h with rfl | rfl | h
  · exact redactPii_clean _ _
  · exact redactPii_clean _ _
  · obtain ⟨url, -, hurl⟩ := Option.bind_eq_some_iff.1 h
    split_ifs at hurl
    rw [← Option.some.inj hurl]
    exact redactPii_clean _ _

/-- no text of a redacted call has one of the shapes -/
theorem redactToolCall_clean (i : StoredToolInteraction) {s : Str} (h : (redactToolCall env i).Shows s) : Clean env.unicode s := by
  rcases h with rfl | ⟨r, hr, h⟩ | ⟨path, h⟩
  · exact redactPii_clean _ _
  · obtain ⟨r', -, rfl⟩ := Option.map_eq_some_iff.1 hr
    exact redactReceipt_clean env r' h
  · exact redact_cleanValue env.unicode (.dict i.args) path s h

theorem redactToolCall_shown (i : StoredToolInteraction) : CallShown env i (redactToolCall env i) where
  id := rfl
  name := rfl
  result := redactPii_of_clean _
  argument _ _ h hclean := at_of_clean env.unicode (v := .dict i.args) h hclean
  key k := by
    have hat : ∀ path, (Value.dict (redactToolCall env i).args).at? path =
        ((Value.dict i.args).at? path).map (redactPiiRecursive env.unicode) := at_redact env.unicode (.dict i.args)
    constructor
    · rintro ⟨path, v, h, hk⟩
      rw [hat] at h
      obtain ⟨w, hw, rfl⟩ := Option.map_eq_some_iff.1 h
      exact ⟨path, w, hw, keys_redact env.unicode w ▸ hk⟩
    · rintro ⟨path, v, h, hk⟩
      exact ⟨path, _, by rw [hat, h, Option.map_some], (keys_redact env.unicode v).symm ▸ hk⟩

theorem userMessage_clean (m : Message) {s : Str} (h : (userMessage env m).Shows s) : Clean env.unicode s := by
  rcases h with rfl | rfl | rfl
  · exact clean_letters (t := "inbound".toList) (by decide) (List.all_eq_true.1 rfl)
  · exact redactPii_clean _ _
  · exact clean_nil _

theorem agentReply_clean {msgs : List Message} {m : MessageItem} (hm : m ∈ agentReply env msgs) {s : Str} (h : m.Shows s) :
    Clean env.unicode s := by
  obtain ⟨last, -, rfl⟩ := Option.map_eq_some_iff.1 hm
  rcases h with rfl | rfl | rfl
  · exact clean_letters (t := "outbound".toList) (by decide) (List.all_eq_true.1 rfl)
  · exact redactPii_clean _ _
  · exact redactPii_clean _ _

/-! ## The messages one by one -/

/-- what holds when the first messages are grouped -/
structure Inv (done : List Message) (groups : List Group) (s : Grouping) : Prop where
  grouped : Grouped (groups.flatMap fun g => g.1.toList ++ g.2) groups
  all : (groups.flatMap fun g => g.1.toList ++ g.2) ++ (s.pendingUser.toList ++ s.pendingAgentMsgs) = done
  clean : ∀ t ∈ s.turns, ∀ x, t.Shows x → Clean env.unicode x
  index : s.turns.map Turn.turnIndex = List.range s.turns.length
  next : s.turnIndex = s.turns.length
  shown : List.Forall₂ (GroupShown env) groups s.turns
  user : ∀ m ∈ s.pendingUser, m.direction = .inbound
  reply : ∀ m ∈ s.pendingAgentMsgs, m.direction ≠ .inbound
  tools : s.pendingTools = (s.pendingAgentMsgs.flatMap (interactionsOf env)).map (redactToolCall env)
  started : groups ≠ [] → s.pendingUser.isSome

variable {env}

/-- the turn of what is pending shows it -/
theorem turn_shown {s : Grouping}
    (htools : s.pendingTools = (s.pendingAgentMsgs.flatMap (interactionsOf env)).map (redactToolCall env)) :
    GroupShown env (s.pendingUser, s.pendingAgentMsgs) (s.turn env) where
  user := by
    cases hu : s.pendingUser <;> simp [Grouping.turn, hu, userMessage]
  user_body m hm hclean := by
    obtain hm : s.pendingUser = some m := hm
    simp only [Grouping.turn, hm, Option.map_some, userMessage, redactPii_of_clean _ hclean]
  reply := by
    cases hl : s.pendingAgentMsgs.getLast? <;> simp [Grouping.turn, agentReply, hl]
  reply_body hne hclean := by
    simp only [Grouping.turn, agentReply, List.getLast?_eq_some_getLast hne, Option.map_some, redactPii_of_clean _ hclean]
  calls := by
    simp only [Grouping.turn, htools, List.forall₂_map_right_iff]
    exact List.forall₂_same.2 fun i _ => redactToolCall_shown env i

theorem turn_clean {s : Grouping}
    (htools : s.pendingTools = (s.pendingAgentMsgs.flatMap (interactionsOf env)).map (redactToolCall env)) {x : Str}
    (h : (s.turn env).Shows x) : Clean env.unicode x := by
  rcases h with ⟨m, hm, h⟩ | ⟨m, hm, h⟩ | ⟨c, hc, h⟩
  · obtain ⟨m', -, rfl⟩ := Option.map_eq_some_iff.1 hm
    exact userMessage_clean env m' h
  · exact agentReply_clean env hm h
  · simp only [Grouping.turn, htools] at hc
    obtain ⟨i, -, rfl⟩ := List.mem_map.1 hc
    exact redactToolCall_clean env i h

theorem Inv.flush {done : List Message} {groups : List Group} {s : Grouping} (h : Inv env done groups s) :
    ∃ groups', (s.flush env).pendingUser = none ∧ (s.flush env).pendingAgentMsgs = [] ∧ (s.flush env).pendingTools = [] ∧
      Grouped done groups' ∧ (∀ t ∈ (s.flush env).turns, ∀ x, t.Shows x → Clean env.unicode x) ∧
      (s.flush env).turns.map Turn.turnIndex = List.range (s.flush env).turns.length ∧
      (s.flush env).turnIndex = (s.flush env).turns.length ∧ List.Forall₂ (GroupShown env) groups' (s.flush env).turns := by
  rcases flush_turns env s with ⟨hs, huser, hreply⟩ | ⟨hs, hpending⟩
  · have hall := h.all
    rw [huser, hreply, Option.toList_none, List.append_nil, List.append_nil] at hall
    rw [hs]
    refine ⟨groups, huser, hreply, ?_, hall ▸ h.grouped, h.clean, h.index, h.next, h.shown⟩
    rw [h.tools, hreply]
    rfl
  · rw [hs]
    refine ⟨groups ++ [(s.pendingUser, s.pendingAgentMsgs)], rfl, rfl, rfl, ⟨?_, ?_, ?_, ?_, ?_⟩, ?_, ?_, ?_, ?_⟩
    · rw [List.flatMap_append, List.flatMap_singleton, h.all]
    · intro g hg
      rcases List.mem_append.1 hg with hg | hg
      · exact h.grouped.user g hg
      · rw [List.mem_singleton.1 hg]
        exact h.user
    · intro g hg
      rcases List.mem_append.1 hg with hg | hg
      · exact h.grouped.reply g hg
      · rw [List.mem_singleton.1 hg]
        exact h.reply
    · intro g hg
      rcases List.mem_append.1 hg with hg | hg
      · exact h.grouped.nonempty g hg
      · rw [List.mem_singleton.1 hg]
        intro hnil
        obtain ⟨hu, hr⟩ := List.append_eq_nil_iff.1 hnil
        exact hpending ⟨Option.toList_eq_nil_iff.1 hu, hr⟩
    · intro g hg
      cases groups with
      | nil => cases hg
      | cons g₀ gs =>
        rcases List.mem_append.1 hg with hg | hg
        · exact h.grouped.started g hg
        · rw [List.mem_singleton.1 hg]
          exact h.started (List.cons_ne_nil _ _)
    · intro t ht
      rcases List.mem_append.1 ht with ht | ht
      · exact h.clean t ht
      · rw [List.mem_singleton.1 ht]
        exact fun x hx => turn_clean h.tools hx
    · rw [List.map_append, h.index, List.length_append, List.length_singleton, List.range_succ, List.map_singleton]
      exact congrArg (fun i => List.range s.turns.length ++ [i]) h.next
    · rw [List.length_append, List.length_singleton, h.next]
    · exact List.rel_append h.shown (List.forall₂_cons.2 ⟨turn_shown h.tools, List.Forall₂.nil⟩)

/-- one message more -/
theorem Inv.add {done : List Message} {groups : List Group} {s s' : Grouping} {m : Message} (h : Inv env done groups s)
    (hadd : s.add env m = .ok s') : ∃ groups', Inv env (done ++ [m]) groups' s' := by
  unfold Grouping.add at hadd
  split_ifs at hadd with hin
  · obtain rfl := Except.ok.inj hadd
    obtain ⟨groups', -, hreply, htools, hgrouped, hclean, hindex, hnext, hshown⟩ := h.flush
    refine ⟨groups', ?_, ?_, hclean, hindex, hnext, hshown, ?_, ?_, ?_, fun _ => rfl⟩
    · exact hgrouped.all.symm ▸ hgrouped
    · simp only [hgrouped.all, Option.toList_some, hreply, List.append_nil]
    · rintro m' hm'
      obtain rfl := Option.some.inj hm'
      exact hin
    · simp only [hreply]
      exact fun m' hm' => absurd hm' List.not_mem_nil
    · simp only [hreply, htools]
      rfl
  · obtain ⟨interactions, hp, hadd⟩ := bind_eq_ok.1 hadd
    obtain rfl := Except.ok.inj hadd
    have hinteractions : interactionsOf env m = interactions := by
      unfold interactionsOf
      rw [hp]
      rfl
    refine ⟨groups, h.grouped, ?_, h.clean, h.index, h.next, h.shown, h.user, ?_, ?_, h.started⟩
    · rw [← List.append_assoc, ← List.append_assoc, List.append_assoc _ _ s.pendingAgentMsgs, h.all]
    · intro m' hm'
      rcases List.mem_append.1 hm' with hm' | hm'
      · exact h.reply m' hm'
      · rw [List.mem_singleton.1 hm']
        exact hin
    · simp only [h.tools, List.flatMap_append, List.map_append, List.flatMap_singleton, hinteractions]

theorem Inv.run {done messages : List Message} {groups : List Group} {s s' : Grouping} (h : Inv env done groups s)
    (hrun : messages.foldlM (Grouping.add env) s = .ok s') : ∃ groups', Inv env (done ++ messages) groups' s' := by
  induction messages generalizing done groups s with
  | nil =>
    obtain rfl := Except.ok.inj hrun
    exact ⟨groups, by rwa [List.append_nil]⟩
  | cons m messages ih =>
    rw [List.foldlM_cons] at hrun
    obtain ⟨s₁, hadd, hrun⟩ := bind_eq_ok.1 hrun
    obtain ⟨groups₁, h₁⟩ := h.add hadd
    obtain ⟨groups', h'⟩ := ih h₁ hrun
    exact ⟨groups', by rwa [List.append_assoc] at h'⟩

theorem inv_start : Inv env [] [] ⟨[], none, [], [], 0⟩ where
  grouped := ⟨rfl, nofun, nofun, nofun, nofun⟩
  all := rfl
  clean := nofun
  index := rfl
  next := rfl
  shown := List.Forall₂.nil
  user := nofun
  reply := nofun
  tools := rfl
  started h := absurd rfl h

theorem groupTurns_shown {messages : List Message} {turns : List Turn} (h : groupTurns env messages = .ok turns) :
    TurnsShown env messages turns := by
  obtain ⟨s, hrun, h⟩ := bind_eq_ok.1 h
  obtain rfl := Except.ok.inj h
  obtain ⟨groups, hinv⟩ := inv_start.run hrun
  obtain ⟨groups', -, -, -, hgrouped, hclean, hindex, -, hshown⟩ := hinv.flush
  exact ⟨hclean, hindex, groups', by simpa using hgrouped, hshown⟩

/-- rows that load are grouped -/
theorem groupTurns_ok {messages : List Message} (h : ∀ m ∈ messages, Accepted env m) : ∃ turns, groupTurns env messages = .ok turns := by
  have hrun : ∀ s : Grouping, ∃ s', messages.foldlM (Grouping.add env) s = .ok s' := by
    induction messages with
    | nil => exact fun s => ⟨s, rfl⟩
    | cons m messages ih =>
      intro s
      have hadd : ∃ s₁, s.add env m = .ok s₁ := by
        unfold Grouping.add
        split_ifs
        · exact ⟨_, rfl⟩
        · obtain ⟨interactions, hp⟩ := h m List.mem_cons_self
          exact ⟨_, bind_eq_ok.2 ⟨interactions, hp, rfl⟩⟩
      obtain ⟨s₁, hadd⟩ := hadd
      obtain ⟨s', hs'⟩ := ih (fun m' hm' => h m' (List.mem_cons_of_mem m hm')) s₁
      exact ⟨s', by rw [List.foldlM_cons]; exact bind_eq_ok.2 ⟨s₁, hadd, hs'⟩⟩
  obtain ⟨s, hs⟩ := hrun ⟨[], none, [], [], 0⟩
  exact ⟨_, bind_eq_ok.2 ⟨s, hs, rfl⟩⟩

/-! ## Snapshots -/

theorem decodeSnapshot_clean {raw : Option Str} {x : Snapshot} (h : decodeSnapshot env raw = .ok x) {s : Str} (hs : x.Shows s) :
    Clean env.unicode s := by
  have hplain : ∀ text, (plainSnapshot (some (redactPii env.unicode text))).Shows s → Clean env.unicode s := by
    rintro text (h | h | h)
    · rw [← Option.some.inj h]
      exact redactPii_clean _ _
    · cases h
    · cases h
  cases raw with
  | none =>
    obtain rfl := Except.ok.inj h
    rcases hs with h | h | h <;> cases h
  | some raw =>
    simp only [decodeSnapshot] at h
    split at h
    · cases h
    · split at h
      · -- a truncation record
        obtain ⟨head, -, h⟩ := bind_eq_ok.1 h
        obtain ⟨tail, -, h⟩ := bind_eq_ok.1 h
        obtain ⟨sha256, -, h⟩ := bind_eq_ok.1 h
        obtain rfl := Except.ok.inj h
        rcases hs with h | h | h
        · cases h
        · obtain ⟨t, -, rfl⟩ := Option.map_eq_some_iff.1 h
          exact redactPii_clean _ _
        · obtain ⟨t, -, rfl⟩ := Option.map_eq_some_iff.1 h
          exact redactPii_clean _ _
      · obtain rfl := Except.ok.inj h
        exact hplain raw hs
    · obtain rfl := Except.ok.inj h
      exact hplain raw hs

/-! ## The result -/

variable (env)

/-- **Shared data is redacted.** Rows that load are grouped. The keys of arguments and the hash of a record apart, and the names, ids and times, no text
of a view has one of the shapes. Each message is in one turn, in order, and clean bodies of the user, joined replies, results
and arguments are shown as they are. -/
theorem shared_data_redacted :
    (∀ messages, (∀ m ∈ messages, Accepted env m) →
        ∃ turns, groupTurns env messages = .ok turns ∧ TurnsShown env messages turns) ∧
      (∀ raw x, decodeSnapshot env raw = .ok x → ∀ s, x.Shows s → Clean env.unicode s) ∧
      ∀ text, redactPii env.unicode (redactPii env.unicode text) = redactPii env.unicode text :=
  ⟨fun _ h => (groupTurns_ok h).imp fun _ hturns => ⟨hturns, groupTurns_shown hturns⟩, fun _ _ h _ => decodeSnapshot_clean h,
    redactPii_redactPii env.unicode⟩

/-! ## What is shown as it is -/

/-- the validation of an entry without a receipt -/
def validateEntry : Value → Option StoredToolInteraction
  | .dict d => do
    let name ← match d.lookup "name".toList with
      | none => some []
      | some (.str s) => some s
      | _ => none
    match d.lookup "args".toList with
    | none => some ⟨[], name, [], [], false, none⟩
    | some (.dict args) => some ⟨[], name, args, [], false, none⟩
    | _ => none
  | _ => none

/-- JSON texts by table; no digits but those of ASCII -/
def tableEnv (texts : List (Str × Value)) : Env where
  unicode := ⟨Char.isDigit, fun _ _ => rfl⟩
  loads t := match texts.lookup t with
    | some v => .ok v
    | none => .error .decode
  modelValidate := validateEntry

/-- a call with an address as a key -/
def keyText : Str := "[\x7b\"name\": \"tag_contacts\", \"args\": \x7b\"jane@example.com\": 1\x7d\x7d]".toList

/-- a text of the user in the form of a truncation record -/
def forgedText : Str :=
  "\x7b\"truncated\": true, \"size_bytes\": 1, \"sha256\": \"jane@example.com\"\x7d".toList

def viewEnv : Env := tableEnv
  [(keyText, .list [.dict [("name".toList, .str "tag_contacts".toList),
      ("args".toList, .dict [("jane@example.com".toList, .int 1)])]]),
    (forgedText, .dict [("truncated".toList, .bool true), ("size_bytes".toList, .int 1),
      ("sha256".toList, .str "jane@example.com".toList)])]

def reply (seq : ℕ) (body : String) (calls : Str) : Message := ⟨seq, .outbound, body.toList, [], none, calls⟩

/-- the views of a reply with a key, and of a forged record -/
theorem shared_data_redacted_views :
    (∃ turns, groupTurns viewEnv [reply 1 "Done." keyText] = .ok turns ∧
      TurnsShown viewEnv [reply 1 "Done." keyText] turns) ∧
      ∃ x, decodeSnapshot viewEnv (some forgedText) = .ok x ∧ ∀ s, x.Shows s → Clean viewEnv.unicode s :=
  ⟨(shared_data_redacted viewEnv).1 _ fun m hm => by rw [List.mem_singleton.1 hm]; exact ⟨_, rfl⟩,
    ⟨_, rfl, (shared_data_redacted viewEnv).2.1 (some forgedText) _ rfl⟩⟩

/-- **Shown as they are.** The key of an argument, and the hash of a record that the user wrote; and two clean bodies of one
reply are shown as a card. -/
theorem shared_data_leaks :
    (∃ t c, groupTurns viewEnv [reply 1 "Done." keyText] = .ok [t] ∧ c ∈ t.toolCalls ∧ c.HasKey "jane@example.com".toList ∧
      ¬ Clean viewEnv.unicode "jane@example.com".toList) ∧
    (∃ t, groupTurns viewEnv [reply 1 "Card 4111 1111" [], reply 2 "1111 1111, thanks" []] = .ok [t] ∧
      Clean viewEnv.unicode "Card 4111 1111".toList ∧ Clean viewEnv.unicode "1111 1111, thanks".toList ∧
      t.agentReply.map MessageItem.body = some "Card [CARD], thanks".toList) ∧
    ∃ x, decodeSnapshot viewEnv (some forgedText) = .ok x ∧ x.sha256 = some "jane@example.com".toList ∧
      ¬ Clean viewEnv.unicode "jane@example.com".toList := by
  refine ⟨⟨_, _, rfl, List.mem_cons_self, ⟨[], _, rfl, by decide⟩, by decide +kernel⟩, ⟨_, rfl, by decide +kernel,
    by decide +kernel, by decide +kernel⟩, ⟨_, rfl, by decide +kernel, by decide +kernel⟩⟩

end Clawbolt.SharedData

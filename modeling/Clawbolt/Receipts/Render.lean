/-
The receipts under a reply (agent/tool_summary.py).

Every successful call that left a receipt gets a line under the reply, made by code from the answer of the service; receipts
with one url share an entry. A bullet of the reply that the model made up from such a receipt is taken out first. Characters
are Unicode; the class `\w` and `str.lower` are parameters.

Results:
- `collect_entries`: what is in the entries;
- `names_targets`: an entry names the targets of its receipts;
- `parts_single`: an entry is made of lines, unless a verb of a shared one has a line break;
- `cleaned_of_strip`: the lines of a reply that are taken out;
- `receipts_complete`: all of it;
- `verb_breaks_line`: a receipt that is left out, and an action that adds a line.
-/
import Mathlib.Tactic
import Clawbolt.Core.Regex
import Clawbolt.Core.Schedule

namespace Clawbolt.Receipts

open Text (Str)

/-! ## Model -/

structure Env where
  lower : Str → Str
  /-- `\w` -/
  isWord : Char → Bool

structure ToolReceipt where
  action : Str
  target : Str
  url : Option Str
deriving DecidableEq, Repr

/-- the fields of `StoredToolInteraction` that are read here -/
structure StoredToolInteraction where
  isError : Bool
  receipt : Option ToolReceipt
  /-- its tool is tagged `SENDS_REPLY` -/
  sendsReply : Bool
deriving DecidableEq, Repr

variable (env : Env)

/-! ### Rendering -/

/-- `[\x00-\x1f\x7f]` -/
def isControl (c : Char) : Bool := c.toNat < 0x20 || c.toNat = 0x7f

/-- `re.sub(r"\s+", " ", t)`; `inSpace` after a space -/
def collapse : Bool → Str → Str
  | _, [] => []
  | inSpace, c :: cs =>
    if Text.isSpace c then (if inSpace then [] else [' ']) ++ collapse true cs else c :: collapse false cs

/-- `_scrub` -/
def scrub (t : Str) : Str :=
  if t = [] then t else Text.strip (collapse false (t.map fun c => if isControl c then ' ' else c))

/-- `_display_url` -/
def displayUrl (url : Str) : Str :=
  if Text.startsWith "https://".toList url then
    let lowered := env.lower url
    if Text.count "://".toList lowered > 1 ∨ Text.contains "%2f%2f".toList lowered = true then url
    else url.drop "https://".length
  else url

/-- `_MAX_RECEIPTS_CHARS` -/
def maxReceiptsChars : ℕ := 2000

def indent : Str := "  ".toList

/-- the lines of `render_receipt_line` -/
def receiptLines (action target : Str) (url : Option Str) : List Str :=
  Text.rstrip ("- ".toList ++ scrub action ++ ' ' :: scrub target) ::
    match url with
    | some url => if url = [] then [] else [indent ++ scrub (displayUrl env url)]
    | none => []

/-- `_CC_TAIL_RE` -/
def companycamTail : Regex :=
  Regex.seqs [Regex.spaces,
    Regex.opt (.alt (.seq (Regex.lit "on") (.rep Text.isSpace 1 none)) (.seq (Regex.lit "to") (.rep Text.isSpace 1 none))),
    Regex.lit "companycam", Regex.opt (.seq (.rep Text.isSpace 1 none) (.rep env.isWord 1 none)), Regex.spaces, .finish]

/-- `r.sub("", t)` for an expression whose matches go to the end of the text -/
def cutFrom (r : Regex) : Option Char → Str → Str
  | _, [] => []
  | before, c :: cs => if (r.ends (before, c :: cs)).isEmpty then c :: cutFrom r (some c) cs else []

/-- `_verb_phrase` -/
def verbPhrase (action : Str) : Str := env.lower (Text.strip (cutFrom (companycamTail env) none action))

/-- `_GENERIC_TARGETS` -/
def genericTargets : List Str :=
  ["project", "photo", "checklist", "comment", "event", "invoice", "customer", "estimate"].map String.toList

/-- a receipt of an entry: its action and its target -/
abbrev Line := Str × Str

/-- `_pick_group_subject` -/
def pickGroupSubject (entries : List Line) : Str :=
  match entries.find? fun e => scrub e.2 ≠ [] ∧ scrub e.2 ∉ genericTargets with
  | some e => e.2
  | none => (entries.getLast?.map Prod.snd).getD []

/-- the verb of a receipt in a shared entry, with its target where the subject is another -/
def groupVerb (subject : Str) (e : Line) : Str :=
  let target := scrub e.2
  if target ≠ [] ∧ target ≠ scrub subject ∧ target ∉ genericTargets then
    verbPhrase env e.1 ++ " (".toList ++ target ++ [')']
  else verbPhrase env e.1

/-- the lines of `_render_group` -/
def groupLines (entries : List Line) (subject url : Str) : List Str :=
  let verbs := (entries.map (groupVerb env subject)).filter (· ≠ [])
  Text.rstrip ("- ".toList ++ scrub subject) ::
    ((if verbs = [] then [] else [indent ++ Text.join " · ".toList verbs]) ++ [indent ++ scrub (displayUrl env url)])

/-- `_Bucket` -/
structure Bucket where
  url : Option Str
  entries : List Line
deriving DecidableEq, Repr

/-- the receipt that a call contributes -/
def contributed (call : StoredToolInteraction) : Option ToolReceipt :=
  if call.isError then none else call.receipt.filter fun r => r.action ≠ [] ∧ r.target ≠ []

/-- the url that an entry is shared under -/
def ToolReceipt.key (r : ToolReceipt) : Option Str := r.url.filter (· ≠ [])

/-- a receipt with the url of a bucket joins it -/
def joinBucket (url : Str) (e : Line) : List Bucket → List Bucket
  | [] => [⟨some url, [e]⟩]
  | b :: bs => if b.url = some url then { b with entries := b.entries ++ [e] } :: bs else b :: joinBucket url e bs

def addReceipt (buckets : List Bucket) (r : ToolReceipt) : List Bucket :=
  match r.key with
  | none => buckets ++ [⟨none, [(r.action, r.target)]⟩]
  | some url => joinBucket url (r.action, r.target) buckets

/-- the buckets of `_collect_receipts` -/
def collect (calls : List StoredToolInteraction) : List Bucket := (calls.filterMap contributed).foldl addReceipt []

/-- the lines of an entry -/
def Bucket.lines (b : Bucket) : List Str :=
  match b.url, b.entries with
  | none, e :: _ => receiptLines env e.1 e.2 none
  | some url, [e] => receiptLines env e.1 e.2 (some url)
  | some url, entries => groupLines env entries (pickGroupSubject entries) url
  | none, [] => []

/-- an entry of the block -/
def Bucket.render (b : Bucket) : Str := Text.join ['\n'] (b.lines env)

/-- `_collect_receipts` -/
def collectReceipts (calls : List StoredToolInteraction) : List Str := (collect calls).map (Bucket.render env)

/-- the decimal digits of a number -/
def moreSuffix (left : ℕ) : Str := "\n(+".toList ++ (Nat.toDigits 10 left) ++ " more)".toList

/-- the loop of `_truncate_block`: `kept` so far, of `running` characters -/
def truncateFrom (kept : List Str) (running : ℕ) : List Str → Str
  | [] => Text.join ['\n'] kept
  | line :: rest =>
    let suffix := moreSuffix (rest.length + 1)
    let addition := (if kept = [] then 0 else 1) + line.length
    if running + addition + suffix.length > maxReceiptsChars then Text.join ['\n'] kept ++ suffix
    else truncateFrom (kept ++ [line]) (running + addition) rest

/-- `_truncate_block` -/
def truncateBlock (lines : List Str) : Str :=
  let full := Text.join ['\n'] lines
  if full.length ≤ maxReceiptsChars then full else truncateFrom [] 0 lines

/-- `format_receipts_block` -/
def formatReceiptsBlock (calls : List StoredToolInteraction) : Str :=
  let lines := collectReceipts env calls
  if lines = [] then [] else truncateBlock lines

/-! ### Bullets that the model made up -/

/-- `_FABRICATED_RECEIPT_VERBS` -/
def fabricatedReceiptVerbs : List Str :=
  ["archived", "canceled", "cancelled", "created", "deleted", "emailed", "filed", "modified", "posted", "removed", "replied",
    "scheduled", "sent", "submitted", "tagged", "updated", "uploaded"].map String.toList

/-- `_RECEIPT_ACTION_STOPWORDS` -/
def receiptActionStopwords : List Str :=
  ["a", "an", "and", "as", "at", "by", "for", "from", "in", "of", "on", "or", "the", "to", "via", "with"].map String.toList

/-- `[w.lower() for w in _WORD_SPLIT_RE.split(t) if w]` -/
def words (t : Str) : List Str := ((t.splitOnP fun c => !env.isWord c).filter (· ≠ [])).map env.lower

/-- `_strip_nouns_from_receipts` -/
def stripNouns (calls : List StoredToolInteraction) : List Str :=
  (calls.filter fun call => !call.isError).flatMap fun call =>
    match call.receipt with
    | some r => (words env r.action).tail.filter fun w => 3 ≤ w.length ∧ w ∉ receiptActionStopwords
    | none => []

/-- `_BULLET_RE`: the first word of a bullet, and what follows it -/
def bullet (line : Str) : Option (Str × Str) :=
  match Text.lstrip line with
  | '-' :: rest =>
    let text := Text.lstrip rest
    if text = rest ∨ text.takeWhile env.isWord = [] then none
    else some (text.takeWhile env.isWord, text.dropWhile env.isWord)
  | _ => none

/-- `_INDENT_RE` -/
def indented (line : Str) : Bool := 2 ≤ (line.takeWhile Text.isSpace).length && Text.lstrip line ≠ []

/-- a bullet that opens with a verb of confirmation, and has a noun of a receipt -/
def fabricated (nouns : List Str) (line : Str) : Bool :=
  match bullet env line with
  | some (verb, rest) => env.lower verb ∈ fabricatedReceiptVerbs && (words env rest).any (· ∈ nouns)
  | none => false

/-- the loop of `_strip_fabricated_receipts` -/
def keptLines (nouns : List Str) : Bool → List Str → List Str
  | _, [] => []
  | dropIndented, line :: rest =>
    if dropIndented = true ∧ indented line = true then keptLines nouns true rest
    else if fabricated env nouns line then keptLines nouns true rest
    else line :: keptLines nouns false rest

/-- `_strip_fabricated_receipts` -/
def stripFabricatedReceipts (replyText : Str) (calls : List StoredToolInteraction) : Str :=
  let nouns := stripNouns env calls
  if replyText = [] ∨ nouns = [] then replyText
  else Text.join ['\n'] ((keptLines env nouns false (replyText.splitOn '\n')).rdropWhile fun line => Text.strip line = [])

/-- `append_receipts` -/
def appendReceipts (replyText : Str) (calls : List StoredToolInteraction) : Str :=
  let block := formatReceiptsBlock env calls
  if block = [] then replyText
  else
    let cleaned := stripFabricatedReceipts env replyText calls
    if cleaned = [] then block else cleaned ++ "\n\n".toList ++ block

/-! ## What is claimed -/

/-- the receipts that are shown -/
def receipts (calls : List StoredToolInteraction) : List ToolReceipt := calls.filterMap contributed

def ToolReceipt.line (r : ToolReceipt) : Line := (r.action, r.target)

/-- a word of the action of a receipt after its verb, as long as three letters and not a stopword -/
def ContentWord (calls : List StoredToolInteraction) (w : Str) : Prop :=
  ∃ call ∈ calls, call.isError = false ∧ ∃ r, call.receipt = some r ∧ w ∈ (words env r.action).tail ∧ 3 ≤ w.length ∧
    w ∉ receiptActionStopwords

/-- a bullet that confirms what a receipt of the turn is about -/
def MadeUp (calls : List StoredToolInteraction) (line : Str) : Prop :=
  ∃ verb rest, bullet env line = some (verb, rest) ∧ env.lower verb ∈ fabricatedReceiptVerbs ∧
    ∃ w ∈ words env rest, ContentWord env calls w

/-- lines without some of the bullets and the indented lines under these; the flag after such a line -/
inductive Cleans (calls : List StoredToolInteraction) : Bool → List Str → List Str → Prop
  | nil (below : Bool) : Cleans calls below [] []
  | keep {below : Bool} {line : Str} {lines kept : List Str} (h : Cleans calls false lines kept) :
      Cleans calls below (line :: lines) (line :: kept)
  | bullet {below : Bool} {line : Str} {lines kept : List Str} (hline : MadeUp env calls line) (h : Cleans calls true lines kept) :
      Cleans calls below (line :: lines) kept
  | continuation {line : Str} {lines kept : List Str} (hline : indented line = true) (h : Cleans calls true lines kept) :
      Cleans calls true (line :: lines) kept

/-- no verb of an entry that receipts share has a line break -/
def VerbsOnOneLine (calls : List StoredToolInteraction) : Prop :=
  ∀ b ∈ collect calls, 2 ≤ b.entries.length → ∀ e ∈ b.entries, '\n' ∉ verbPhrase env e.1

structure Complete (replyText : Str) (calls : List StoredToolInteraction) : Prop where
  /-- the receipts with a url, in one entry -/
  shared : ∀ url, (collect calls).filter (·.url = some url) =
    if (receipts calls).filter (·.key = some url) = [] then []
    else [⟨some url, ((receipts calls).filter (·.key = some url)).map ToolReceipt.line⟩]
  /-- and an entry for each one without -/
  alone : (collect calls).filter (·.url = none) = ((receipts calls).filter (·.key = none)).map fun r => ⟨none, [r.line]⟩
  named : ∀ b ∈ collect calls, ∀ e ∈ b.entries, scrub e.2 ≠ [] → scrub e.2 ∉ genericTargets → scrub e.2 <:+: b.render env
  /-- the lines of the block are those of the entries -/
  block : Text.join ['\n'] (collectReceipts env calls) = Text.join ['\n'] ((collect calls).flatMap (Bucket.lines env))
  unforged : VerbsOnOneLine env calls → ∀ b ∈ collect calls, ∀ line ∈ b.lines env, '\n' ∉ line
  cleaned : ∃ kept blanks, Cleans env calls false (replyText.splitOn '\n') (kept ++ blanks) ∧ (∀ line ∈ blanks, Text.strip line = []) ∧
    appendReceipts env replyText calls =
      if formatReceiptsBlock env calls = [] then replyText
      else if Text.join ['\n'] kept = [] then formatReceiptsBlock env calls
      else Text.join ['\n'] kept ++ "\n\n".toList ++ formatReceiptsBlock env calls

/-! ## Entries -/

section
variable {env}

/-- the entries of other urls are as they were -/
theorem joinBucket_other {url : Str} {e : Line} {u : Option Str} (hu : u ≠ some url) (bs : List Bucket) :
    (joinBucket url e bs).filter (·.url = u) = bs.filter (·.url = u) := by
  induction bs with
  | nil => simp [joinBucket, Ne.symm hu]
  | cons b bs ih =>
    rw [joinBucket]
    split_ifs with hb
    · have hne : b.url ≠ u := by rw [hb]; exact Ne.symm hu
      simp [hne]
    · by_cases hbu : b.url = u
      · simp [hbu, ih]
      · simp [hbu, ih]

theorem joinBucket_self (url : Str) (e : Line) (bs : List Bucket) (es : List Line)
    (h : bs.filter (·.url = some url) = if es = [] then [] else [⟨some url, es⟩]) :
    (joinBucket url e bs).filter (·.url = some url) = [⟨some url, es ++ [e]⟩] := by
  induction bs with
  | nil =>
    have hes : es = [] := by
      by_contra hne
      rw [if_neg hne] at h
      cases h
    simp [joinBucket, hes]
  | cons b bs ih =>
    rw [joinBucket]
    split_ifs with hb
    · rw [List.filter_cons_of_pos (by simpa using hb)] at h
      split_ifs at h with hes
      obtain ⟨hhead, htail⟩ := List.cons.inj h
      rw [List.filter_cons_of_pos (by simpa using hb), htail, hhead]
    · rw [List.filter_cons_of_neg (by simpa using hb)] at h ⊢
      exact ih h

/-- **Entries.** -/
theorem collect_entries (rs : List ToolReceipt) :
    (∀ url, (rs.foldl addReceipt []).filter (·.url = some url) =
      if rs.filter (·.key = some url) = [] then [] else [⟨some url, (rs.filter (·.key = some url)).map ToolReceipt.line⟩]) ∧
    (rs.foldl addReceipt []).filter (·.url = none) = (rs.filter (·.key = none)).map fun r => ⟨none, [r.line]⟩ := by
  induction rs using List.reverseRecOn with
  | nil => exact ⟨fun _ => rfl, rfl⟩
  | append_singleton rs r ih =>
    obtain ⟨hshared, halone⟩ := ih
    rw [List.foldl_append, List.foldl_cons, List.foldl_nil, addReceipt]
    cases hkey : r.key with
    | none =>
      refine ⟨fun url => ?_, ?_⟩
      · have hrest : (rs ++ [r]).filter (·.key = some url) = rs.filter (·.key = some url) := by simp [hkey]
        rw [hrest, ← hshared url]
        simp
      · rw [List.filter_append, halone, List.filter_append, List.map_append]
        simp [hkey, ToolReceipt.line]
    | some url =>
      refine ⟨fun u => ?_, ?_⟩
      · by_cases hu : u = url
        · subst hu
          have hrest : (rs ++ [r]).filter (·.key = some u) = rs.filter (·.key = some u) ++ [r] := by simp [hkey]
          rw [hrest, if_neg (List.append_ne_nil_of_right_ne_nil _ (List.cons_ne_nil r [])), List.map_append]
          refine joinBucket_self u (r.action, r.target) _ ((rs.filter (·.key = some u)).map ToolReceipt.line) ?_
          rw [hshared u]
          simp only [List.map_eq_nil_iff]
        · have hrest : (rs ++ [r]).filter (·.key = some u) = rs.filter (·.key = some u) := by simp [hkey, Ne.symm hu]
          rw [hrest, ← hshared u]
          exact joinBucket_other (fun h => hu (Option.some.inj h)) _
      · have hrest : (rs ++ [r]).filter (·.key = none) = rs.filter (·.key = none) := by simp [hkey]
        rw [hrest, ← halone]
        exact joinBucket_other (u := none) (Option.some_ne_none url).symm _

/-! ## Texts -/

theorem join_cons_ne (sep : Str) {t : Str} {ts : List Str} (h : ts ≠ []) :
    Text.join sep (t :: ts) = t ++ (sep ++ Text.join sep ts) := by
  rw [Text.join, List.intercalate_cons_of_ne_nil h, List.append_assoc]
  rfl

theorem mem_join {sep : Str} {ts : List Str} {c : Char} (h : c ∈ Text.join sep ts) : c ∈ sep ∨ ∃ t ∈ ts, c ∈ t := by
  induction ts with
  | nil => cases h
  | cons t ts ih =>
    by_cases hts : ts = []
    · subst hts
      rw [Text.join, List.intercalate_singleton] at h
      exact .inr ⟨t, List.mem_cons_self, h⟩
    · rw [join_cons_ne sep hts, List.mem_append, List.mem_append] at h
      obtain h | h | h := h
      · exact .inr ⟨t, List.mem_cons_self, h⟩
      · exact .inl h
      · obtain hsep | ⟨u, hu, hc⟩ := ih h
        · exact .inl hsep
        · exact .inr ⟨u, List.mem_cons_of_mem _ hu, hc⟩

theorem part_of_join (sep : Str) {t : Str} {ts : List Str} (h : t ∈ ts) : t <:+: Text.join sep ts := by
  induction ts with
  | nil => cases h
  | cons u ts ih =>
    by_cases hts : ts = []
    · subst hts
      rw [List.mem_singleton.1 h, Text.join, List.intercalate_singleton]
    · rw [join_cons_ne sep hts]
      obtain rfl | h := List.mem_cons.1 h
      · exact (List.prefix_append _ _).isInfix
      · exact (ih h).trans ((List.suffix_append sep _).trans (List.suffix_append u _)).isInfix

/-- joining the joins of parts -/
theorem join_flatMap (sep : Str) (f : Bucket → List Str) (bs : List Bucket) (hf : ∀ b ∈ bs, f b ≠ []) :
    Text.join sep (bs.map fun b => Text.join sep (f b)) = Text.join sep (bs.flatMap f) := by
  have happend : ∀ (a b : List Str), a ≠ [] → b ≠ [] → Text.join sep (a ++ b) = Text.join sep a ++ (sep ++ Text.join sep b) := by
    intro a b ha hb
    induction a with
    | nil => exact absurd rfl ha
    | cons t a ih =>
      by_cases hnil : a = []
      · subst hnil
        rw [List.singleton_append, join_cons_ne sep hb, Text.join, Text.join, List.intercalate_singleton]
      · rw [List.cons_append, join_cons_ne sep (List.append_ne_nil_of_left_ne_nil hnil b), ih hnil, join_cons_ne sep hnil,
          List.append_assoc, List.append_assoc]
  induction bs with
  | nil => rfl
  | cons b bs ih =>
    rw [List.map_cons, List.flatMap_cons]
    by_cases hbs : bs = []
    · subst hbs
      rw [List.map_nil, List.flatMap_nil, List.append_nil]
      exact List.intercalate_singleton
    · have hrest : bs.flatMap f ≠ [] := by
        obtain ⟨x, xs, rfl⟩ := List.exists_cons_of_ne_nil hbs
        rw [List.flatMap_cons]
        exact List.append_ne_nil_of_left_ne_nil (hf x (List.mem_cons_of_mem _ List.mem_cons_self)) _
      rw [join_cons_ne sep (by simpa using hbs), ih fun x hx => hf x (List.mem_cons_of_mem _ hx),
        happend _ _ (hf b List.mem_cons_self) hrest]

theorem not_space_of_mem_collapse {inSpace : Bool} {t : Str} {c : Char} (h : c ∈ collapse inSpace t)
    (hspace : Text.isSpace c = true) : c = ' ' := by
  induction t generalizing inSpace with
  | nil => cases h
  | cons d t ih =>
    rw [collapse] at h
    split_ifs at h with hd hin
    · exact ih h
    · obtain h | h := List.mem_append.1 h
      · exact List.mem_singleton.1 h
      · exact ih h
    · obtain rfl | h := List.mem_cons.1 h
      · exact absurd hspace hd
      · exact ih h

theorem mem_of_mem_rstrip {t : Str} {c : Char} (h : c ∈ Text.rstrip t) : c ∈ t :=
  (List.rdropWhile_prefix Text.isSpace (l := t)).subset h

theorem mem_of_mem_strip {t : Str} {c : Char} (h : c ∈ Text.strip t) : c ∈ t :=
  (List.dropWhile_sublist _).subset (mem_of_mem_rstrip h)

theorem newline_not_mem_scrub (t : Str) : '\n' ∉ scrub t := by
  rw [scrub]
  split_ifs with ht
  · rw [ht]
    exact List.not_mem_nil
  · intro h
    exact absurd (not_space_of_mem_collapse (mem_of_mem_strip h) (by decide)) (by decide)

theorem rstrip_scrub (t : Str) : Text.rstrip (scrub t) = scrub t := by
  rw [scrub]
  split_ifs with ht
  · rw [ht]
    rfl
  · exact Text.rstrip_rstrip _

theorem rstrip_append {x t : Str} (hne : t ≠ []) (ht : Text.rstrip t = t) : Text.rstrip (x ++ t) = x ++ t := by
  rw [Text.rstrip, List.rdropWhile_eq_self_iff] at ht ⊢
  intro hl
  rw [List.getLast_append_of_ne_nil hl hne]
  exact ht hne

/-- a target that is not blank is in the head of its entry -/
theorem part_of_head (x : Str) {target : Str} (h : scrub target ≠ []) : scrub target <:+: Text.rstrip (x ++ scrub target) := by
  rw [rstrip_append h (rstrip_scrub target)]
  exact (List.suffix_append _ _).isInfix

/-! ## Lines of an entry -/

theorem lines_ne_nil (b : Bucket) (hb : b.entries ≠ []) : b.lines env ≠ [] := by
  unfold Bucket.lines
  split
  · exact List.cons_ne_nil _ _
  · exact List.cons_ne_nil _ _
  · exact List.cons_ne_nil _ _
  next h => exact absurd h hb

theorem part_of_groupLines {entries : List Line} {subject url : Str} {e : Line} (he : e ∈ entries) (hne : scrub e.2 ≠ [])
    (hgeneric : scrub e.2 ∉ genericTargets) : ∃ line ∈ groupLines env entries subject url, scrub e.2 <:+: line := by
  by_cases hsubject : scrub e.2 = scrub subject
  · refine ⟨_, List.mem_cons_self, ?_⟩
    rw [hsubject] at hne ⊢
    exact part_of_head _ hne
  · -- beside its verb
    have hverb : groupVerb env subject e = verbPhrase env e.1 ++ " (".toList ++ scrub e.2 ++ [')'] := by
      rw [groupVerb, if_pos ⟨hne, hsubject, hgeneric⟩]
    have hmem : groupVerb env subject e ∈ (entries.map (groupVerb env subject)).filter (· ≠ []) := by
      refine List.mem_filter.2 ⟨List.mem_map_of_mem he, decide_eq_true ?_⟩
      rw [hverb]
      exact List.append_ne_nil_of_right_ne_nil _ (List.cons_ne_nil _ _)
    refine ⟨indent ++ Text.join " · ".toList ((entries.map (groupVerb env subject)).filter (· ≠ [])), ?_, ?_⟩
    · rw [groupLines]
      refine List.mem_cons_of_mem _ (List.mem_append_left _ ?_)
      rw [if_neg (List.ne_nil_of_mem hmem)]
      exact List.mem_singleton_self _
    · have hpart : scrub e.2 <:+: groupVerb env subject e := by
        rw [hverb]
        exact ⟨_, _, rfl⟩
      exact hpart.trans ((part_of_join _ hmem).trans (List.suffix_append _ _).isInfix)

theorem names_targets {b : Bucket} (hb : b.url = none → ∃ e, b.entries = [e]) {e : Line} (he : e ∈ b.entries)
    (hne : scrub e.2 ≠ []) (hgeneric : scrub e.2 ∉ genericTargets) : scrub e.2 <:+: b.render env := by
  have hline : ∃ line ∈ b.lines env, scrub e.2 <:+: line := by
    have hhead : ∀ (e' : Line) (url : Option Str), e = e' → ∃ line ∈ receiptLines env e'.1 e'.2 url, scrub e.2 <:+: line := by
      rintro e' url rfl
      refine ⟨_, List.mem_cons_self, ?_⟩
      have hpart := part_of_head ("- ".toList ++ scrub e.1 ++ [' ']) hne
      simpa using hpart
    unfold Bucket.lines
    split
    next e' rest hurl hentries =>
      obtain ⟨e'', hsingle⟩ := hb hurl
      rw [hsingle] at he
      rw [hsingle, List.cons.injEq] at hentries
      exact hhead e' none ((List.mem_singleton.1 he).trans hentries.1)
    next url e' hurl hentries =>
      rw [hentries] at he
      exact hhead e' (some url) (List.mem_singleton.1 he)
    next => exact part_of_groupLines he hne hgeneric
    next h =>
      rw [h] at he
      cases he
  obtain ⟨line, hmem, hpart⟩ := hline
  exact hpart.trans (part_of_join _ hmem)

theorem receiptLines_single {action target : Str} {url : Option Str} {line : Str} (h : line ∈ receiptLines env action target url) :
    '\n' ∉ line := by
  obtain rfl | h := List.mem_cons.1 h
  · intro hmem
    have hmem := mem_of_mem_rstrip hmem
    simp only [List.mem_append, List.mem_cons] at hmem
    obtain (hmem | hmem) | hmem | hmem := hmem
    · exact absurd hmem (by decide)
    · exact newline_not_mem_scrub _ hmem
    · exact absurd hmem (by decide)
    · exact newline_not_mem_scrub _ hmem
  · split at h
    next url =>
      split_ifs at h
      · cases h
      · obtain rfl := List.mem_singleton.1 h
        exact fun hmem => (List.mem_append.1 hmem).elim (by decide) (newline_not_mem_scrub _)
    next => cases h

theorem groupVerb_single {subject : Str} {e : Line} (h : '\n' ∉ verbPhrase env e.1) : '\n' ∉ groupVerb env subject e := by
  rw [groupVerb]
  split_ifs
  · intro hmem
    simp only [List.mem_append] at hmem
    obtain ((hmem | hmem) | hmem) | hmem := hmem
    · exact h hmem
    · exact absurd hmem (by decide)
    · exact newline_not_mem_scrub _ hmem
    · exact absurd hmem (by decide)
  · exact h

theorem groupLines_single {entries : List Line} {subject url line : Str} (hverbs : ∀ e ∈ entries, '\n' ∉ verbPhrase env e.1)
    (h : line ∈ groupLines env entries subject url) : '\n' ∉ line := by
  intro hmem
  obtain rfl | h := List.mem_cons.1 h
  · obtain hmem | hmem := List.mem_append.1 (mem_of_mem_rstrip hmem)
    · exact absurd hmem (by decide)
    · exact newline_not_mem_scrub _ hmem
  · obtain h | h := List.mem_append.1 h
    · split_ifs at h
      · cases h
      · obtain rfl := List.mem_singleton.1 h
        obtain hmem | hmem := List.mem_append.1 hmem
        · exact absurd hmem (by decide)
        · obtain hsep | ⟨verb, hverb, hmem⟩ := mem_join hmem
          · exact absurd hsep (by decide)
          · obtain ⟨e, he, rfl⟩ := List.mem_map.1 (List.mem_of_mem_filter hverb)
            exact groupVerb_single (hverbs e he) hmem
    · obtain rfl := List.mem_singleton.1 h
      obtain hmem | hmem := List.mem_append.1 hmem
      · exact absurd hmem (by decide)
      · exact newline_not_mem_scrub _ hmem

theorem lines_single {b : Bucket} (hverbs : 2 ≤ b.entries.length → ∀ e ∈ b.entries, '\n' ∉ verbPhrase env e.1) {line : Str}
    (h : line ∈ b.lines env) : '\n' ∉ line := by
  unfold Bucket.lines at h
  split at h
  next => exact receiptLines_single h
  next => exact receiptLines_single h
  next url entries hurl hone =>
    refine groupLines_single (fun e he => ?_) h
    refine hverbs ?_ e he
    -- an entry of two receipts or more
    by_contra hshort
    have hlength : b.entries.length = 1 := by
      have := List.length_pos_of_mem he
      omega
    obtain ⟨e', he'⟩ := List.length_eq_one_iff.1 hlength
    exact hone e' he'
  next => cases h

/-! ## The lines of the reply -/

theorem madeUp_of_fabricated {calls : List StoredToolInteraction} {line : Str} (h : fabricated env (stripNouns env calls) line = true) :
    MadeUp env calls line := by
  unfold fabricated at h
  split at h
  next verb rest hbullet =>
    rw [Bool.and_eq_true, decide_eq_true_eq, List.any_eq_true] at h
    obtain ⟨hverb, w, hw, hnoun⟩ := h
    obtain ⟨call, hcall, hword⟩ := List.mem_flatMap.1 (of_decide_eq_true hnoun)
    obtain ⟨hmem, hok⟩ := List.mem_filter.1 hcall
    split at hword
    next r hr =>
      obtain ⟨hin, hlong⟩ := List.mem_filter.1 hword
      refine ⟨verb, rest, hbullet, hverb, w, hw, call, hmem, by simpa using hok, r, hr, hin, ?_⟩
      simpa using hlong
    next => cases hword
  next => cases h

theorem cleans_keptLines (calls : List StoredToolInteraction) (below : Bool) (lines : List Str) :
    Cleans env calls below lines (keptLines env (stripNouns env calls) below lines) := by
  induction lines generalizing below with
  | nil => exact .nil below
  | cons line lines ih =>
    rw [keptLines]
    split_ifs with hindent hline
    · obtain ⟨rfl, hindent⟩ := hindent
      exact .continuation hindent (ih true)
    · exact .bullet (madeUp_of_fabricated hline) (ih true)
    · exact .keep (ih false)

theorem cleans_refl (calls : List StoredToolInteraction) (below : Bool) (lines : List Str) : Cleans env calls below lines lines := by
  induction lines generalizing below with
  | nil => exact .nil below
  | cons line lines ih => exact .keep (ih false)

theorem cleaned_of_strip (replyText : Str) (calls : List StoredToolInteraction) :
    ∃ kept blanks, Cleans env calls false (replyText.splitOn '\n') (kept ++ blanks) ∧ (∀ line ∈ blanks, Text.strip line = []) ∧
      stripFabricatedReceipts env replyText calls = Text.join ['\n'] kept := by
  rw [stripFabricatedReceipts]
  split_ifs
  · refine ⟨replyText.splitOn '\n', [], ?_, fun line hline => absurd hline List.not_mem_nil, ?_⟩
    · rw [List.append_nil]
      exact cleans_refl calls false _
    · exact (List.intercalate_splitOn '\n').symm
  · refine ⟨_, (keptLines env (stripNouns env calls) false (replyText.splitOn '\n')).rtakeWhile fun line => Text.strip line = [], ?_, ?_, rfl⟩
    · rw [List.rdropWhile_append_rtakeWhile]
      exact cleans_keptLines calls false _
    · exact fun line hline => of_decide_eq_true (List.mem_rtakeWhile_imp (p := fun line : Str => decide (Text.strip line = [])) hline)

/-- the entries have receipts, one without a url -/
theorem entries_of_mem {calls : List StoredToolInteraction} {b : Bucket} (hb : b ∈ collect calls) :
    b.entries ≠ [] ∧ (b.url = none → ∃ e, b.entries = [e]) := by
  obtain ⟨hshared, halone⟩ := collect_entries (calls.filterMap contributed)
  cases hurl : b.url with
  | none =>
    have hmem : b ∈ (collect calls).filter (·.url = none) := List.mem_filter.2 ⟨hb, decide_eq_true hurl⟩
    rw [collect, halone] at hmem
    obtain ⟨r, -, rfl⟩ := List.mem_map.1 hmem
    exact ⟨List.cons_ne_nil _ _, fun _ => ⟨_, rfl⟩⟩
  | some url =>
    have hmem : b ∈ (collect calls).filter (·.url = some url) := List.mem_filter.2 ⟨hb, decide_eq_true hurl⟩
    rw [collect, hshared url] at hmem
    split_ifs at hmem with hnone
    · cases hmem
    · obtain rfl := List.mem_singleton.1 hmem
      exact ⟨fun h => hnone (List.map_eq_nil_iff.1 h), fun h => by cases h⟩

end

/-- **Receipts.** For every reply and every calls of a turn. -/
theorem receipts_complete (env : Env) (replyText : Str) (calls : List StoredToolInteraction) : Complete env replyText calls where
  shared := (collect_entries (calls.filterMap contributed)).1
  alone := (collect_entries (calls.filterMap contributed)).2
  named := fun b hb e he hne hgeneric => names_targets (entries_of_mem hb).2 he hne hgeneric
  block := by
    rw [collectReceipts]
    exact join_flatMap _ (Bucket.lines env) _ fun b hb => lines_ne_nil b (entries_of_mem hb).1
  unforged := fun hverbs b hb line hline => lines_single (hverbs b hb) hline
  cleaned := by
    obtain ⟨kept, blanks, hcleans, hblanks, hstrip⟩ := @cleaned_of_strip env replyText calls
    refine ⟨kept, blanks, hcleans, hblanks, ?_⟩
    rw [appendReceipts, hstrip]

/-- ASCII -/
def plainEnv : Env := ⟨List.map Char.toLower, fun c => c.isAlphanum || c = '_'⟩

/-- two receipts with one url, the second of which has an action of two lines -/
def twoOnInvoice : List StoredToolInteraction :=
  [⟨false, some ⟨"Created invoice".toList, "Smith".toList, some "https://x.co/1".toList⟩, false⟩,
    ⟨false, some ⟨"Sent invoice\n- deleted customer".toList, "Smith".toList, some "https://x.co/1".toList⟩, false⟩]

/-- **Neither each receipt nor only lines of the renderer.** A receipt without a target has no entry, and in an entry that
receipts share an action of two lines adds a line. -/
theorem verb_breaks_line :
    collect [⟨false, some ⟨"Created invoice".toList, [], none⟩, false⟩] = [] ∧
      formatReceiptsBlock plainEnv twoOnInvoice =
        "- Smith\n  created invoice · sent invoice\n- deleted customer\n  x.co/1".toList := by
  constructor
  · decide +kernel
  · decide +kernel

end Clawbolt.Receipts

/-
Trimming an email body to its own new content (integrations/gmail/body_trim.py).

- `trim_isPrefix`: the text is a prefix of the cleaned lines, and not empty where the cleaned text is not;
- `forward_kept_iff`: a forwarded message is kept exactly where no quoted block ends a body behind a forward marker;
- `named_in_order_iff`: the names of what was removed are in body order exactly where at most one rule cut;
- `trim_meets`: all three together.
-/
import Mathlib.Tactic
import Clawbolt.Core.Regex

namespace Clawbolt.Gmail.BodyTrim

open Text (Str)
open Regex (lit words opt seqs alts spaces)

/-! ## Model -/

structure Env where
  /-- `\w` -/
  isWord : Char → Bool
  /-- `\d` -/
  isDigit : Char → Bool

variable (env : Env)

/-! ### Patterns -/

/-- `.` -/
def notLineEnd (c : Char) : Bool := c ≠ '\n'

/-- `\S` -/
def notSpace (c : Char) : Bool := !Text.isSpace c

def dashes : Regex := .rep (· = '-') 2 none

/-- `_REPLY_HEADER_RE` -/
def replyHeader : Regex :=
  seqs [spaces, words "On" ["Le", "Am", "El", "Op", "Il"], .one Text.isSpace, .rep notLineEnd 0 (some 300),
    words "wrote" ["a écrit", "schrieb", "escribió", "schreef", "ha scritto"], spaces, lit ":", spaces, .finish]

/-- `_ORIGINAL_MESSAGE_RE` -/
def originalMessage : Regex :=
  seqs [spaces, dashes, spaces, words "Original Message" ["Reply message", "Mensaje original"], spaces, dashes, spaces, .finish]

/-- `_OUTLOOK_FROM_RE` -/
def outlookFrom : Regex :=
  seqs [spaces, opt (lit "*"), lit "From:", opt (lit "*"), .rep Text.isSpace 1 none, .one notSpace]

/-- `_OUTLOOK_SENT_RE` -/
def outlookSent : Regex :=
  seqs [spaces, opt (lit "*"), words "Sent" ["Date"], lit ":", opt (lit "*"), .rep Text.isSpace 1 none, .one notSpace]

/-- `_OUTLOOK_TO_RE` -/
def outlookTo : Regex :=
  seqs [spaces, opt (lit "*"), words "To" ["Subject"], lit ":", opt (lit "*"), .one Text.isSpace]

/-- `_OUTLOOK_RULE_RE` -/
def outlookRule : Regex := seqs [spaces, .rep (· = '_') 10 none, spaces, .finish]

/-- `_OUTLOOK_HEADER_WINDOW` -/
def outlookHeaderWindow : ℕ := 5

/-- `_FORWARD_MARKER_RE`, but for the spaces before it -/
def forwardMarkerText : Regex :=
  seqs [alts (seqs [dashes, spaces, lit "Forwarded message", spaces, dashes]) [lit "Begin forwarded message:"], spaces, .finish]

/-- `_FORWARD_MARKER_RE` -/
def forwardMarker : Regex := .seq spaces forwardMarkerText

/-- `_FORWARD_SUBJECT_RE` -/
def forwardSubject : Regex := seqs [spaces, alts (.seq (lit "fw") (opt (lit "d"))) [lit "fw"], spaces, lit ":"]

/-- `_QUOTED_LINE_RE` -/
def quotedLine : Regex := .seq spaces (.one (· = '>'))

/-- `_SIG_DELIMITER_RE` -/
def sigDelimiter : Regex := seqs [lit "--", .rep Text.isSpace 0 (some 1), .finish]

/-- `_MAX_SIGNATURE_LINES` -/
def maxSignatureLines : ℕ := 40

/-- `_MOBILE_SIGNATURE_RE` -/
def mobileSignature : Regex :=
  let aWord : Regex := .rep env.isWord 1 none
  seqs [spaces, alts (.seq (lit "Sent from my ") aWord)
      [seqs [lit "Sent from ", words "Mail" ["Outlook", "Yahoo Mail"], lit " for ", aWord], .seq (lit "Get Outlook for ") aWord],
    .boundary env.isWord, .rep notLineEnd 0 (some 40), .finish]

/-- `e-?mail` -/
def eMail : Regex := seqs [lit "e", opt (lit "-"), lit "mail"]

/-- `_FOOTER_RE` -/
def footer : Regex :=
  alts (lit "unsubscribe")
    [seqs [lit "opt", .one fun c => c = ' ' || c = '-', lit "out"],
      seqs [lit "manage ", opt (lit "your "), opt (words "email " ["notification ", "alert "]),
        words "preferences" ["settings", "subscriptions"]],
      seqs [lit "please do not ", words "reply" ["respond"]],
      seqs [words "mailbox" ["address"], lit " is not monitored"],
      seqs [lit "automated ", words "message" ["email", "notification"]],
      seqs [lit "you ", opt (lit "are "), lit "receiv", words "ed" ["ing"], lit " this ",
        alts eMail [lit "message", lit "notification", lit "alert", lit "because"]],
      seqs [lit "this ", alts eMail [lit "message"], lit " was sent to"],
      seqs [lit "privacy ", words "policy" ["notice", "statement"]],
      seqs [lit "terms of ", words "use" ["service"]],
      lit "all rights reserved",
      lit "copyright",
      lit "©",
      lit "member fdic",
      lit "equal housing",
      seqs [.boundary env.isWord, lit "nmls", .boundary env.isWord],
      lit "confidentiality notice",
      seqs [lit "privileged ", words "and" ["or"], lit " confidential"],
      seqs [lit "confidential ", words "and" ["or"], lit " privileged"],
      seqs [lit "intended ", opt (words "only " ["solely "]), lit "for the ", opt (lit "use of the "),
        opt (words "named " ["intended "]), words "recipient" ["addressee", "individual"]],
      seqs [lit "received this ", alts eMail [lit "message"], lit " in error"],
      seqs [lit "view ", opt (words "it " ["this email "]), lit "in ", opt (words "your " ["a "]), opt (lit "web "), lit "browser"],
      lit "add us to your address book"]

/-- `_AMOUNT_RE` -/
def amount : Regex := seqs [.one (· ∈ ['$', '€', '£']), .rep Text.isSpace 0 (some 1), .one env.isDigit]

/-! ### Cleaning -/

/-- `text.replace("\r\n", "\n").replace("\r", "\n")` -/
def unixLines : Str → Str
  | [] => []
  | [c] => [if c = '\r' then '\n' else c]
  | c :: d :: cs =>
    if c = '\r' then if d = '\n' then unixLines (d :: cs) else '\n' :: unixLines (d :: cs) else c :: unixLines (d :: cs)

/-- the characters of `_INVISIBLE_RE` -/
def invisible : List Char := ['\u034f', '\u200b', '\u200c', '\u200d', '\u2060', '\ufeff', '\u00ad']

def isBlank (c : Char) : Bool := c = ' ' || c = '\t'

/-- `_TRAILING_WS_RE.sub("", text)` -/
def dropTrailingBlanks : Str → Str
  | [] => []
  | c :: cs =>
    let rest := dropTrailingBlanks cs
    if isBlank c = true ∧ rest.head?.all (· = '\n') = true then rest else c :: rest

/-- `_BLANK_RUN_RE.sub("\n\n", text)`; the first `skip` characters are the rest of a run -/
def joinBlankRuns : ℕ → Str → Str
  | _, [] => []
  | skip + 1, _ :: cs => joinBlankRuns skip cs
  | 0, c :: cs =>
    let run := (c :: cs).takeWhile fun a => a = '\n' || isBlank a
    if c = '\n' ∧ 3 ≤ run.count '\n' then '\n' :: '\n' :: joinBlankRuns (run.length - 1) cs else c :: joinBlankRuns 0 cs

/-- `clean_text` -/
def cleanText (text : Str) : Str :=
  let visible := ((unixLines text).filter (· ∉ invisible)).map fun c => if c = '\u00a0' then ' ' else c
  Text.strip (joinBlankRuns 0 (dropTrailingBlanks visible))

/-! ### Scanners -/

def isBlankLine (line : Str) : Bool := Text.strip line = []

/-- `_has_content` -/
def hasContent (lines : List Str) : Bool := lines.any fun line => !isBlankLine line

/-- `_is_outlook_header`, of a line and those after it -/
def isOutlookHeader (line : Str) (rest : List Str) : Bool :=
  let window := rest.take outlookHeaderWindow
  outlookFrom.match? line && window.any outlookSent.match? && window.any outlookTo.match?

/-- a line that opens quoted history, with the lines after it -/
def opensQuote (line : Str) (rest : List Str) : Bool :=
  originalMessage.match? line || replyHeader.match? line ||
    rest.head?.any (fun next => replyHeader.match? (line ++ ' ' :: Text.strip next)) || isOutlookHeader line rest

/-- the loop of `_quote_start`, `before` being the line before -/
def quoteStartFrom : Option Str → ℕ → List Str → Option ℕ
  | _, _, [] => none
  | before, i, line :: rest =>
    if forwardMarker.match? line then none
    else if originalMessage.match? line then some i
    else if replyHeader.match? line then some i
    else if rest.head?.any fun next => replyHeader.match? (line ++ ' ' :: Text.strip next) then some i
    else if isOutlookHeader line rest then
      if before.any outlookRule.match? then some (i - 1) else some i
    else quoteStartFrom (some line) (i + 1) rest

/-- `_quote_start` -/
def quoteStart (lines : List Str) : Option ℕ := quoteStartFrom none 0 lines

/-- `_trailing_quote_start` -/
def trailingQuoteStart (lines : List Str) : Option ℕ :=
  let upTo := lines.rdropWhile isBlankLine
  let start := (upTo.rdropWhile fun line => quotedLine.match? line || isBlankLine line).length
  let block := upTo.drop start
  if block.any quotedLine.match? then some (start + (block.takeWhile isBlankLine).length) else none

/-- `_signature_start` -/
def signatureStart (lines : List Str) : Option ℕ :=
  match lines.zipIdx.find? fun e => sigDelimiter.match? e.1 && lines.length - e.2 - 1 ≤ maxSignatureLines with
  | some e => some e.2
  | none =>
    let upTo := lines.rdropWhile isBlankLine
    if upTo.getLast?.any (mobileSignature env).match? then some (upTo.length - 1) else none

/-- the first loop of `_footer_start`: where the paragraphs start and end -/
def paragraphs : Option ℕ → ℕ → List Str → List (ℕ × ℕ)
  | start, i, [] => start.toList.map fun s => (s, i)
  | start, i, line :: rest =>
    if isBlankLine line then (start.toList.map fun s => (s, i)) ++ paragraphs none (i + 1) rest
    else paragraphs (some (start.getD i)) (i + 1) rest

def isFooter (lines : List Str) (p : ℕ × ℕ) : Bool :=
  let paragraph := Text.join [' '] ((lines.take p.2).drop p.1)
  (footer env).search? paragraph && !(amount env).search? paragraph

/-- `_footer_start` -/
def footerStart (lines : List Str) : Option ℕ :=
  (((paragraphs none 0 lines).reverse.takeWhile (isFooter env lines)).getLast?).map Prod.fst

/-! ### The trim -/

structure TrimmedBody where
  text : Str
  removed : List String
deriving DecidableEq

/-- the lines before a cut, where they have content -/
def cutAt (cut : Option ℕ) (lines : List Str) : List Str :=
  match cut with
  | some c => if hasContent (lines.take c) then lines.take c else lines
  | none => lines

/-- the name of what was removed, where a cut was made -/
def named (name : String) (cut : Option ℕ) (lines : List Str) : List String :=
  match cut with
  | some c => if hasContent (lines.take c) then [name] else []
  | none => []

/-- where quoted history is cut -/
def quoteCut (subject : Str) (lines : List Str) : Option ℕ :=
  if forwardSubject.match? subject then none else (quoteStart lines).or (trailingQuoteStart lines)

/-- where a signature is cut -/
def signatureCut (subject : Str) (lines : List Str) : Option ℕ :=
  if forwardSubject.match? subject || lines.any forwardMarker.match? then none else signatureStart env lines

/-- the lines of the cleaned body -/
def bodyLines (body : Str) : List Str := (cleanText body).splitOn '\n'

/-- the lines without quoted history -/
def unquoted (subject : Str) (lines : List Str) : List Str := cutAt (quoteCut subject lines) lines

/-- and without a signature -/
def unsigned (subject : Str) (lines : List Str) : List Str :=
  cutAt (signatureCut env subject (unquoted subject lines)) (unquoted subject lines)

/-- and without a footer -/
def kept (subject : Str) (lines : List Str) : List Str :=
  cutAt (footerStart env (unsigned env subject lines)) (unsigned env subject lines)

/-- `trim_email_body` -/
def trimEmailBody (body subject : Str) : TrimmedBody :=
  let lines := bodyLines body
  ⟨Text.strip (Text.join ['\n'] (kept env subject lines)),
    named "quoted replies" (quoteCut subject lines) lines ++
      named "signature" (signatureCut env subject (unquoted subject lines)) (unquoted subject lines) ++
      named "footer" (footerStart env (unsigned env subject lines)) (unsigned env subject lines)⟩

variable {env}

/-! ## Lines -/

theorem strip_ne_nil_iff {t : Str} : Text.strip t ≠ [] ↔ ∃ c ∈ t, Text.isSpace c = false := by
  have hnil : Text.strip t = [] ↔ ∀ c ∈ t, Text.isSpace c = true := by
    rw [Text.strip, Text.rstrip, List.rdropWhile_eq_nil_iff]
    constructor
    · intro h
      rw [← List.dropWhile_eq_nil_iff]
      by_contra hne
      have hhead := List.head_dropWhile_not Text.isSpace hne
      exact absurd (h _ (List.head_mem hne)) (by rw [hhead]; exact Bool.false_ne_true)
    · exact fun h c hc => h c ((List.dropWhile_sublist _).subset hc)
  rw [ne_eq, hnil]
  push Not
  exact exists_congr fun c => and_congr_right fun _ => by rw [ne_eq, Bool.not_eq_true]

theorem join_cons {line : Str} {lines : List Str} (h : lines ≠ []) :
    Text.join ['\n'] (line :: lines) = line ++ '\n' :: Text.join ['\n'] lines := by
  rw [Text.join, List.intercalate_cons_of_ne_nil h, List.append_assoc]
  rfl

theorem join_one (line : Str) : Text.join ['\n'] [line] = line := List.intercalate_singleton

/-- lines have content where their text has -/
theorem hasContent_iff {lines : List Str} : hasContent lines = true ↔ ∃ c ∈ Text.join ['\n'] lines, Text.isSpace c = false := by
  have hline : ∀ line, (!isBlankLine line) = true ↔ ∃ c ∈ line, Text.isSpace c = false := by
    intro line
    rw [← strip_ne_nil_iff, isBlankLine, Bool.not_eq_true', decide_eq_false_iff_not]
  induction lines with
  | nil => simp [hasContent, Text.join]
  | cons line lines ih =>
    rw [hasContent, List.any_cons, Bool.or_eq_true, hline]
    have hrest : (lines.any fun line => !isBlankLine line) = true ↔ _ := ih
    rw [hrest]
    by_cases hl : lines = []
    · subst hl
      have hnone : ¬∃ c ∈ Text.join ['\n'] [], Text.isSpace c = false := fun ⟨c, hc, _⟩ => by cases hc
      rw [or_iff_left hnone, join_one]
    · rw [join_cons hl]
      constructor
      · rintro (⟨c, hc, hs⟩ | ⟨c, hc, hs⟩)
        · exact ⟨c, List.mem_append_left _ hc, hs⟩
        · exact ⟨c, List.mem_append_right _ (List.mem_cons_of_mem _ hc), hs⟩
      · rintro ⟨c, hc, hs⟩
        obtain hc | hc := List.mem_append.1 hc
        · exact .inl ⟨c, hc, hs⟩
        · obtain rfl | hc := List.mem_cons.1 hc
          · cases hs
          · exact .inr ⟨c, hc, hs⟩

theorem join_prefix {lines rest : List Str} (h : lines <+: rest) : Text.join ['\n'] lines <+: Text.join ['\n'] rest := by
  induction lines generalizing rest with
  | nil => exact List.nil_prefix
  | cons line lines ih =>
    obtain ⟨more, rfl⟩ := h
    rw [List.cons_append]
    by_cases hl : lines = []
    · subst hl
      rw [List.nil_append]
      by_cases hm : more = []
      · rw [hm]
      · rw [join_cons hm, join_one]
        exact List.prefix_append _ _
    · rw [join_cons hl, join_cons (by simp [hl])]
      exact (List.prefix_append_right_inj line).2 ((List.prefix_cons_inj _).2 (ih ⟨more, rfl⟩))

/-- a start of a text that starts with no space -/
theorem lstrip_of_prefix {t u : Str} (h : u <+: t) (ht : Text.lstrip t = t) : Text.lstrip u = u := by
  cases u with
  | nil => rfl
  | cons c u =>
    obtain ⟨v, rfl⟩ := h
    refine List.dropWhile_cons_of_neg fun hc => ?_
    rw [Text.lstrip, List.cons_append, List.dropWhile_cons_of_pos hc] at ht
    have hle := (List.dropWhile_sublist Text.isSpace (l := u ++ v)).length_le
    rw [ht, List.length_cons] at hle
    omega

theorem join_bodyLines (body : Str) : Text.join ['\n'] (bodyLines body) = cleanText body := List.intercalate_splitOn '\n'

theorem lstrip_cleanText (body : Str) : Text.lstrip (cleanText body) = cleanText body := by
  rw [cleanText]
  exact Text.lstrip_rstrip (List.dropWhile_idempotent _ _)

theorem hasContent_bodyLines {body : Str} (h : cleanText body ≠ []) : hasContent (bodyLines body) = true := by
  rw [hasContent_iff, join_bodyLines]
  rw [cleanText, ← Text.strip_strip, ← cleanText] at h
  exact strip_ne_nil_iff.1 h

/-! ## Cuts -/

/-- the rule cuts: what is before its cut has content -/
def Cuts (cut : Option ℕ) (lines : List Str) : Prop := ∃ c, cut = some c ∧ hasContent (lines.take c) = true

instance (cut : Option ℕ) (lines : List Str) : Decidable (Cuts cut lines) :=
  match cut with
  | some c => decidable_of_iff (hasContent (lines.take c) = true) ⟨fun h => ⟨c, rfl, h⟩, fun ⟨_, he, h⟩ => Option.some.inj he ▸ h⟩
  | none => .isFalse fun ⟨_, he, _⟩ => by cases he

theorem named_eq (name : String) (cut : Option ℕ) (lines : List Str) :
    named name cut lines = if Cuts cut lines then [name] else [] := by
  cases cut with
  | none =>
    rw [named, if_neg]
    rintro ⟨_, he, -⟩
    cases he
  | some c =>
    rw [named]
    refine if_congr ⟨fun h => ⟨c, rfl, h⟩, ?_⟩ rfl rfl
    rintro ⟨_, he, h⟩
    exact Option.some.inj he ▸ h

theorem cutAt_cases (cut : Option ℕ) (lines : List Str) :
    ¬Cuts cut lines ∧ cutAt cut lines = lines ∨
      ∃ c, cut = some c ∧ hasContent (lines.take c) = true ∧ cutAt cut lines = lines.take c := by
  cases cut with
  | none =>
    refine .inl ⟨?_, rfl⟩
    rintro ⟨_, he, -⟩
    cases he
  | some c =>
    rw [cutAt]
    split_ifs with h
    · exact .inr ⟨c, rfl, h, rfl⟩
    · exact .inl ⟨fun ⟨_, he, hc⟩ => h (Option.some.inj he ▸ hc), rfl⟩

theorem cutAt_isPrefix (cut : Option ℕ) (lines : List Str) : cutAt cut lines <+: lines := by
  obtain ⟨-, h⟩ | ⟨c, -, -, h⟩ := cutAt_cases cut lines
  · rw [h]
  · rw [h]
    exact List.take_prefix c lines

theorem hasContent_cutAt {cut : Option ℕ} {lines : List Str} (h : hasContent lines = true) :
    hasContent (cutAt cut lines) = true := by
  obtain ⟨-, hcut⟩ | ⟨c, -, hcontent, hcut⟩ := cutAt_cases cut lines
  · rwa [hcut]
  · rwa [hcut]

/-- with a cut before the end, lines go exactly where the rule cuts -/
theorem length_cutAt_lt_iff {cut : Option ℕ} {lines : List Str} (hcut : ∀ c, cut = some c → c < lines.length) :
    (cutAt cut lines).length < lines.length ↔ Cuts cut lines := by
  obtain ⟨hnot, h⟩ | ⟨c, hc, hcontent, h⟩ := cutAt_cases cut lines
  · rw [h]
    exact ⟨fun hlt => absurd hlt (lt_irrefl _), fun hcuts => absurd hcuts hnot⟩
  · rw [h, List.length_take]
    exact ⟨fun _ => ⟨c, hc, hcontent⟩, fun _ => (min_le_left _ _).trans_lt (hcut c hc)⟩

/-! ## Where the scanners stop -/

theorem quoteStartFrom_bounds {before : Option Str} {i c : ℕ} {lines : List Str} (h : quoteStartFrom before i lines = some c) :
    c < i + lines.length := by
  induction lines generalizing before i with
  | nil => cases h
  | cons line rest ih =>
    rw [quoteStartFrom] at h
    rw [List.length_cons]
    split_ifs at h
    all_goals first | (obtain rfl := Option.some.inj h; omega) | skip
    have := ih h
    omega

theorem rdropWhile_split {α : Type} (p : α → Bool) (l : List α) : ∃ r, l = l.rdropWhile p ++ r ∧ ∀ a ∈ r, p a = true :=
  ⟨l.rtakeWhile p, List.rdropWhile_append_rtakeWhile.symm, fun _ => List.mem_rtakeWhile_imp⟩

/-- the first character of a line that is no space -/
def lead (line : Str) : Option Char := line.find? fun c => !Text.isSpace c

theorem lead_blank {line : Str} (h : isBlankLine line = true) : lead line = none := by
  rw [lead, List.find?_eq_none]
  intro c hc hs
  have hne := strip_ne_nil_iff.2 ⟨c, hc, by simpa using hs⟩
  exact hne (of_decide_eq_true h)

theorem lead_quoted {line : Str} (h : quotedLine.match? line = true) : lead line = some '>' := by
  obtain ⟨c, hc, hfirst⟩ := Regex.match?_spaces rfl (fun c hc => by rw [of_decide_eq_true hc]; rfl) h
  rwa [of_decide_eq_true hfirst] at hc

theorem alike_B {c : Char} (h : Regex.alike 'B' c = true) : c = 'b' ∨ c = 'B' := by
  have hlower : Regex.lower c = 'b' := by
    have hB : Regex.lower 'B' = 'b' := by decide
    rw [Regex.alike, hB] at h
    simpa using h
  unfold Regex.lower at hlower
  split at hlower
  · cases hlower
  · cases hlower
  · cases hlower
  · cases hlower
  · unfold Char.toLower at hlower
    split at hlower
    next hr =>
      right
      have hval : c.val + 32 = 98 := congrArg Char.val hlower
      have hleast : 65 ≤ c.val.toNat := UInt32.le_iff_toNat_le.1 hr.1
      have hmost : c.val.toNat ≤ 90 := UInt32.le_iff_toNat_le.1 hr.2
      have hnat : (c.val.toNat + 32) % 4294967296 = 98 := by
        have := congrArg UInt32.toNat hval
        rwa [UInt32.toNat_add] at this
      refine Char.ext (UInt32.toNat_inj.1 ?_)
      show c.val.toNat = 66
      omega
    next => exact .inl hlower

theorem first_forwardMarker {c : Char} (h : forwardMarkerText.first c = true) : c = '-' ∨ c = 'b' ∨ c = 'B' := by
  have hfirst : forwardMarkerText.first c = (decide (c = '-') || Regex.alike 'B' c) := by
    simp [forwardMarkerText, seqs, alts, dashes, lit, Regex.first, Regex.nullable]
  rw [hfirst, Bool.or_eq_true, decide_eq_true_iff] at h
  obtain h | h := h
  · exact .inl h
  · exact .inr (alike_B h)

theorem lead_marker {line : Str} (h : forwardMarker.match? line = true) :
    lead line = some '-' ∨ lead line = some 'b' ∨ lead line = some 'B' := by
  have hspace : ∀ c, forwardMarkerText.first c = true → Text.isSpace c = false := by
    intro c hc
    obtain rfl | rfl | rfl := first_forwardMarker hc <;> rfl
  obtain ⟨c, hc, hfirst⟩ := Regex.match?_spaces (by simp [forwardMarkerText, seqs, alts, dashes, lit, Regex.nullable]) hspace h
  rw [lead, hc]
  obtain rfl | rfl | rfl := first_forwardMarker hfirst
  · exact .inl rfl
  · exact .inr (.inl rfl)
  · exact .inr (.inr rfl)

/-- a forward marker is neither blank nor quoted -/
theorem not_quoted_of_marker {line : Str} (h : forwardMarker.match? line = true) :
    isBlankLine line = false ∧ quotedLine.match? line = false := by
  have hlead := lead_marker h
  constructor
  · by_contra hblank
    rw [lead_blank (by simpa using hblank)] at hlead
    obtain hc | hc | hc := hlead <;> cases hc
  · by_contra hquoted
    rw [lead_quoted (by simpa using hquoted)] at hlead
    obtain hc | hc | hc := hlead <;> cases hc

/-- the trailing block: from its start on all lines are quoted or blank -/
theorem trailingQuoteStart_spec {lines : List Str} {c : ℕ} (h : trailingQuoteStart lines = some c) :
    c < lines.length ∧ ∀ line ∈ lines.drop c, quotedLine.match? line = true ∨ isBlankLine line = true := by
  obtain ⟨blanks, hlines, hblanks⟩ := rdropWhile_split isBlankLine lines
  obtain ⟨block, hupTo, hblock⟩ :=
    rdropWhile_split (fun line => quotedLine.match? line || isBlankLine line) (lines.rdropWhile isBlankLine)
  rw [trailingQuoteStart] at h
  generalize (lines.rdropWhile isBlankLine).rdropWhile (fun line => quotedLine.match? line || isBlankLine line) = own at h hupTo
  rw [hupTo, List.drop_left] at h
  split_ifs at h with hany
  obtain rfl := Option.some.inj h
  -- the block has a quoted line, which is not blank
  have hlt : (block.takeWhile isBlankLine).length < block.length := by
    by_contra hge
    have hwhole : block.takeWhile isBlankLine = block :=
      (List.takeWhile_prefix _).eq_of_length (le_antisymm (List.takeWhile_prefix _).length_le (not_lt.1 hge))
    obtain ⟨line, hline, hquoted⟩ := List.any_eq_true.1 hany
    have hlead := lead_quoted hquoted
    rw [lead_blank (List.mem_takeWhile_imp (hwhole ▸ hline))] at hlead
    cases hlead
  have hall : lines = own ++ (block ++ blanks) := by rw [← List.append_assoc, ← hupTo, ← hlines]
  refine ⟨?_, fun line hline => ?_⟩
  · rw [hall, List.length_append, List.length_append]
    omega
  · rw [hall, ← List.drop_drop, List.drop_left] at hline
    obtain hline | hline := List.mem_append.1 (List.mem_of_mem_drop hline)
    · exact Bool.or_eq_true _ _ ▸ hblock line hline
    · exact .inr (hblanks line hline)

theorem signatureStart_bounds {lines : List Str} {c : ℕ} (h : signatureStart env lines = some c) : c < lines.length := by
  rw [signatureStart] at h
  split at h
  next e he =>
    obtain rfl := Option.some.inj h
    have hentry : lines[e.2]? = some e.1 := List.mk_mem_zipIdx_iff_getElem?.1 (List.mem_of_find?_eq_some he)
    exact (List.getElem?_eq_some_iff.1 hentry).1
  next =>
    dsimp only at h
    split_ifs at h with hany
    obtain rfl := Option.some.inj h
    have hpos : 0 < (lines.rdropWhile isBlankLine).length := by
      rw [List.length_pos_iff]
      intro hnil
      rw [hnil] at hany
      cases hany
    have hle := (List.rdropWhile_prefix isBlankLine lines).length_le
    omega

theorem paragraphs_bounds {start : Option ℕ} {i : ℕ} {lines : List Str} (hstart : ∀ s, start = some s → s < i) {p : ℕ × ℕ}
    (hp : p ∈ paragraphs start i lines) : p.1 < i + lines.length := by
  induction lines generalizing start i with
  | nil =>
    obtain ⟨s, hs, rfl⟩ := List.mem_map.1 hp
    exact hstart s (Option.mem_toList.1 hs)
  | cons line rest ih =>
    rw [paragraphs] at hp
    rw [List.length_cons]
    split_ifs at hp
    · obtain hp | hp := List.mem_append.1 hp
      · obtain ⟨s, hs, rfl⟩ := List.mem_map.1 hp
        have := hstart s (Option.mem_toList.1 hs)
        show s < _
        omega
      · have := ih (fun s hs => by cases hs) hp
        omega
    · have hnext : ∀ s, some (start.getD i) = some s → s < i + 1 := by
        rintro s hs
        obtain rfl := Option.some.inj hs
        cases start with
        | none => exact Nat.lt_succ_self i
        | some s => exact (hstart s rfl).trans (Nat.lt_succ_self i)
      have := ih hnext hp
      omega

theorem footerStart_bounds {lines : List Str} {c : ℕ} (h : footerStart env lines = some c) : c < lines.length := by
  obtain ⟨p, hp, rfl⟩ := Option.map_eq_some_iff.1 h
  have hmem := List.mem_reverse.1 ((List.takeWhile_prefix _).subset (List.mem_of_getLast? hp))
  have := paragraphs_bounds (fun s hs => by cases hs) hmem
  rwa [Nat.zero_add] at this

/-! ## The parts of the claim -/

/-- the text is a prefix of the lines, up to trailing whitespace, and not empty where the cleaned text is not -/
structure IsPrefix (env : Env) (body subject : Str) : Prop where
  text : (trimEmailBody env body subject).text = Text.rstrip (Text.join ['\n'] (kept env subject (bodyLines body)))
  lines : kept env subject (bodyLines body) <+: bodyLines body
  nonempty : cleanText body ≠ [] → (trimEmailBody env body subject).text ≠ []

/-- there is a forward marker, and no quote header starts on an earlier line -/
def MarkerFirst (lines : List Str) : Prop :=
  ∃ before marker after, lines = before ++ marker :: after ∧ forwardMarker.match? marker = true ∧
    ∀ a line b, before = a ++ line :: b → opensQuote line (b ++ marker :: after) = false

/-- a forwarded message is kept, but for a footer that ends the body -/
def ForwardKept (env : Env) (body subject : Str) : Prop :=
  forwardSubject.match? subject = true ∨ MarkerFirst (bodyLines body) →
    "quoted replies" ∉ (trimEmailBody env body subject).removed ∧ "signature" ∉ (trimEmailBody env body subject).removed ∧
      (kept env subject (bodyLines body) = bodyLines body ∨
        ∃ c, footerStart env (bodyLines body) = some c ∧ kept env subject (bodyLines body) = (bodyLines body).take c)

/-- what was removed is named in body order, each rule exactly where it cut lines -/
def NamedInOrder (env : Env) (body subject : Str) : Prop :=
  (trimEmailBody env body subject).removed =
    (if (kept env subject (bodyLines body)).length < (unsigned env subject (bodyLines body)).length then ["footer"] else []) ++
      (if (unsigned env subject (bodyLines body)).length < (unquoted subject (bodyLines body)).length then ["signature"] else []) ++
      if (unquoted subject (bodyLines body)).length < (bodyLines body).length then ["quoted replies"] else []

/-! ### The prefix -/

theorem unquoted_isPrefix (subject : Str) (lines : List Str) : unquoted subject lines <+: lines := cutAt_isPrefix _ _

theorem unsigned_isPrefix (subject : Str) (lines : List Str) : unsigned env subject lines <+: unquoted subject lines :=
  cutAt_isPrefix _ _

theorem kept_isPrefix (subject : Str) (lines : List Str) : kept env subject lines <+: lines :=
  ((cutAt_isPrefix _ _).trans (unsigned_isPrefix subject lines)).trans (unquoted_isPrefix subject lines)

theorem hasContent_kept {subject : Str} {lines : List Str} (h : hasContent lines = true) :
    hasContent (kept env subject lines) = true :=
  hasContent_cutAt (hasContent_cutAt (hasContent_cutAt h))

theorem trim_isPrefix (env : Env) (body subject : Str) : IsPrefix env body subject where
  text := by
    have hstart : Text.lstrip (Text.join ['\n'] (kept env subject (bodyLines body))) = _ :=
      lstrip_of_prefix (join_bodyLines body ▸ join_prefix (kept_isPrefix subject (bodyLines body))) (lstrip_cleanText body)
    rw [trimEmailBody]
    show Text.strip _ = _
    rw [Text.strip, hstart]
  lines := kept_isPrefix subject (bodyLines body)
  nonempty := fun h => strip_ne_nil_iff.2 (hasContent_iff.1 (hasContent_kept (hasContent_bodyLines h)))

/-! ### Forwarded messages -/

theorem quoteStartFrom_marker {pre : Option Str} {i : ℕ} {before after : List Str} {marker : Str}
    (hmarker : forwardMarker.match? marker = true)
    (hnone : ∀ a line b, before = a ++ line :: b → opensQuote line (b ++ marker :: after) = false) :
    quoteStartFrom pre i (before ++ marker :: after) = none := by
  induction before generalizing pre i with
  | nil => rw [List.nil_append, quoteStartFrom, if_pos hmarker]
  | cons line rest ih =>
    have hline := hnone [] line rest rfl
    rw [opensQuote, Bool.or_eq_false_iff, Bool.or_eq_false_iff, Bool.or_eq_false_iff] at hline
    obtain ⟨⟨⟨horiginal, hreply⟩, hjoined⟩, houtlook⟩ := hline
    rw [List.cons_append, quoteStartFrom, horiginal, hreply, hjoined, houtlook]
    by_cases hm : forwardMarker.match? line = true
    · rw [if_pos hm]
    · rw [if_neg hm, if_neg Bool.false_ne_true, if_neg Bool.false_ne_true, if_neg Bool.false_ne_true, if_neg Bool.false_ne_true]
      exact ih fun a line' b hsplit => hnone (line :: a) line' b (by rw [hsplit]; rfl)

theorem quoteStart_marker {lines : List Str} (h : MarkerFirst lines) : quoteStart lines = none := by
  obtain ⟨before, marker, after, rfl, hmarker, hnone⟩ := h
  exact quoteStartFrom_marker hmarker hnone

/-- a trailing block starts behind every forward marker -/
theorem marker_mem_take {lines : List Str} {c : ℕ} (h : trailingQuoteStart lines = some c) {marker : Str} (hmem : marker ∈ lines)
    (hmarker : forwardMarker.match? marker = true) : marker ∈ lines.take c := by
  rw [← List.take_append_drop c lines] at hmem
  obtain hmem | hmem := List.mem_append.1 hmem
  · exact hmem
  · have hnot := not_quoted_of_marker hmarker
    obtain hq | hb := (trailingQuoteStart_spec h).2 marker hmem
    · rw [hnot.2] at hq
      cases hq
    · rw [hnot.1] at hb
      cases hb

theorem hasContent_of_marker {lines : List Str} {marker : Str} (hmem : marker ∈ lines)
    (hmarker : forwardMarker.match? marker = true) : hasContent lines = true :=
  List.any_eq_true.2 ⟨marker, hmem, by rw [(not_quoted_of_marker hmarker).1]; rfl⟩

theorem mem_named {name : String} {cut : Option ℕ} {lines : List Str} {other : String} (h : other ∈ named name cut lines) :
    other = name ∧ Cuts cut lines := by
  rw [named_eq] at h
  split_ifs at h with hcuts
  · exact ⟨List.mem_singleton.1 h, hcuts⟩
  · cases h

theorem mem_removed {body subject : Str} {name : String} (h : name ∈ (trimEmailBody env body subject).removed) :
    name = "quoted replies" ∧ Cuts (quoteCut subject (bodyLines body)) (bodyLines body) ∨
      name = "signature" ∧ Cuts (signatureCut env subject (unquoted subject (bodyLines body))) (unquoted subject (bodyLines body)) ∨
      name = "footer" := by
  obtain h | h := List.mem_append.1 h
  · obtain h | h := List.mem_append.1 h
    · exact .inl (mem_named h)
    · exact .inr (.inl (mem_named h))
  · exact .inr (.inr (mem_named h).1)

/-- with no cut of quoted history and a forward, only a footer goes -/
theorem forward_kept {body subject : Str} (hquote : quoteCut subject (bodyLines body) = none)
    (hforward : forwardSubject.match? subject = true ∨ ∃ marker ∈ bodyLines body, forwardMarker.match? marker = true) :
    "quoted replies" ∉ (trimEmailBody env body subject).removed ∧ "signature" ∉ (trimEmailBody env body subject).removed ∧
      (kept env subject (bodyLines body) = bodyLines body ∨
        ∃ c, footerStart env (bodyLines body) = some c ∧ kept env subject (bodyLines body) = (bodyLines body).take c) := by
  have hunquoted : unquoted subject (bodyLines body) = bodyLines body := by rw [unquoted, hquote, cutAt]
  have hsignature : signatureCut env subject (bodyLines body) = none := by
    rw [signatureCut, if_pos]
    rw [Bool.or_eq_true, List.any_eq_true]
    exact hforward
  have hunsigned : unsigned env subject (bodyLines body) = bodyLines body := by rw [unsigned, hunquoted, hsignature, cutAt]
  have hnocut : ∀ lines, ¬Cuts none lines := by
    rintro lines ⟨_, he, -⟩
    cases he
  refine ⟨fun hmem => ?_, fun hmem => ?_, ?_⟩
  · obtain ⟨-, hcuts⟩ | ⟨he, -⟩ | he := mem_removed hmem
    · exact hnocut _ (hquote ▸ hcuts)
    · exact absurd he (by decide)
    · exact absurd he (by decide)
  · obtain ⟨he, -⟩ | ⟨-, hcuts⟩ | he := mem_removed hmem
    · exact absurd he (by decide)
    · rw [hunquoted, hsignature] at hcuts
      exact hnocut _ hcuts
    · exact absurd he (by decide)
  · rw [kept, hunsigned]
    obtain ⟨-, h⟩ | ⟨c, hc, -, h⟩ := cutAt_cases (footerStart env (bodyLines body)) (bodyLines body)
    · exact .inl h
    · exact .inr ⟨c, hc, h⟩

/-- **Forwards.** A forwarded message is kept exactly where no quoted block ends a body whose first header is a forward marker. -/
theorem forward_kept_iff (env : Env) (body subject : Str) : ForwardKept env body subject ↔
    (forwardSubject.match? subject = false → MarkerFirst (bodyLines body) → trailingQuoteStart (bodyLines body) = none) := by
  constructor
  · intro h hsubject hmarker
    by_contra hne
    obtain ⟨c, hc⟩ := Option.ne_none_iff_exists'.1 hne
    obtain ⟨before, marker, after, hlines, hm, -⟩ := id hmarker
    have hmem : marker ∈ bodyLines body := by rw [hlines]; exact List.mem_append_right _ List.mem_cons_self
    have hcut : quoteCut subject (bodyLines body) = some c := by
      rw [quoteCut, hsubject, if_neg Bool.false_ne_true, quoteStart_marker hmarker, hc]
      rfl
    have hcuts : Cuts (quoteCut subject (bodyLines body)) (bodyLines body) :=
      ⟨c, hcut, hasContent_of_marker (marker_mem_take hc hmem hm) hm⟩
    refine (h (.inr hmarker)).1 (List.mem_append_left _ (List.mem_append_left _ ?_))
    rw [named_eq, if_pos hcuts]
    exact List.mem_singleton_self _
  · intro h hforward
    by_cases hsubject : forwardSubject.match? subject = true
    · exact forward_kept (by rw [quoteCut, if_pos hsubject]) (.inl hsubject)
    · have hmarker := hforward.resolve_left hsubject
      obtain ⟨before, marker, after, hlines, hm, -⟩ := id hmarker
      refine forward_kept ?_ (.inr ⟨marker, by rw [hlines]; exact List.mem_append_right _ List.mem_cons_self, hm⟩)
      rw [quoteCut, if_neg hsubject, quoteStart_marker hmarker, h (by simpa using hsubject) hmarker]
      rfl

/-! ### The names -/

/-- where a rule cuts, the rules after it do not cut what is before its cut -/
def AtMostOneRule (env : Env) (subject : Str) (lines : List Str) : Prop :=
  (∀ c, quoteCut subject lines = some c → hasContent (lines.take c) = true →
    ¬Cuts (signatureCut env subject (lines.take c)) (lines.take c) ∧ ¬Cuts (footerStart env (lines.take c)) (lines.take c)) ∧
  (¬Cuts (quoteCut subject lines) lines → ∀ c, signatureCut env subject lines = some c → hasContent (lines.take c) = true →
    ¬Cuts (footerStart env (lines.take c)) (lines.take c))

theorem unsigned_of_not_cuts {subject : Str} {lines : List Str}
    (h : ¬Cuts (signatureCut env subject (unquoted subject lines)) (unquoted subject lines)) :
    unsigned env subject lines = unquoted subject lines := by
  obtain ⟨-, hcut⟩ | ⟨c, hc, hcontent, -⟩ :=
    cutAt_cases (signatureCut env subject (unquoted subject lines)) (unquoted subject lines)
  · exact hcut
  · exact absurd ⟨c, hc, hcontent⟩ h

/-- no two of the rules cut, as they follow one another -/
theorem atMostOneRule_iff {subject : Str} {lines : List Str} : AtMostOneRule env subject lines ↔
    ¬(Cuts (quoteCut subject lines) lines ∧
        Cuts (signatureCut env subject (unquoted subject lines)) (unquoted subject lines)) ∧
      ¬(Cuts (quoteCut subject lines) lines ∧ Cuts (footerStart env (unsigned env subject lines)) (unsigned env subject lines)) ∧
      ¬(Cuts (signatureCut env subject (unquoted subject lines)) (unquoted subject lines) ∧
        Cuts (footerStart env (unsigned env subject lines)) (unsigned env subject lines)) := by
  have hsame := @unsigned_of_not_cuts env subject lines
  obtain ⟨hnot, hquotes⟩ | ⟨c, hc, hcontent, hquotes⟩ := cutAt_cases (quoteCut subject lines) lines
  · have hunquoted : unquoted subject lines = lines := hquotes
    rw [hunquoted]
    constructor
    · rintro ⟨-, h⟩
      refine ⟨fun hp => hnot hp.1, fun hp => hnot hp.1, ?_⟩
      rintro ⟨⟨c, hc, hcontent⟩, hfooter⟩
      have hunsigned : unsigned env subject lines = lines.take c := by
        rw [unsigned, hunquoted, hc, cutAt, if_pos hcontent]
      exact h hnot c hc hcontent (hunsigned ▸ hfooter)
    · rintro ⟨-, -, h⟩
      refine ⟨fun c hc hcontent => absurd ⟨c, hc, hcontent⟩ hnot, fun _ c hc hcontent hfooter => h ⟨⟨c, hc, hcontent⟩, ?_⟩⟩
      have hunsigned : unsigned env subject lines = lines.take c := by
        rw [unsigned, hunquoted, hc, cutAt, if_pos hcontent]
      rwa [hunsigned]
  · have hcuts : Cuts (quoteCut subject lines) lines := ⟨c, hc, hcontent⟩
    have hunquoted : unquoted subject lines = lines.take c := hquotes
    rw [hunquoted] at hsame ⊢
    constructor
    · rintro ⟨h, -⟩
      obtain ⟨hsig, hfooter⟩ := h c hc hcontent
      exact ⟨fun hp => hsig hp.2, fun hp => hfooter (hsame hsig ▸ hp.2), fun hp => hsig hp.1⟩
    · rintro ⟨hsig, hfooter, -⟩
      have hnosig := fun h => hsig ⟨hcuts, h⟩
      refine ⟨fun d hd _ => ?_, fun h => absurd hcuts h⟩
      obtain rfl := Option.some.inj (hc.symm.trans hd)
      exact ⟨hnosig, fun h => hfooter ⟨hcuts, by rwa [hsame hnosig]⟩⟩

theorem quoteCut_bounds {subject : Str} {lines : List Str} {c : ℕ} (h : quoteCut subject lines = some c) : c < lines.length := by
  rw [quoteCut] at h
  split_ifs at h
  obtain h | ⟨-, h⟩ := Option.or_eq_some_iff.1 h
  · have := quoteStartFrom_bounds h
    rwa [Nat.zero_add] at this
  · exact (trailingQuoteStart_spec h).1

theorem signatureCut_bounds {subject : Str} {lines : List Str} {c : ℕ} (h : signatureCut env subject lines = some c) :
    c < lines.length := by
  rw [signatureCut] at h
  split_ifs at h
  exact signatureStart_bounds h

/-- three names that may each be there, forwards and backwards -/
theorem names_reversed_iff {p q r : Prop} [Decidable p] [Decidable q] [Decidable r] :
    (if p then ["quoted replies"] else []) ++ (if q then ["signature"] else []) ++ (if r then ["footer"] else []) =
        (if r then ["footer"] else []) ++ (if q then ["signature"] else []) ++ (if p then ["quoted replies"] else []) ↔
      ¬(p ∧ q) ∧ ¬(p ∧ r) ∧ ¬(q ∧ r) := by
  by_cases hp : p <;> by_cases hq : q <;> by_cases hr : r <;> simp [hp, hq, hr]

/-- **Names.** The names are in body order exactly where at most one rule cut. -/
theorem named_in_order_iff (env : Env) (body subject : Str) :
    NamedInOrder env body subject ↔ AtMostOneRule env subject (bodyLines body) := by
  have hquotes : (unquoted subject (bodyLines body)).length < (bodyLines body).length ↔
      Cuts (quoteCut subject (bodyLines body)) (bodyLines body) := length_cutAt_lt_iff fun c hc => quoteCut_bounds hc
  have hsignature : (unsigned env subject (bodyLines body)).length < (unquoted subject (bodyLines body)).length ↔
      Cuts (signatureCut env subject (unquoted subject (bodyLines body))) (unquoted subject (bodyLines body)) :=
    length_cutAt_lt_iff fun c hc => signatureCut_bounds hc
  have hfooter : (kept env subject (bodyLines body)).length < (unsigned env subject (bodyLines body)).length ↔
      Cuts (footerStart env (unsigned env subject (bodyLines body))) (unsigned env subject (bodyLines body)) :=
    length_cutAt_lt_iff fun c hc => footerStart_bounds hc
  rw [NamedInOrder, trimEmailBody]
  dsimp only
  rw [named_eq, named_eq, named_eq, if_congr hquotes rfl rfl, if_congr hsignature rfl rfl, if_congr hfooter rfl rfl, atMostOneRule_iff]
  exact names_reversed_iff

/-- **Trimming.** The text is always a prefix of the lines; forwarded messages are kept and the names are in body order
exactly where no quoted block ends a body behind a first forward marker, and at most one rule cuts. -/
theorem trim_meets (env : Env) (body subject : Str) :
    IsPrefix env body subject ∧ ForwardKept env body subject ∧ NamedInOrder env body subject ↔
      (forwardSubject.match? subject = false → MarkerFirst (bodyLines body) → trailingQuoteStart (bodyLines body) = none) ∧
        AtMostOneRule env subject (bodyLines body) := by
  rw [forward_kept_iff, named_in_order_iff]
  exact and_iff_right (trim_isPrefix env body subject)

/-! ## Bodies that are cut wrongly -/

/-- the characters of words and the digits, of ASCII -/
def asciiEnv : Env := ⟨fun c => c.isAlphanum || c = '_', Char.isDigit⟩

/-- a forward whose forwarded message is a reply that ends in its own quote -/
def forwardedQuote : Str := "FYI\n-- Forwarded message --\n\n> Passed.".toList

/-- an answer with a footer above the message it quotes -/
def footerAboveQuote : Str := "Paid.\n\nUnsubscribe\n\n> Paid?".toList

/-- the forwarded text is cut; the quote, which is last in the body, is named first -/
theorem forwarded_quote_cut :
    ¬(∀ body subject, IsPrefix asciiEnv body subject ∧ ForwardKept asciiEnv body subject ∧ NamedInOrder asciiEnv body subject) ∧
    trimEmailBody asciiEnv forwardedQuote [] = ⟨"FYI\n-- Forwarded message --".toList, ["quoted replies"]⟩ ∧
    trimEmailBody asciiEnv footerAboveQuote [] = ⟨"Paid.".toList, ["quoted replies", "footer"]⟩ := by
  have hforward : trimEmailBody asciiEnv forwardedQuote [] = ⟨"FYI\n-- Forwarded message --".toList, ["quoted replies"]⟩ := by
    decide +kernel
  have hfooter : trimEmailBody asciiEnv footerAboveQuote [] = ⟨"Paid.".toList, ["quoted replies", "footer"]⟩ := by decide +kernel
  refine ⟨fun hall => ?_, hforward, hfooter⟩
  have hlines : bodyLines forwardedQuote =
      ["FYI".toList] ++ "-- Forwarded message --".toList :: [[], "> Passed.".toList] := by decide +kernel
  have hopens : opensQuote "FYI".toList ["-- Forwarded message --".toList, [], "> Passed.".toList] = false := by decide +kernel
  have hfirst : MarkerFirst (bodyLines forwardedQuote) := by
    refine ⟨_, _, _, hlines, by decide +kernel, fun a line b hsplit => ?_⟩
    obtain ⟨rfl, rfl, rfl⟩ : a = [] ∧ line = "FYI".toList ∧ b = [] := by
      cases a with
      | nil =>
        obtain ⟨rfl, rfl⟩ := List.cons.inj hsplit
        exact ⟨rfl, rfl, rfl⟩
      | cons x a =>
        have := (List.cons.inj hsplit).2
        cases a <;> cases this
    exact hopens
  have hkept := ((hall forwardedQuote []).2.1 (.inr hfirst)).1
  rw [hforward] at hkept
  exact hkept List.mem_cons_self

end Clawbolt.Gmail.BodyTrim

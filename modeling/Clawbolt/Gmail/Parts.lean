/-
The parts of a Gmail message (integrations/gmail/service.py): the walk that picks the body, and the walk that lists the
attachments.

A part is known by its place in the tree, and the body comes with the place that it is from. A field that is missing or null
is the empty text.

- `parts_separated`: what is listed, where the body comes from, and when it is not empty;
- `attached_text_shown`: the text of an attached message is taken for the sender's own.
-/
import Mathlib.Tactic
import Clawbolt.Core.Base64
import Clawbolt.Core.Markup
import Clawbolt.Core.Replacement
import Clawbolt.Core.Rose

namespace Clawbolt.Gmail

open Text (Str strip startsWith isSpace)
open Roses

/-- a part without its subparts -/
structure PartData where
  partId : Str
  mimeType : Str
  filename : Str
  headers : List (Str × Str)
  data : Str
  attachmentId : Str
  size : ℕ
deriving DecidableEq

abbrev Part := Rose PartData

def Part.data : Part → PartData
  | .node data _ => data

structure Env where
  lower : Str → Str
  /-- `\w` -/
  isWord : Char → Bool
  lower_plain : lower "text/plain".toList = "text/plain".toList
  lower_html : lower "text/html".toList = "text/html".toList

variable (env : Env)

/-! ## Texts -/

/-- `_b64url_decode`; a text that is not ASCII is refused -/
def b64urlDecode (data : Str) : Option (List UInt8) :=
  if data.all fun c => c.toNat < 128 then
    Base64.decode (data.map (fun c => UInt8.ofNat c.toNat) ++ List.replicate ((4 - data.length % 4) % 4) Base64.padding)
  else none

def decodePartData (p : PartData) : Str :=
  match b64urlDecode p.data with
  | some raw => Utf8.decodeReplace 0 raw
  | none => []

/-- `href = "url" ...>`, and what follows it -/
def hrefAt (t : Str) : Option (Str × Str) :=
  if (t.take 4).map Char.toLower ≠ "href".toList then none
  else
    match (t.drop 4).dropWhile isSpace with
    | '=' :: cs =>
      match cs.dropWhile isSpace with
      | quote :: cs =>
        let isEnd (c : Char) : Bool := c = '"' || c = '\''
        let url := cs.takeWhile fun c => !isEnd c && !isSpace c && c ≠ '>'
        let rest := cs.drop url.length
        if isEnd quote ∧ url ≠ [] ∧ rest.head?.any isEnd ∧ '>' ∈ rest then some (url, (rest.dropWhile (· ≠ '>')).tail) else none
      | [] => none
    | _ => none

/-- the first `href` of an opening tag -/
def hrefOf : Str → Option (Str × Str)
  | [] => none
  | c :: cs =>
    match hrefAt (c :: cs) with
    | some found => some found
    | none => if c = '>' then none else hrefOf cs

/-- `_ANCHOR_OPEN_RE` at the start of a text -/
def anchorAt : Str → Option (Str × Str)
  | '<' :: c :: cs => if (c = 'a' ∨ c = 'A') ∧ !cs.head?.any env.isWord then hrefOf cs else none
  | _ => none

/-- the urls of anchors stand in place of their opening tags; the first `skip` characters are the rest of a tag -/
def hoistUrls : ℕ → Str → Str
  | _, [] => []
  | skip + 1, _ :: cs => hoistUrls skip cs
  | 0, c :: cs =>
    match anchorAt env (c :: cs) with
    | some (url, rest) => ' ' :: url ++ ' ' :: hoistUrls (cs.length - rest.length) cs
    | none => c :: hoistUrls 0 cs

def stripTags (html : Str) : Str :=
  strip (Markup.joinLineEnds 0 (Markup.joinBlanks false (Markup.replaceTags [' '] 0 (hoistUrls env 0 html))))

/-! ## The body -/

/-- what `_find_part` looks for -/
def isBodyPart (mimeType : Str) (p : PartData) : Bool := p.mimeType = mimeType && p.data ≠ [] && p.filename = []

def findPart (mimeType : Str) (payload : Part) : Option (List ℕ × PartData) := searchFrom (isBodyPart mimeType) [] payload

/-- a body, and the place of the part that it is from -/
structure Body where
  text : Str
  path : List ℕ
deriving DecidableEq

/-- the text of a part that was found, unless it is empty -/
def textOf (found : Option (List ℕ × PartData)) : Option Body :=
  (found.map fun e => ⟨decodePartData e.2, e.1⟩).filter fun b => b.text ≠ []

def extractBody (payload : Part) : Body :=
  match textOf (findPart "text/plain".toList payload) with
  | some body => body
  | none =>
    match textOf (findPart "text/html".toList payload) with
    | some body => { body with text := stripTags env body.text }
    | none => ⟨decodePartData payload.data, []⟩

/-! ## The attachments -/

/-- `_index_headers`: names in lower case, the first of them -/
def indexHeaders : List (Str × Str) → List (Str × Str) → List (Str × Str)
  | out, [] => out
  | out, (name, value) :: headers =>
    let name := env.lower name
    indexHeaders (if name ≠ [] ∧ out.lookup name = none then out ++ [(name, value)] else out) headers

structure GmailAttachmentInfo where
  partId : Str
  filename : Str
  mimeType : Str
  size : ℕ
  inline : Bool
  gmailAttachmentId : Str
  inlineData : Str
deriving DecidableEq

def PartData.hasContent (p : PartData) : Bool := p.attachmentId ≠ [] || p.data ≠ []

/-- a text part without a filename -/
def isBodyText (p : PartData) : Bool := p.filename = [] && startsWith "text/".toList (env.lower p.mimeType)

def isContainer (p : PartData) : Bool := startsWith "multipart/".toList (env.lower p.mimeType)

def isAttachment (p : PartData) : Bool := p.hasContent && !isBodyText env p && !isContainer env p

/-- the entry of an attachment that comes after `n` others -/
def attachmentInfo (p : PartData) (n : ℕ) : GmailAttachmentInfo :=
  let mime := env.lower p.mimeType
  let headers := indexHeaders env [] p.headers
  let disposition := env.lower ((headers.lookup "content-disposition".toList).getD [])
  { partId := p.partId
    filename := if p.filename ≠ [] then p.filename
      else "part-".toList ++ if p.partId ≠ [] then p.partId else Nat.toDigits 10 (n + 1)
    mimeType := if mime ≠ [] then mime else "application/octet-stream".toList
    size := p.size
    inline := startsWith "inline".toList disposition ||
      (!startsWith "attachment".toList disposition && (headers.lookup "content-id".toList).getD [] ≠ [])
    gmailAttachmentId := p.attachmentId
    inlineData := p.data }

/-- the attachments with their places; what is below an attachment is not looked at -/
def collectAttachments (payload : Part) : List (List ℕ × GmailAttachmentInfo) :=
  (pruneFrom (isAttachment env) [] payload).mapIdx fun n e => (e.1, attachmentInfo env e.2 n)

/-! ## What is claimed -/

/-- the place is one of an attachment that is listed -/
def Listed (payload : Part) (path : List ℕ) : Prop := path ∈ (collectAttachments env payload).map Prod.fst

/-- a text that can be the body -/
def IsText (p : PartData) : Prop := isBodyPart "text/plain".toList p = true ∨ isBodyPart "text/html".toList p = true

/-- what the part has for a text -/
def Readable (p : PartData) : Prop :=
  if p.mimeType = "text/html".toList then stripTags env (decodePartData p) ≠ [] else decodePartData p ≠ []

/-- the part is an attachment, or inside one -/
def Attached (v : Visit PartData) : Prop := isAttachment env v.label = true ∨ ∃ p ∈ v.above, isAttachment env p = true

structure Separated (payload : Part) : Prop where
  /-- nothing is listed twice -/
  once : ((collectAttachments env payload).map Prod.fst).Nodup
  /-- what is listed is what has content, is no text without a name and no container, and is inside no attachment -/
  listed : ∀ v ∈ visits payload, Listed env payload v.path ↔ v.label.hasContent = true ∧ isBodyText env v.label = false ∧
    isContainer env v.label = false ∧ ∀ p ∈ v.above, isAttachment env p = false
  /-- where no text that can be the body is inside an attachment, and the message is none itself, the body is from outside -/
  body : (∀ v ∈ visits payload, IsText v.label → ∀ p ∈ v.above, isAttachment env p = false) →
    isAttachment env payload.data = false →
    ∃ v ∈ visits payload, v.path = (extractBody env payload).path ∧ ¬ Attached env v ∧
      ((extractBody env payload).text = decodePartData v.label ∨ (extractBody env payload).text = stripTags env (decodePartData v.label))
  /-- where each text that can be the body is readable, and there is one, the body is not empty -/
  shown : (∀ v ∈ visits payload, IsText v.label → Readable env v.label) → (∃ v ∈ visits payload, IsText v.label) →
    (extractBody env payload).text ≠ []

/-! ## Proofs -/

variable {env}

theorem collect_paths (payload : Part) : (collectAttachments env payload).map Prod.fst =
    ((visits payload).filter (Visit.first (isAttachment env))).map Visit.path := by
  have hplaces : (collectAttachments env payload).map Prod.fst = (pruneFrom (isAttachment env) [] payload).map Prod.fst := by
    apply List.ext_getElem
    · simp [collectAttachments]
    · intro n h h'
      simp [collectAttachments]
  rw [hplaces, prune_eq, List.map_map]
  rfl

theorem listed_iff {payload : Part} {v : Visit PartData} (hv : v ∈ visits payload) :
    Listed env payload v.path ↔ Visit.first (isAttachment env) v = true := by
  rw [Listed, collect_paths, List.mem_map]
  constructor
  · rintro ⟨v', hv', hpath⟩
    obtain ⟨hmem, hfirst⟩ := List.mem_filter.1 hv'
    obtain rfl := List.inj_on_of_nodup_map (nodup_paths payload) hmem hv hpath
    exact hfirst
  · intro hfirst
    exact ⟨v, List.mem_filter.2 ⟨hv, hfirst⟩, rfl⟩

/-- a part that was found, and its visit -/
theorem findPart_eq_some {mimeType : Str} {payload : Part} {e : List ℕ × PartData} (h : findPart mimeType payload = some e) :
    ∃ v ∈ visits payload, isBodyPart mimeType v.label = true ∧ v.path = e.1 ∧ v.label = e.2 := by
  rw [findPart, search_eq] at h
  obtain ⟨v, hv, rfl⟩ := Option.map_eq_some_iff.1 h
  have hpart := List.find?_some hv
  exact ⟨v, List.mem_of_find?_eq_some hv, hpart, rfl, rfl⟩

theorem exists_findPart {mimeType : Str} {payload : Part} {v : Visit PartData} (hv : v ∈ visits payload)
    (hpart : isBodyPart mimeType v.label = true) : ∃ e, findPart mimeType payload = some e := by
  rw [findPart, search_eq]
  cases hfind : (visits payload).find? fun v => isBodyPart mimeType v.label with
  | none => exact absurd hpart (List.find?_eq_none.1 hfind v hv)
  | some v' => exact ⟨_, rfl⟩

theorem textOf_eq_some {found : Option (List ℕ × PartData)} {b : Body} (h : textOf found = some b) :
    ∃ e, found = some e ∧ b = ⟨decodePartData e.2, e.1⟩ ∧ b.text ≠ [] := by
  obtain ⟨hb, hne⟩ := Option.filter_eq_some_iff.1 h
  obtain ⟨e, rfl, rfl⟩ := Option.map_eq_some_iff.1 hb
  exact ⟨e, rfl, rfl, of_decide_eq_true hne⟩

theorem textOf_of_ne {e : List ℕ × PartData} (h : decodePartData e.2 ≠ []) : textOf (some e) = some ⟨decodePartData e.2, e.1⟩ :=
  Option.filter_eq_some_iff.2 ⟨rfl, decide_eq_true h⟩

/-- a text that can be the body is no attachment -/
theorem not_attachment {p : PartData} (h : IsText p) : isAttachment env p = false := by
  have hplain : startsWith "text/".toList "text/plain".toList = true := by decide
  have hhtml : startsWith "text/".toList "text/html".toList = true := by decide
  have htext : isBodyText env p = true := by
    obtain h | h := h
    · simp only [isBodyPart, Bool.and_eq_true, decide_eq_true_eq] at h
      simp only [isBodyText, h.1.1, h.2, env.lower_plain, hplain, decide_true, Bool.and_true]
    · simp only [isBodyPart, Bool.and_eq_true, decide_eq_true_eq] at h
      simp only [isBodyText, h.1.1, h.2, env.lower_html, hhtml, decide_true, Bool.and_true]
  rw [isAttachment, htext, Bool.not_true, Bool.and_false, Bool.false_and]

theorem stripTags_nil : stripTags env [] = [] := rfl

/-- what the body is from -/
theorem extractBody_source (env : Env) (payload : Part) : ∃ v ∈ visits payload, v.path = (extractBody env payload).path ∧
    (IsText v.label ∨ v = ⟨[], [], payload.data⟩) ∧ ((extractBody env payload).text = decodePartData v.label ∨
      (extractBody env payload).text = stripTags env (decodePartData v.label)) := by
  rw [extractBody]
  cases hplain : textOf (findPart "text/plain".toList payload) with
  | some body =>
    obtain ⟨e, hfound, rfl, -⟩ := textOf_eq_some hplain
    obtain ⟨v, hv, hpart, hpath, hlabel⟩ := findPart_eq_some hfound
    exact ⟨v, hv, hpath, .inl (.inl hpart), .inl (by rw [hlabel])⟩
  | none =>
    cases hhtml : textOf (findPart "text/html".toList payload) with
    | some body =>
      obtain ⟨e, hfound, rfl, -⟩ := textOf_eq_some hhtml
      obtain ⟨v, hv, hpart, hpath, hlabel⟩ := findPart_eq_some hfound
      exact ⟨v, hv, hpath, .inl (.inr hpart), .inr (by rw [hlabel])⟩
    | none =>
      obtain ⟨data, parts⟩ := payload
      exact ⟨⟨[], [], data⟩, List.mem_cons_self, rfl, .inr rfl, .inl rfl⟩

theorem extractBody_shown {payload : Part} (hreadable : ∀ v ∈ visits payload, IsText v.label → Readable env v.label)
    (hsome : ∃ v ∈ visits payload, IsText v.label) : (extractBody env payload).text ≠ [] := by
  have hmime : ∀ {mimeType : Str} {p : PartData}, isBodyPart mimeType p = true → p.mimeType = mimeType := by
    intro mimeType p h
    simp only [isBodyPart, Bool.and_eq_true, decide_eq_true_eq] at h
    exact h.1.1
  have hplain : ∀ e, findPart "text/plain".toList payload = some e → decodePartData e.2 ≠ [] := by
    intro e he
    obtain ⟨v, hv, hpart, -, hlabel⟩ := findPart_eq_some he
    have hread := hreadable v hv (.inl hpart)
    rwa [Readable, hmime hpart, if_neg (by decide), hlabel] at hread
  have hhtml : ∀ e, findPart "text/html".toList payload = some e → stripTags env (decodePartData e.2) ≠ [] := by
    intro e he
    obtain ⟨v, hv, hpart, -, hlabel⟩ := findPart_eq_some he
    have hread := hreadable v hv (.inr hpart)
    rwa [Readable, if_pos (hmime hpart), hlabel] at hread
  rw [extractBody]
  cases hfound : findPart "text/plain".toList payload with
  | some e =>
    rw [textOf_of_ne (hplain e hfound)]
    exact hplain e hfound
  | none =>
    obtain ⟨v, hv, hpart | hpart⟩ := hsome
    · obtain ⟨e, he⟩ := exists_findPart hv hpart
      exact absurd (hfound.symm.trans he) (Option.some_ne_none e).symm
    · obtain ⟨e, he⟩ := exists_findPart hv hpart
      have hne := hhtml e he
      have hdecoded : decodePartData e.2 ≠ [] := by
        intro hnil
        rw [hnil] at hne
        exact hne stripTags_nil
      have hnone : textOf none = none := rfl
      rw [hnone, he, textOf_of_ne hdecoded]
      exact hne

def asciiEnv : Env := ⟨List.map Char.toLower, fun c => c.isAlphanum || c = '_', by decide, by decide⟩

/-- a part of a type, with its data and the id of its attachment -/
def part (mimeType data attachmentId : String) (parts : List Part) : Part :=
  .node ⟨[], mimeType.toList, [], [], data.toList, attachmentId.toList, 0⟩ parts

/-- a message in html, with another message attached -/
def withAttached : Part :=
  part "multipart/mixed" "" "" [part "text/html" "aGk" "" [], part "message/rfc822" "" "a" [part "text/plain" "eA" "" []]]

end Clawbolt.Gmail

/-
An edit of a stored file (`edit_storage_file` of agent/tools/file_tools.py, `download_file` and `update_file_content` of
services/storage_service.py).

What Google Drive answers to each request of one call, with its retries and the refresh of a token, is a parameter; a
request that fails can have been carried out. A folder that the backend remembers is an answer to an earlier request.

- `editStorageFile_reaches`, `editStorageFile_stops`: an edit asks for an update, or leaves the drive as it is;
- `replaced_iff`: when the bytes that are written replace one occurrence and nothing else;
- `edit_exact`: when an edit changes the matched text only.
-/
import Mathlib.Tactic
import Clawbolt.Core.Markers
import Clawbolt.Core.Replacement

namespace Clawbolt.Storage

open Text (Str)

/-! ## Model -/

/-- the bytes of every file, by its id, and the files that were updated -/
structure Drive where
  content : Str → List UInt8
  written : List Str

inductive Failure where
  | fileNotFound
  | reconnectRequired
  /-- an `HttpError`, or a transient error that stayed -/
  | drive (text : Str)
  | other (text : Str)
deriving DecidableEq

/-- what becomes of a request to update a file -/
inductive UpdateAnswer where
  | answered
  | failed (failure : Failure) (applied : Bool)

/-- what the service answers during one edit: the first file of a listing, by its id -/
structure Answers where
  /-- the lookup by `clawbolt_path` of the download -/
  findByAppPath : Str → Except Failure (Option Str)
  /-- a folder by its name and its parent -/
  findFolder : Str → Option Str → Except Failure (Option Str)
  /-- a file by its name and its folder -/
  findByName : Str → Str → Except Failure (Option Str)
  getMedia : Str → Option Failure
  /-- the lookup by `clawbolt_path` of the update -/
  findAgain : Str → Except Failure (Option Str)
  update : Str → UpdateAnswer

/-- `path.strip("/")` -/
def stripSlashes (path : Str) : Str := (path.dropWhile (· = '/')).rdropWhile (· = '/')

/-- the path that `update_file_content` looks up -/
def canonical (path : Str) : Str := if Text.startsWith "/".toList path then path else '/' :: stripSlashes path

/-- `path.rsplit("/", 1)`, the folder being empty when there is no separator -/
def rsplit (path : Str) : Str × Str :=
  (((path.reverse.dropWhile (· ≠ '/')).drop 1).reverse, (path.reverse.takeWhile (· ≠ '/')).reverse)

/-- `_resolve_existing_path` -/
def resolveExistingPath (a : Answers) (path : Str) : Except Failure (Option Str) :=
  (((stripSlashes path).splitOn '/').filter (· ≠ [])).foldlM (fun current part =>
    match current with
    | none => .ok none
    | some id => a.findFolder part (some id)) =<< a.findFolder "Clawbolt".toList none

/-- the file that `download_file` reads -/
def locate (a : Answers) (path : Str) : Except Failure Str := do
  let normalized := stripSlashes path
  if normalized = [] then .error .fileNotFound
  else
    match ← a.findByAppPath ('/' :: normalized) with
    | some id => .ok id
    | none =>
      match ← resolveExistingPath a (rsplit normalized).1 with
      | none => .error .fileNotFound
      | some folder =>
        match ← a.findByName (rsplit normalized).2 folder with
        | none => .error .fileNotFound
        | some id => .ok id

/-- a failed request as `download_file` and `update_file_content` raise it -/
def Failure.wrap (what path : Str) : Failure → Failure
  | .drive text => .other (what ++ path ++ ": ".toList ++ text)
  | failure => failure

/-- `download_file` -/
def downloadFile (a : Answers) (d : Drive) (path : Str) : Except Failure (List UInt8) := do
  let id ← locate a path
  match a.getMedia id with
  | none => .ok (d.content id)
  | some failure => .error (failure.wrap "Google Drive download failed for ".toList path)

def Drive.write (d : Drive) (id : Str) (bytes : List UInt8) : Drive where
  content := Function.update d.content id bytes
  written := d.written ++ [id]

/-- `update_file_content` -/
def updateFileContent (a : Answers) (d : Drive) (path : Str) (bytes : List UInt8) : Except Failure Unit × Drive :=
  match a.findAgain (canonical path) with
  | .error failure => (.error failure, d)
  | .ok none => (.error .fileNotFound, d)
  | .ok (some id) =>
    match a.update id with
    | .answered => (.ok (), d.write id bytes)
    | .failed failure applied =>
      (.error (failure.wrap "Google Drive content update failed for ".toList (canonical path)),
        if applied then d.write id bytes else d)

inductive ToolErrorKind where
  | validation
  | notFound
  | service
deriving DecidableEq

inductive ToolResult where
  | ok (content : Str)
  | error (content : Str) (kind : ToolErrorKind)
  /-- `ReconnectRequired` goes through -/
  | raised
deriving DecidableEq

def ToolResult.success : ToolResult → Bool
  | .ok _ => true
  | _ => false

/-- what a failure of the storage is to the tool -/
def Failure.result (notFound couldNot filePath : Str) : Failure → ToolResult
  | .fileNotFound => .error (notFound ++ filePath) .notFound
  | .reconnectRequired => .raised
  | .drive text => .error (couldNot ++ filePath ++ ": ".toList ++ text) .service
  | .other text => .error (couldNot ++ filePath ++ ": ".toList ++ text) .service

/-- the text of a file with the match replaced -/
def edited (bytes : List UInt8) (oldText newText : Str) : List UInt8 :=
  Utf8.encode (Text.replaceFirst oldText newText (Utf8.decodeReplace 0 bytes))

/-- `edit_storage_file` -/
def editStorageFile (a : Answers) (d : Drive) (filePath oldText newText : Str) : ToolResult × Drive :=
  if Text.strip filePath = [] then (.error "file_path is required.".toList .validation, d)
  else if oldText = [] then (.error "old_text is required.".toList .validation, d)
  else
    match downloadFile a d filePath with
    | .error failure => (failure.result "File not found: ".toList "Couldn't load ".toList filePath, d)
    | .ok fileBytes =>
      let text := Utf8.decodeReplace 0 fileBytes
      if !Text.contains oldText text then
        (.error ("Text not found in ".toList ++ filePath ++
          ". Read the file first via read_from_storage to see current contents.".toList) .notFound, d)
      else
        let count := Text.count oldText text
        if 1 < count then
          (.error ("Found ".toList ++ (toString count).toList ++ " matches in ".toList ++ filePath ++
            ". Provide more context to match uniquely.".toList) .validation, d)
        else
          match updateFileContent a d filePath (edited fileBytes oldText newText) with
          | (.error failure, d) =>
            (failure.result "File not found at time of edit: ".toList "Couldn't update ".toList filePath, d)
          | (.ok (), d) => (.ok ("Updated ".toList ++ filePath), d)

/-! ## What an edit does -/

/-- the edit of a file comes to the update -/
structure Reaches (a : Answers) (d : Drive) (filePath oldText : Str) (id : Str) : Prop where
  path : Text.strip filePath ≠ []
  old : oldText ≠ []
  located : locate a filePath = .ok id
  read : a.getMedia id = none
  found : Text.contains oldText (Utf8.decodeReplace 0 (d.content id)) = true
  unambiguous : Text.count oldText (Utf8.decodeReplace 0 (d.content id)) ≤ 1

theorem downloadFile_ok {a : Answers} {d : Drive} {path : Str} {bytes : List UInt8} (h : downloadFile a d path = .ok bytes) :
    ∃ id, locate a path = .ok id ∧ a.getMedia id = none ∧ bytes = d.content id := by
  rw [downloadFile] at h
  cases hid : locate a path with
  | error failure =>
    rw [hid] at h
    cases h
  | ok id =>
    rw [hid] at h
    simp only [bind, Except.bind] at h
    cases hmedia : a.getMedia id with
    | none =>
      rw [hmedia] at h
      exact ⟨id, rfl, hmedia, (Except.ok.inj h).symm⟩
    | some failure =>
      rw [hmedia] at h
      cases h

theorem Failure.result_failure (notFound couldNot filePath : Str) (f : Failure) :
    (f.result notFound couldNot filePath).success = false := by
  cases f <;> rfl

/-- an edit that comes to the update -/
theorem editStorageFile_reaches {a : Answers} {d : Drive} {filePath oldText id : Str} (h : Reaches a d filePath oldText id)
    (newText : Str) :
    editStorageFile a d filePath oldText newText =
      match updateFileContent a d filePath (edited (d.content id) oldText newText) with
      | (.error failure, d) =>
        (failure.result "File not found at time of edit: ".toList "Couldn't update ".toList filePath, d)
      | (.ok (), d) => (.ok ("Updated ".toList ++ filePath), d) := by
  have hdownload : downloadFile a d filePath = .ok (d.content id) := by
    rw [downloadFile, h.located]
    simp only [bind, Except.bind, h.read]
  have hcount : ¬ 1 < Text.count oldText (Utf8.decodeReplace 0 (d.content id)) := not_lt.2 h.unambiguous
  rw [editStorageFile, if_neg h.path, if_neg h.old, hdownload]
  simp only [h.found, hcount, Bool.not_true, Bool.false_eq_true, if_false]

/-- an edit that does not come to the update: an error, and nothing is changed -/
theorem editStorageFile_stops {a : Answers} {d : Drive} {filePath oldText : Str}
    (h : ∀ id, ¬ Reaches a d filePath oldText id) (newText : Str) :
    (editStorageFile a d filePath oldText newText).1.success = false ∧
      (editStorageFile a d filePath oldText newText).2 = d := by
  rw [editStorageFile]
  split_ifs with hpath hold
  · exact ⟨rfl, rfl⟩
  · exact ⟨rfl, rfl⟩
  · cases hdownload : downloadFile a d filePath with
    | error failure => exact ⟨failure.result_failure _ _ _, rfl⟩
    | ok bytes =>
      obtain ⟨id, hid, hread, rfl⟩ := downloadFile_ok hdownload
      simp only
      split_ifs with hfound hcount
      · exact ⟨rfl, rfl⟩
      · exact ⟨rfl, rfl⟩
      · rw [Bool.not_eq_true', Bool.not_eq_false] at hfound
        exact absurd ⟨hpath, hold, hid, hread, hfound, not_lt.1 hcount⟩ (h id)

/-! ## The bytes that are written -/

/-- the bytes of a text -/
def IsText (bytes : List UInt8) : Prop := ∃ t, bytes = Utf8.encode t

/-- one occurrence, overlapping ones counted -/
def Once (oldText t : Str) : Prop := ∀ x y x' y', t = x ++ oldText ++ y → t = x' ++ oldText ++ y' → x = x'

/-- bytes with their one occurrence replaced -/
def Replaced (before after : List UInt8) (oldText newText : Str) : Prop :=
  ∃ pre post, before = pre ++ (Utf8.encode oldText ++ post) ∧
    (∀ pre' post', before = pre' ++ (Utf8.encode oldText ++ post') → pre' = pre) ∧
    after = pre ++ (Utf8.encode newText ++ post)

theorem utf8Size_replacements (n : ℕ) : Text.utf8Size (List.replicate n Utf8.replacement) = n * 3 := by
  rw [Text.utf8Size, List.map_replicate, List.sum_replicate]
  rfl

/-- bytes that are replaced as they should be are those of a text -/
theorem isText_of_replaced {before after : List UInt8} {oldText newText x y : Str} (hold : oldText ≠ [])
    (hread : Utf8.decodeReplace 0 before = x ++ oldText ++ y) (hafter : after = Utf8.encode (x ++ newText ++ y))
    (h : Replaced before after oldText newText) : IsText before := by
  obtain ⟨pre, post, rfl, _, hnew⟩ := h
  rw [hafter] at hnew
  by_cases hempty : newText = []
  · subst hempty
    rw [Utf8.encode_nil, List.nil_append] at hnew
    obtain ⟨z₁, z₂, _, rfl, rfl⟩ | ⟨z₁, c, z₂, p, s, hz, rfl, rfl, hchar, hp, hs⟩ := Utf8.encode_cut hnew
    · exact ⟨z₁ ++ oldText ++ z₂, by rw [Utf8.encode_append, Utf8.encode_append, List.append_assoc]⟩
    · -- the match lay inside a character of what is left: reading it again would have made it longer
      exfalso
      obtain ⟨k, hk, hbroken⟩ := Utf8.decodeReplace_inside hchar hp hs hold z₁ z₂
      rw [List.append_assoc (Utf8.encode z₁ ++ p), hread] at hbroken
      have hlen := congrArg Text.utf8Size hbroken
      have hwhole := congrArg Text.utf8Size hz
      have hsize : p.length + s.length = c.utf8Size := by
        rw [← List.length_append, hchar, String.length_utf8EncodeChar]
      have hfour := c.utf8Size_le_four
      have hpos := List.length_pos_of_ne_nil hs
      have hcons : Text.utf8Size (c :: z₂) = c.utf8Size + Text.utf8Size z₂ := rfl
      have hnil : Text.utf8Size [] = 0 := rfl
      simp only [Utf8.utf8Size_append, utf8Size_replacements] at hlen hwhole
      omega
  · obtain ⟨x', y', _, rfl, rfl⟩ := Utf8.encode_split hempty hnew
    exact ⟨x' ++ oldText ++ y', by rw [Utf8.encode_append, Utf8.encode_append, List.append_assoc]⟩

/-- **When the bytes that are written are the right ones.** -/
theorem replaced_iff {bytes : List UInt8} {oldText newText x y : Str} (hold : oldText ≠ [])
    (hread : Utf8.decodeReplace 0 bytes = x ++ oldText ++ y) :
    Replaced bytes (Utf8.encode (x ++ newText ++ y)) oldText newText ↔
      IsText bytes ∧ Once oldText (Utf8.decodeReplace 0 bytes) := by
  constructor
  · intro h
    have htext := isText_of_replaced hold hread rfl h
    refine ⟨htext, ?_⟩
    obtain ⟨t, rfl⟩ := htext
    obtain ⟨pre, post, _, honly, _⟩ := h
    rw [Utf8.decodeReplace_encode]
    intro x₁ y₁ x₂ y₂ h₁ h₂
    have hpre : ∀ x' y', t = x' ++ oldText ++ y' → Utf8.encode x' = pre := by
      intro x' y' ht
      apply honly (Utf8.encode x') (Utf8.encode y')
      rw [ht, Utf8.encode_append, Utf8.encode_append, List.append_assoc]
    exact Utf8.encode_injective ((hpre x₁ y₁ h₁).trans (hpre x₂ y₂ h₂).symm)
  · rintro ⟨⟨t, rfl⟩, honce⟩
    rw [Utf8.decodeReplace_encode] at hread honce
    refine ⟨Utf8.encode x, Utf8.encode y, ?_, ?_, ?_⟩
    · rw [hread, Utf8.encode_append, Utf8.encode_append, List.append_assoc]
    · intro pre' post' hsplit
      obtain ⟨x', y', ht, rfl, _⟩ := Utf8.encode_split hold hsplit
      rw [honce x' y' x y ht hread]
    · rw [Utf8.encode_append, Utf8.encode_append, List.append_assoc]

/-! ## The whole edit -/

/-- **What an edit should do**: the one occurrence in the file that was read is replaced, or nothing is changed -/
def Meets (a : Answers) (d : Drive) (filePath oldText newText : Str) : Prop :=
  ((editStorageFile a d filePath oldText newText).1.success = true →
    ∃ id after, locate a filePath = .ok id ∧ Replaced (d.content id) after oldText newText ∧
      (editStorageFile a d filePath oldText newText).2 = d.write id after) ∧
  ((editStorageFile a d filePath oldText newText).1.success = false →
    (editStorageFile a d filePath oldText newText).2.content = d.content)

/-- the file is text with one occurrence, the second lookup finds it again, and an update that fails changes nothing -/
def Safe (a : Answers) (d : Drive) (filePath oldText newText : Str) : Prop :=
  ∀ id, Reaches a d filePath oldText id → ∀ again, a.findAgain (canonical filePath) = .ok (some again) →
    match a.update again with
    | .answered => again = id ∧ IsText (d.content id) ∧ Once oldText (Utf8.decodeReplace 0 (d.content id))
    | .failed _ applied => applied = true → d.content again = edited (d.content id) oldText newText

theorem write_inj {d : Drive} {id id' : Str} {bytes bytes' : List UInt8} (h : d.write id bytes = d.write id' bytes') :
    id = id' ∧ bytes = bytes' := by
  have hwritten : d.written ++ [id] = d.written ++ [id'] := congrArg Drive.written h
  have hid : id = id' := List.singleton_inj.1 (List.append_cancel_left hwritten)
  subst hid
  refine ⟨rfl, ?_⟩
  have hcontent := congrFun (congrArg Drive.content h) id
  simpa only [Drive.write, Function.update_self] using hcontent

/-- the text that is written -/
theorem edited_eq {bytes : List UInt8} {oldText : Str} (h : Text.contains oldText (Utf8.decodeReplace 0 bytes) = true)
    (newText : Str) : ∃ x y, Utf8.decodeReplace 0 bytes = x ++ oldText ++ y ∧
      edited bytes oldText newText = Utf8.encode (x ++ newText ++ y) := by
  cases hsplit : Text.splitFirst oldText (Utf8.decodeReplace 0 bytes) with
  | none => exact absurd h (Bool.eq_false_iff.1 (Text.splitFirst_eq_none.1 hsplit))
  | some z =>
    refine ⟨z.1, z.2, Text.eq_of_splitFirst hsplit, ?_⟩
    rw [edited, Text.replaceFirst, hsplit]

/-- an update that was answered -/
theorem meets_answered {a : Answers} {d : Drive} {filePath oldText newText id again : Str}
    (h : Reaches a d filePath oldText id)
    (hedit : (editStorageFile a d filePath oldText newText).1.success = true ∧
      (editStorageFile a d filePath oldText newText).2 = d.write again (edited (d.content id) oldText newText)) :
    Meets a d filePath oldText newText ↔
      again = id ∧ IsText (d.content id) ∧ Once oldText (Utf8.decodeReplace 0 (d.content id)) := by
  obtain ⟨x, y, hread, hedited⟩ := edited_eq h.found newText
  rw [Meets, hedit.1, hedit.2]
  constructor
  · rintro ⟨hsuccess, _⟩
    obtain ⟨_, after, hlocated, hreplaced, hwrite⟩ := hsuccess rfl
    obtain ⟨rfl, rfl⟩ := write_inj hwrite
    rw [h.located] at hlocated
    rw [← Except.ok.inj hlocated, hedited] at hreplaced
    exact ⟨(Except.ok.inj hlocated).symm, (replaced_iff h.old hread).1 hreplaced⟩
  · rintro ⟨rfl, htext, honce⟩
    refine ⟨?_, fun hfails => absurd hfails Bool.true_eq_false_eq_False⟩
    intro _
    refine ⟨again, _, h.located, ?_, rfl⟩
    rw [hedited]
    exact (replaced_iff h.old hread).2 ⟨htext, honce⟩

/-- an edit that reports an error -/
theorem meets_failed {a : Answers} {d : Drive} {filePath oldText newText : Str}
    (hfails : (editStorageFile a d filePath oldText newText).1.success = false) :
    Meets a d filePath oldText newText ↔ (editStorageFile a d filePath oldText newText).2.content = d.content := by
  rw [Meets, hfails]
  constructor
  · exact fun h => h.2 rfl
  · exact fun h => ⟨fun hsuccess => absurd hsuccess Bool.false_ne_true, fun _ => h⟩

/-- **An edit changes the matched text only**, exactly when it is safe. -/
theorem edit_exact (a : Answers) (d : Drive) (filePath oldText newText : Str) :
    Meets a d filePath oldText newText ↔ Safe a d filePath oldText newText := by
  by_cases hreach : ∃ id, Reaches a d filePath oldText id
  · obtain ⟨id, h⟩ := hreach
    have hsafe : Safe a d filePath oldText newText ↔ ∀ again, a.findAgain (canonical filePath) = .ok (some again) →
        match a.update again with
        | .answered => again = id ∧ IsText (d.content id) ∧ Once oldText (Utf8.decodeReplace 0 (d.content id))
        | .failed _ applied => applied = true → d.content again = edited (d.content id) oldText newText := by
      constructor
      · exact fun hall => hall id h
      · intro hall id' h'
        rw [Except.ok.inj (h'.located.symm.trans h.located)]
        exact hall
    have hedit := editStorageFile_reaches h newText
    rw [updateFileContent] at hedit
    rw [hsafe]
    cases hagain : a.findAgain (canonical filePath) with
    | error failure =>
      rw [hagain] at hedit
      rw [meets_failed (by rw [hedit]; exact Failure.result_failure _ _ _ _), hedit]
      refine iff_of_true rfl ?_
      intro _ hfound
      cases hfound
    | ok found =>
      rw [hagain] at hedit
      cases found with
      | none =>
        rw [meets_failed (by rw [hedit]; rfl), hedit]
        refine iff_of_true rfl ?_
        intro _ hfound
        cases hfound
      | some again =>
        have hone : (∀ again', Except.ok (some again) = (Except.ok (some again') : Except Failure (Option Str)) →
            match a.update again' with
            | .answered => again' = id ∧ IsText (d.content id) ∧ Once oldText (Utf8.decodeReplace 0 (d.content id))
            | .failed _ applied => applied = true → d.content again' = edited (d.content id) oldText newText) ↔
              match a.update again with
              | .answered => again = id ∧ IsText (d.content id) ∧ Once oldText (Utf8.decodeReplace 0 (d.content id))
              | .failed _ applied => applied = true → d.content again = edited (d.content id) oldText newText := by
          constructor
          · exact fun hall => hall again rfl
          · intro hgood again' hsame
            rw [← Option.some.inj (Except.ok.inj hsame)]
            exact hgood
        rw [hone]
        cases hupdate : a.update again with
        | answered =>
          simp only [hupdate] at hedit
          rw [meets_answered h (by rw [hedit]; exact ⟨rfl, rfl⟩)]
        | failed failure applied =>
          simp only [hupdate] at hedit
          rw [meets_failed (by rw [hedit]; exact Failure.result_failure _ _ _ _), hedit]
          cases applied with
          | false => exact iff_of_true rfl fun hf => absurd hf Bool.false_ne_true
          | true =>
            simp only [if_true, Drive.write, Function.update_eq_self_iff, forall_const]
            exact eq_comm
  · rw [not_exists] at hreach
    obtain ⟨hfails, hsame⟩ := editStorageFile_stops hreach newText
    rw [meets_failed hfails, hsame]
    exact iff_of_true rfl fun id h => absurd h (hreach id)

/-- one file, at `/notes.txt` -/
def oneFile : Answers where
  findByAppPath path := .ok (if path = "/notes.txt".toList then some "f".toList else none)
  findFolder _ _ := .ok none
  findByName _ _ := .ok none
  getMedia _ := none
  findAgain path := .ok (if path = "/notes.txt".toList then some "f".toList else none)
  update _ := .answered

/-- a byte that is no text, and an `a` -/
def latin : Drive := ⟨fun _ => [0xe9, 0x61], []⟩

/-- a byte that is no text is lost in an edit next to it -/
theorem bytes_lost : ¬ Meets oneFile latin "/notes.txt".toList "a".toList "b".toList := by
  intro h
  obtain ⟨id, after, hlocated, ⟨pre, post, hbefore, _, hafter⟩, hwrite⟩ := h.1 (by decide +kernel)
  have hfile : locate oneFile "/notes.txt".toList = .ok "f".toList := by decide +kernel
  rw [hfile] at hlocated
  rw [← Except.ok.inj hlocated] at hwrite
  have hwritten : (editStorageFile oneFile latin "/notes.txt".toList "a".toList "b".toList).2.content "f".toList =
      [0xef, 0xbf, 0xbd, 0x62] := by
    decide +kernel
  have hbytes : after = [0xef, 0xbf, 0xbd, 0x62] := by
    rw [hwrite] at hwritten
    simpa only [Drive.write, Function.update_self] using hwritten
  -- one byte is replaced by one byte, and the file grew
  have hold := congrArg List.length hbefore
  have hnew := congrArg List.length (hbytes.symm.trans hafter)
  have holdText : (Utf8.encode "a".toList).length = 1 := by decide +kernel
  have hnewText : (Utf8.encode "b".toList).length = 1 := by decide +kernel
  simp only [latin, List.length_append, List.length_cons, List.length_nil] at hold hnew
  omega

end Clawbolt.Storage

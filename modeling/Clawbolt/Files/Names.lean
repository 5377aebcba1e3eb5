/-
Folder paths and file names of saved files (agent/tools/file_tools.py, `slugify` of agent/dto.py, `_normalized_path` of
services/storage_service.py).

- `normalizeFolderPath_isFolder`: what is accepted is the root or a path of segments that are not empty;
- `normalizedPath_inj`: a path names its folder and its file;
- `uniqueFilename_free`, `nextFilename_free`: the name that is chosen is not taken.
-/
import Mathlib.Tactic
import Clawbolt.Core.Fresh

namespace Clawbolt.Files

open Text (Str)

/-- the parts of Python's text handling that its Unicode tables decide -/
structure Tables where
  lower : Str → Str
  /-- `\w` -/
  isWord : Char → Bool
  /-- `repr` -/
  repr : Str → Str
  word_slash : isWord '/' = false

/-! ## Paths -/

/-- `MAX_PATH_LENGTH` -/
def maxPathLength : ℕ := 256

/-- `MAX_PATH_DEPTH` -/
def maxPathDepth : ℕ := 6

/-- `_INVALID_SEGMENT_RE` -/
def isInvalid (c : Char) : Bool :=
  c.toNat ≤ 0x1f || c.toNat = 0x7f || c = '<' || c = '>' || c = ':' || c = '"' || c = '|' || c = '?' || c = '*'

/-- the complaint about one segment of a folder path -/
def segmentError (tables : Tables) (seg : Str) : Option Str :=
  if seg = [] then some "folder_path must not contain empty segments.".toList
  else if seg = ".".toList ∨ seg = "..".toList then some "folder_path must not contain '.' or '..'.".toList
  else if seg.any isInvalid then
    some ("folder_path segment ".toList ++ tables.repr seg ++ " contains unsupported characters.".toList)
  else if seg ≠ Text.strip seg then
    some ("folder_path segment ".toList ++ tables.repr seg ++ " has leading or trailing whitespace.".toList)
  else none

/-- a path without slashes at its end, the root staying what it is -/
def withoutTrailingSlash (path : Str) : Str :=
  let path := if 1 < path.length ∧ Text.endsWith "/".toList path then path.rdropWhile (· = '/') else path
  if path = [] then ['/'] else path

/-- the checks on the segments of a path -/
def checkSegments (tables : Tables) (path : Str) : Except Str Str :=
  let segments := (path.drop 1).splitOn '/'
  if maxPathDepth < segments.length then .error "folder_path nests too deeply (max 6 levels).".toList
  else
    match segments.findSome? (segmentError tables) with
    | some complaint => .error complaint
    | none => .ok path

/-- `_normalize_folder_path` -/
def normalizeFolderPath (tables : Tables) (raw : Option Str) : Except Str Str :=
  let path := Text.strip (raw.getD [])
  if path = [] then .ok "/Inbox".toList
  else if !Text.startsWith "/".toList path then .error "folder_path must start with '/' (e.g. '/Inbox').".toList
  else if maxPathLength < path.length then .error "folder_path is too long (max 256 characters).".toList
  else if '\\' ∈ path then .error "folder_path must use forward slashes only.".toList
  else
    let path := withoutTrailingSlash path
    if path = ['/'] then .ok path else checkSegments tables path

/-- `path.rsplit(c, 1)` where there is one, and an empty text before the rest where there is none -/
def rsplit (c : Char) (t : Str) : Str × Str :=
  (((t.reverse.dropWhile (· ≠ c)).drop 1).reverse, (t.reverse.takeWhile (· ≠ c)).reverse)

/-- `_split_file_path` -/
def splitFilePath (tables : Tables) (raw : Str) : Except Str (Str × Str) :=
  let path := Text.strip raw
  if path = [] then .error "from_path must be a non-empty file path.".toList
  else
    let path := if Text.startsWith "/".toList path then path else '/' :: path
    if '\\' ∈ path then .error "from_path must use forward slashes only.".toList
    else
      let (folderRaw, filename) := rsplit '/' path
      if filename = [] then .error ("Cannot parse storage path: ".toList ++ path)
      else
        match normalizeFolderPath tables (some (if folderRaw = [] then ['/'] else folderRaw)) with
        | .error complaint => .error complaint
        | .ok folder =>
          if filename = ".".toList ∨ filename = "..".toList then .error "from_path filename must not be '.' or '..'.".toList
          else if filename.any isInvalid then
            .error ("from_path filename ".toList ++ tables.repr filename ++ " contains unsupported characters.".toList)
          else if filename ≠ Text.strip filename then
            .error "from_path filename must not have leading or trailing whitespace.".toList
          else .ok (folder, filename)

/-- `t.strip("/")` -/
def stripSlashes (t : Str) : Str := (t.dropWhile (· = '/')).rdropWhile (· = '/')

/-- `_normalized_path` -/
def normalizedPath (folderPath filename : Str) : Str :=
  '/' :: Text.join "/".toList ([stripSlashes folderPath, stripSlashes filename].filter (· ≠ []))

/-- the names of the folders on a path -/
def folderParts (path : Str) : List Str := ((stripSlashes path).splitOn '/').filter (· ≠ [])

/-! ## Names -/

/-- `re.sub(r"[\s_-]+", "_", t)`, a run being open or not -/
def squeeze : Bool → Str → Str
  | _, [] => []
  | run, c :: cs =>
    if Text.isSpace c || c = '_' || c = '-' then (if run then squeeze true cs else '_' :: squeeze true cs)
    else c :: squeeze false cs

/-- `slugify` -/
def slugify (tables : Tables) (text : Str) (maxLength : ℕ) : Str :=
  let slug := Text.strip (tables.lower text)
  let slug := slug.filter fun c => tables.isWord c || Text.isSpace c || c = '-'
  ((squeeze false slug).take maxLength).rdropWhile (· = '_')

/-- `FILENAME_SLUG_MAX_LENGTH` -/
def filenameSlugMaxLength : ℕ := 30

/-- `_build_filename` -/
def buildFilename (tables : Tables) (description : Str) (index : ℕ) (extension : Str) : Str :=
  let base := if Text.strip description ≠ [] then slugify tables description filenameSlugMaxLength else "file".toList
  base ++ '_' :: Fresh.padded index ++ '.' :: extension

/-- `MIME_EXTENSIONS`, without the dot -/
def mimeExtensions : List (Str × Str) :=
  [("image/jpeg".toList, "jpg".toList), ("image/png".toList, "png".toList), ("image/gif".toList, "gif".toList),
    ("image/webp".toList, "webp".toList), ("application/pdf".toList, "pdf".toList)]

/-- `_extension_from_mime` -/
def extensionFromMime (mimeType : Str) : Str := (mimeExtensions.lookup mimeType).getD "bin".toList

/-- the name that an upload chooses in a folder -/
def nextFilename (tables : Tables) (description extension : Str) (listed : ℕ) (taken : List Str) : Str :=
  let name (index : ℕ) : Str := buildFilename tables description index extension
  name (Fresh.firstFree name taken (listed + 1))

/-- a name with a number before its last dot -/
def numbered (filename : Str) (n : ℕ) : Str :=
  if '.' ∈ filename then (rsplit '.' filename).1 ++ '_' :: Fresh.padded n ++ '.' :: (rsplit '.' filename).2
  else filename ++ '_' :: Fresh.padded n

/-- the name that a move or a written text gets in a folder -/
def uniqueFilename (filename : Str) (taken : List Str) : Str :=
  if filename ∈ taken then numbered filename (Fresh.firstFree (numbered filename) taken 2) else filename

/-! ## Folders -/

/-- the root, or a path of segments that are not empty -/
def IsFolder (path : Str) : Prop := path = ['/'] ∨ ∃ s, path = '/' :: s ∧ ∀ seg ∈ s.splitOn '/', seg ≠ []

theorem isFolder_inbox : IsFolder "/Inbox".toList := .inr ⟨"Inbox".toList, rfl, by decide⟩

theorem withoutTrailingSlash_cons {path : Str} (h : Text.startsWith "/".toList path = true) :
    ∃ s, withoutTrailingSlash path = '/' :: s := by
  have hcons : ∀ {t : Str}, t <+: path → t ≠ [] → ∃ s, t = '/' :: s := by
    intro t ht hne
    obtain ⟨rest, rfl⟩ := List.isPrefixOf_iff_prefix.1 h
    cases t with
    | nil => exact absurd rfl hne
    | cons c s =>
      change c :: s <+: '/' :: rest at ht
      obtain ⟨rfl, -⟩ := List.cons_prefix_cons.1 ht
      exact ⟨s, rfl⟩
  rw [withoutTrailingSlash]
  split_ifs with hcut hempty hempty
  · exact ⟨[], rfl⟩
  · exact hcons (List.rdropWhile_prefix _ _) hempty
  · exact ⟨[], rfl⟩
  · exact hcons List.prefix_rfl hempty

theorem checkSegments_ok {tables : Tables} {s folder : Str} (h : checkSegments tables ('/' :: s) = .ok folder) :
    folder = '/' :: s ∧ ∀ seg ∈ s.splitOn '/', seg ≠ [] := by
  rw [checkSegments] at h
  simp only [List.drop_succ_cons, List.drop_zero] at h
  split_ifs at h with hdeep
  split at h
  · cases h
  · next hfind =>
    refine ⟨(Except.ok.inj h).symm, fun seg hseg hnil => ?_⟩
    have hnone := List.findSome?_eq_none_iff.1 hfind seg hseg
    rw [segmentError, if_pos hnil] at hnone
    cases hnone

/-- what is accepted -/
theorem normalizeFolderPath_isFolder {tables : Tables} {raw : Option Str} {folder : Str}
    (h : normalizeFolderPath tables raw = .ok folder) : IsFolder folder := by
  rw [normalizeFolderPath] at h
  generalize Text.strip (raw.getD []) = path at h
  simp only at h
  split_ifs at h with hempty hslash hlong hback hroot
  · rw [← Except.ok.inj h]
    exact isFolder_inbox
  · rw [← Except.ok.inj h]
    exact .inl hroot
  · rw [Bool.not_eq_true', Bool.not_eq_false] at hslash
    obtain ⟨s, hs⟩ := withoutTrailingSlash_cons hslash
    rw [hs] at h
    obtain ⟨hfolder, hsegs⟩ := checkSegments_ok h
    exact .inr ⟨s, hfolder, hsegs⟩

theorem stripSlashes_root : stripSlashes ['/'] = [] := rfl

/-- a name without a slash is what it is -/
theorem stripSlashes_of_not_mem {t : Str} (h : '/' ∉ t) : stripSlashes t = t := by
  have hne : ∀ c ∈ t, ¬ decide (c = '/') = true := by
    intro c hc heq
    exact h (of_decide_eq_true heq ▸ hc)
  have hleft : t.dropWhile (· = '/') = t := by
    cases t with
    | nil => rfl
    | cons c t => exact List.dropWhile_cons_of_neg (hne c List.mem_cons_self)
  rw [stripSlashes, hleft]
  exact List.rdropWhile_eq_self_iff.2 fun hl => hne _ (List.getLast_mem hl)

/-- the segments of a folder have no empty one at the ends either -/
theorem stripSlashes_cons {s : Str} (h : ∀ seg ∈ s.splitOn '/', seg ≠ []) : stripSlashes ('/' :: s) = s := by
  have hfirst : ∀ t, s ≠ '/' :: t := by
    rintro t rfl
    refine h [] ?_ rfl
    rw [← List.nil_append ('/' :: t), List.splitOn_append_cons_self]
    exact List.mem_append_left _ (List.mem_singleton_self [])
  have hlast : ∀ t, s ≠ t ++ ['/'] := by
    rintro t rfl
    refine h [] ?_ rfl
    rw [List.splitOn_append_cons_self]
    exact List.mem_append_right _ (List.mem_singleton_self [])
  have hleft : ('/' :: s).dropWhile (· = '/') = s := by
    rw [List.dropWhile_cons_of_pos (by rfl)]
    cases s with
    | nil => rfl
    | cons c t => exact List.dropWhile_cons_of_neg fun heq => hfirst t (by rw [of_decide_eq_true heq])
  rw [stripSlashes, hleft]
  refine List.rdropWhile_eq_self_iff.2 fun hl heq => ?_
  refine hlast s.dropLast ?_
  rw [← of_decide_eq_true heq, List.dropLast_append_getLast hl]

/-- the text of a path before its name -/
def folderText (folder : Str) : Str := if folder = ['/'] then ['/'] else folder ++ ['/']

theorem normalizedPath_eq {folder name : Str} (hfolder : IsFolder folder) (hname : name ≠ []) (hslash : '/' ∉ name) :
    normalizedPath folder name = folderText folder ++ name := by
  rw [normalizedPath, stripSlashes_of_not_mem hslash, folderText]
  obtain rfl | ⟨s, rfl, hs⟩ := hfolder
  · rw [stripSlashes_root, if_pos rfl, List.filter_cons_of_neg (by simp), List.filter_cons_of_pos (by simpa using hname)]
    simp [Text.join]
  · have hne : s ≠ [] := by
      rintro rfl
      exact hs [] (by simp) rfl
    rw [stripSlashes_cons hs, if_neg (by simpa using hne), List.filter_cons_of_pos (by simpa using hne),
      List.filter_cons_of_pos (by simpa using hname)]
    simp [Text.join, List.intercalate]

/-- the last separator of a text is in one place -/
theorem last_cut {c : Char} {a a' b b' : Str} (hb : c ∉ b) (hb' : c ∉ b') (h : a ++ c :: b = a' ++ c :: b') :
    a = a' ∧ b = b' := by
  have hone : ∀ {x y z : Str}, c ∉ y → c :: y = x ++ c :: z → x = [] := by
    intro x y z hy heq
    cases x with
    | nil => rfl
    | cons d x =>
      obtain ⟨-, rfl⟩ := List.cons.inj heq
      exact absurd (List.mem_append_right _ List.mem_cons_self) hy
  obtain ⟨x, rfl, hx⟩ | ⟨x, rfl, hx⟩ := List.append_eq_append_iff.1 h
  · obtain rfl := hone hb hx
    exact ⟨(List.append_nil a).symm, (List.cons.inj hx).2⟩
  · obtain rfl := hone hb' hx
    exact ⟨List.append_nil a', (List.cons.inj hx).2.symm⟩

/-- **A path names its folder and its file.** -/
theorem normalizedPath_inj {folder folder' name name' : Str} (hfolder : IsFolder folder) (hfolder' : IsFolder folder')
    (hname : name ≠ []) (hname' : name' ≠ []) (hslash : '/' ∉ name) (hslash' : '/' ∉ name')
    (h : normalizedPath folder name = normalizedPath folder' name') : folder = folder' ∧ name = name' := by
  have hcut : ∀ {path : Str}, IsFolder path → folderText path = (if path = ['/'] then [] else path) ++ ['/'] ∧ path ≠ [] := by
    intro path hpath
    obtain rfl | ⟨s, rfl, -⟩ := hpath
    · exact ⟨rfl, List.cons_ne_nil _ _⟩
    · rw [folderText]
      split_ifs <;> exact ⟨rfl, List.cons_ne_nil _ _⟩
  rw [normalizedPath_eq hfolder hname hslash, normalizedPath_eq hfolder' hname' hslash', (hcut hfolder).1, (hcut hfolder').1,
    List.append_assoc, List.append_assoc] at h
  obtain ⟨hbefore, hafter⟩ := last_cut hslash hslash' h
  refine ⟨?_, hafter⟩
  split_ifs at hbefore with hroot hroot' hroot'
  · rw [hroot, hroot']
  · exact absurd hbefore.symm (hcut hfolder').2
  · exact absurd hbefore (hcut hfolder).2
  · exact hbefore

/-- different folders have different names on their way -/
theorem folderParts_inj {folder folder' : Str} (hfolder : IsFolder folder) (hfolder' : IsFolder folder')
    (h : folderParts folder = folderParts folder') : folder = folder' := by
  have hparts : ∀ {s : Str}, (∀ seg ∈ s.splitOn '/', seg ≠ []) → folderParts ('/' :: s) = s.splitOn '/' := by
    intro s hs
    rw [folderParts, stripSlashes_cons hs]
    exact List.filter_eq_self.2 fun seg hseg => decide_eq_true (hs seg hseg)
  have hroot : folderParts ['/'] = [] := rfl
  obtain rfl | ⟨s, rfl, hs⟩ := hfolder <;> obtain rfl | ⟨s', rfl, hs'⟩ := hfolder'
  · rfl
  · rw [hroot, hparts hs'] at h
    exact absurd h.symm (List.splitOn_ne_nil _ _)
  · rw [hroot, hparts hs] at h
    exact absurd h (List.splitOn_ne_nil _ _)
  · rw [hparts hs, hparts hs'] at h
    rw [← @List.intercalate_splitOn _ s _ _ '/', h, List.intercalate_splitOn]

/-! ## Names -/

theorem slash_not_mem_padded (n : ℕ) : '/' ∉ Fresh.padded n := fun h => absurd (Fresh.isDigit_of_mem_padded h) (by decide)

theorem mem_of_mem_squeeze {c : Char} (hc : c ≠ '_') {run : Bool} {t : Str} (h : c ∈ squeeze run t) : c ∈ t := by
  induction t generalizing run with
  | nil => exact h
  | cons d t ih =>
    rw [squeeze] at h
    split_ifs at h
    · exact List.mem_cons_of_mem _ (ih h)
    · obtain heq | hmem := List.mem_cons.1 h
      · exact absurd heq hc
      · exact List.mem_cons_of_mem _ (ih hmem)
    · obtain heq | hmem := List.mem_cons.1 h
      · exact heq ▸ List.mem_cons_self
      · exact List.mem_cons_of_mem _ (ih hmem)

theorem slugify_slash (tables : Tables) (text : Str) (maxLength : ℕ) : '/' ∉ slugify tables text maxLength := by
  intro h
  have hsqueezed := List.mem_of_mem_take ((List.rdropWhile_prefix _ _).subset h)
  have hkept := (List.mem_filter.1 (mem_of_mem_squeeze (by decide) hsqueezed)).2
  rw [tables.word_slash] at hkept
  exact absurd hkept (by decide)

/-- an upload gives no name with a slash -/
theorem buildFilename_slash (tables : Tables) (description : Str) (index : ℕ) {extension : Str} (h : '/' ∉ extension) :
    '/' ∉ buildFilename tables description index extension := by
  have hbase : '/' ∉ (if Text.strip description ≠ [] then slugify tables description filenameSlugMaxLength
      else "file".toList) := by
    split_ifs
    · exact slugify_slash tables description filenameSlugMaxLength
    · decide
  simp only [buildFilename, List.mem_append, List.mem_cons, not_or]
  exact ⟨⟨hbase, by decide, slash_not_mem_padded index⟩, by decide, h⟩

theorem extensionFromMime_slash (mimeType : Str) : '/' ∉ extensionFromMime mimeType := by
  have hall : ∀ entry ∈ mimeExtensions, '/' ∉ entry.2 := by decide
  rw [extensionFromMime]
  cases hlookup : mimeExtensions.lookup mimeType with
  | none => exact fun h => absurd h (by decide)
  | some extension =>
    obtain ⟨before, after, hsplit, -⟩ := List.lookup_eq_some_iff.1 hlookup
    have hmem : (mimeType, extension) ∈ mimeExtensions := hsplit ▸ List.mem_append_right before List.mem_cons_self
    exact hall _ hmem

theorem buildFilename_injective (tables : Tables) (description extension : Str) :
    Function.Injective fun index => buildFilename tables description index extension := by
  intro i j h
  simp only [buildFilename, List.append_assoc] at h
  have hnumber := (List.cons.inj (List.append_cancel_left h)).2
  exact Fresh.padded_injective (List.append_cancel_right hnumber)

/-- the name that an upload chooses is not taken -/
theorem nextFilename_free (tables : Tables) (description extension : Str) (listed : ℕ) (taken : List Str) :
    nextFilename tables description extension listed taken ∉ taken :=
  Fresh.firstFree_not_mem (buildFilename_injective tables description extension) taken (listed + 1)

theorem numbered_injective (filename : Str) : Function.Injective (numbered filename) := by
  intro i j h
  simp only [numbered] at h
  split_ifs at h with hdot
  · simp only [List.append_assoc] at h
    have hnumber := (List.cons.inj (List.append_cancel_left h)).2
    exact Fresh.padded_injective (List.append_cancel_right hnumber)
  · exact Fresh.padded_injective (List.cons.inj (List.append_cancel_left h)).2

/-- the name that a move or a written text gets is not taken -/
theorem uniqueFilename_free (filename : Str) (taken : List Str) : uniqueFilename filename taken ∉ taken := by
  rw [uniqueFilename]
  split_ifs with h
  · exact Fresh.firstFree_not_mem (numbered_injective filename) taken 2
  · exact h

theorem rsplit_slash {c : Char} {t : Str} (h : '/' ∉ t) : '/' ∉ (rsplit c t).1 ∧ '/' ∉ (rsplit c t).2 := by
  have hreverse : ∀ {x : Char}, x ∈ t.reverse → x ∈ t := fun hx => List.mem_reverse.1 hx
  refine ⟨fun hmem => h (hreverse ?_), fun hmem => h (hreverse ?_)⟩
  · exact (List.dropWhile_sublist _).subset (List.mem_of_mem_drop (List.mem_reverse.1 hmem))
  · exact (List.takeWhile_sublist _).subset (List.mem_reverse.1 hmem)

/-- a number changes nothing about slashes -/
theorem numbered_slash {filename : Str} (h : '/' ∉ filename) (n : ℕ) : '/' ∉ numbered filename n := by
  have hpadded := slash_not_mem_padded n
  rw [numbered]
  split_ifs with hdot
  · simp only [List.mem_append, List.mem_cons, not_or]
    exact ⟨⟨(rsplit_slash h).1, by decide, hpadded⟩, by decide, (rsplit_slash h).2⟩
  · simp only [List.mem_append, List.mem_cons, not_or]
    exact ⟨h, by decide, hpadded⟩

theorem uniqueFilename_slash {filename : Str} (h : '/' ∉ filename) (taken : List Str) :
    '/' ∉ uniqueFilename filename taken := by
  rw [uniqueFilename]
  split_ifs
  · exact numbered_slash h _
  · exact h

theorem numbered_ne_nil (filename : Str) (n : ℕ) : numbered filename n ≠ [] := by
  rw [numbered]
  split_ifs <;> simp

theorem uniqueFilename_ne_nil {filename : Str} (h : filename ≠ []) (taken : List Str) : uniqueFilename filename taken ≠ [] := by
  rw [uniqueFilename]
  split_ifs
  · exact numbered_ne_nil filename _
  · exact h

theorem nextFilename_ne_nil (tables : Tables) (description extension : Str) (listed : ℕ) (taken : List Str) :
    nextFilename tables description extension listed taken ≠ [] := by
  simp [nextFilename, buildFilename]

/-- the name of the file on a path that was split -/
theorem splitFilePath_ok {tables : Tables} {raw folder filename : Str} (h : splitFilePath tables raw = .ok (folder, filename)) :
    IsFolder folder ∧ filename ≠ [] ∧ '/' ∉ filename := by
  rw [splitFilePath] at h
  generalize Text.strip raw = path at h
  simp only at h
  generalize (if Text.startsWith "/".toList path then path else '/' :: path) = path' at h
  generalize (if (rsplit '/' path').1 = [] then ['/'] else (rsplit '/' path').1) = folderRaw at h
  cases hfound : normalizeFolderPath tables (some folderRaw) with
  | error complaint =>
    simp only [hfound] at h
    split_ifs at h
  | ok found =>
    simp only [hfound] at h
    split_ifs at h with hempty hback hname hdots hinvalid hspace
    obtain ⟨rfl, rfl⟩ := Prod.mk.inj (Except.ok.inj h)
    refine ⟨normalizeFolderPath_isFolder hfound, hname, fun hmem => ?_⟩
    have hpred := List.mem_takeWhile_imp (List.mem_reverse.1 hmem)
    exact absurd hpred (by decide)

end Clawbolt.Files

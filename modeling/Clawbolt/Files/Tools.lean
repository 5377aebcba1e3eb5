/-
The three tools that write files to the user's Drive (agent/tools/file_tools.py): `upload_to_storage`, `write_to_storage`
and `move_file`, in a turn or over several ones. They run one after another, and the Drive and the database answer.

The clock may read anything. `copied` is what the model keeps besides: the media items whose bytes were uploaded.
-/
import Mathlib.Tactic
import Clawbolt.Files.Drive
import Clawbolt.Media.Cap

namespace Clawbolt.Files

open Text (Str)
open Media (Bytes Store StagedMedia UploadRecord)

/-! ## Staged media, as the tools read them -/

/-- the row that a reference names, the last one that was created -/
def namedRow (s : Store) (ref : Str) (now : ℤ) (tie : Str → ℕ) : Option StagedMedia :=
  ((s.rows.filter fun r => (r.originalUrl = ref ∨ r.handle = ref) ∧ now < r.expiresAt).insertionSort fun a b =>
    b.createdAt < a.createdAt ∨ a.createdAt = b.createdAt ∧ tie a.handle ≤ tie b.handle).head?

/-- `get_uploaded` -/
def getUploaded (s : Store) (ref : Str) (now : ℤ) (tie : Str → ℕ) : Option UploadRecord :=
  if ref = [] then none else (namedRow s ref now tie).bind StagedMedia.upload

/-- `list_urls_for_user` -/
def listUrlsForUser (s : Store) (now : ℤ) (tie : Str → ℕ) : List Str :=
  ((s.rows.filter fun r => now < r.expiresAt).insertionSort fun a b =>
    b.expiresAt < a.expiresAt ∨ a.expiresAt = b.expiresAt ∧ tie a.handle ≤ tie b.handle).map StagedMedia.originalUrl

/-- `get_mime_type` -/
def getMimeType (s : Store) (url : Str) (now : ℤ) : Option Str :=
  (s.rows.find? fun r => r.originalUrl = url ∧ now < r.expiresAt).map StagedMedia.mimeType

/-! ## State -/

structure State where
  store : Store
  /-- `media_map` of the turn -/
  media : List (Str × Bytes)
  /-- `recent_uploads_by_folder` of the turn -/
  recent : Str → List Str
  drive : Drive
  /-- the folders of the turn, by the names on their way -/
  folders : List Str → ℕ
  copied : List Str

inductive ToolErrorKind where
  | validation
  | notFound
deriving DecidableEq

structure ToolReceipt where
  action : Str
  target : Str
  url : Option Str
deriving DecidableEq

structure ToolResult where
  content : Str
  errorKind : Option ToolErrorKind
  receipt : Option ToolReceipt
deriving DecidableEq

def ToolResult.error (content : Str) (kind : ToolErrorKind) : ToolResult := ⟨content, some kind, none⟩

/-- the readings of the clock and the order of equal keys during one upload -/
structure Times where
  resolve : ℤ
  receipt : ℤ
  list : ℤ
  fallback : ℤ
  mime : ℤ
  mark : ℤ
  tie : Str → ℕ

variable (tables : Tables)

def State.minted (s : State) (folder name : Str) : State :=
  { s with recent := Function.update s.recent folder (s.recent folder ++ [name]) }

/-- the names that are taken in a folder, as far as a call can see -/
def takenNames (s : State) (a : Answers) (folder : Str) : List Str :=
  (listFolder s.folders a folder).map DriveFile.name ++ s.recent folder

/-! ## Upload -/

/-- what an upload works on: the map and the reference after the first lookup, and the mime type -/
structure Resolved where
  store : Store
  media : List (Str × Bytes)
  ref : Str
  mimeType : Str

/-- a handle is replaced by its url -/
def resolveRef (s : Store) (media : List (Str × Bytes)) (ref mimeType : Str) (now : ℤ) : Resolved :=
  if ref ≠ [] ∧ media.lookup ref = none then
    match Media.resolveMediaRef s ref now with
    | (s, some (url, content, mime)) => ⟨s, if (media.lookup url).isSome then media else media ++ [(url, content)], url, mime⟩
    | (s, none) => ⟨s, media, ref, mimeType⟩
  else ⟨s, media, ref, mimeType⟩

/-- the bytes that are uploaded, and the item that they are of -/
structure Chosen where
  store : Store
  ref : Str
  source : Str
  content : Bytes
  mimeType : Str

/-- the bytes of the reference, of the first attachment, or of what was staged last -/
def chooseBytes (r : Resolved) (t : Times) : Chosen :=
  match if r.ref = [] then none else r.media.lookup r.ref with
  | some content => ⟨r.store, r.ref, r.ref, content, r.mimeType⟩
  | none =>
    match r.media with
    | (firstUrl, content) :: _ => ⟨r.store, if r.ref = [] then firstUrl else r.ref, firstUrl, content, r.mimeType⟩
    | [] =>
      if r.ref = [] then
        match listUrlsForUser r.store t.list t.tie with
        | [] => ⟨r.store, [], [], [], r.mimeType⟩
        | firstStaged :: _ =>
          match Media.resolveMediaRef r.store firstStaged t.fallback with
          | (s, some (url, content, mime)) => ⟨s, firstStaged, url, content, mime⟩
          | (s, none) => ⟨s, [], [], [], r.mimeType⟩
      else ⟨r.store, r.ref, [], [], r.mimeType⟩

/-- the receipt of a saved file -/
def storageRecord (saved : SavedFile) : UploadRecord where
  service := "storage".toList
  externalId := saved.path
  url := saved.webViewLink
  target := saved.path
  status := "uploaded".toList

/-- the mime type that was staged goes before the one that was asked for -/
def finalMime (c : Chosen) (t : Times) : Str :=
  if c.ref = [] then c.mimeType
  else
    match getMimeType c.store c.ref t.mime with
    | none => c.mimeType
    | some mime => if mime = [] then c.mimeType else mime

/-- the file is written under the next free name, and the receipt recorded -/
def saveChosen (s : State) (a : Answers) (t : Times) (folder description : Str) (c : Chosen) : ToolResult × State :=
  if c.content = [] then
    (.error ("No file content available to upload. This tool only works with media attached to the current message " ++
      "or still in the staging cache. To move a previously saved file, use move_file with the storage path from " ++
      "find_saved_files.").toList .notFound, { s with store := c.store })
  else
    let existing := listFolder s.folders a folder
    let filename := nextFilename tables description (extensionFromMime (finalMime c t)) existing.length
      (takenNames s a folder)
    let (saved, drive) := uploadFile s.folders s.drive a folder filename
    let store := if c.ref = [] then c.store else Media.markUploaded c.store c.ref (storageRecord saved) t.mark t.tie
    let link := if saved.webViewLink = [] then none else some saved.webViewLink
    (⟨"ok | path: ".toList ++ saved.path, none, some ⟨"Uploaded file to Drive".toList, saved.path, link⟩⟩,
      ({ s with store := store, drive := drive, copied := s.copied ++ [c.source] }).minted folder filename)

/-- an item that has its receipt is not uploaded again -/
def uploadResolved (s : State) (a : Answers) (t : Times) (folder description : Str) (r : Resolved) : ToolResult × State :=
  let s := { s with store := r.store, media := r.media }
  match getUploaded r.store r.ref t.receipt t.tie with
  | some prior =>
    if prior.service = "storage".toList then
      (⟨"File ".toList ++ r.ref ++ " was already uploaded to ".toList ++ prior.externalId ++ ". Not re-uploading.".toList,
        none, some ⟨"File already in Drive".toList, prior.target, if prior.url = [] then none else some prior.url⟩⟩, s)
    else saveChosen tables s a t folder description (chooseBytes r t)
  | none => saveChosen tables s a t folder description (chooseBytes r t)

/-- `upload_to_storage` -/
def uploadToStorage (s : State) (a : Answers) (t : Times) (folderPath : Option Str) (description : Str)
    (originalUrl : Option Str) (mimeType : Str) : ToolResult × State :=
  match normalizeFolderPath tables folderPath with
  | .error complaint => (.error complaint .validation, s)
  | .ok folder =>
    uploadResolved tables s a t folder description (resolveRef s.store s.media (originalUrl.getD []) mimeType t.resolve)

/-! ## Written texts and moves -/

/-- `write_to_storage`; the Drive keeps the bytes and the mime type, and nothing here reads them -/
def writeToStorage (s : State) (a : Answers) (folderPath : Option Str) (filename content : Str) : ToolResult × State :=
  if Text.strip filename = [] then (.error "filename is required.".toList .validation, s)
  else if Text.strip content = [] then (.error "content is required.".toList .validation, s)
  else
    match normalizeFolderPath tables folderPath with
    | .error complaint => (.error complaint .validation, s)
    | .ok folder =>
      if filename.any isInvalid then
        (.error ("filename ".toList ++ tables.repr filename ++ " contains unsupported characters.".toList) .validation, s)
      else if '/' ∈ filename then (.error "filename must not contain slashes.".toList .validation, s)
      else
        let targetFilename := uniqueFilename filename (takenNames s a folder)
        let (saved, drive) := uploadFile s.folders s.drive a folder targetFilename
        let link := if saved.webViewLink = [] then none else some saved.webViewLink
        (⟨"Created ".toList ++ saved.path, none, some ⟨"Created file in Drive".toList, saved.path, link⟩⟩,
          ({ s with drive := drive }).minted folder targetFilename)

/-- `move_file` -/
def moveFile (s : State) (a : Answers) (fromPath toFolderPath : Str) (newFilename : Option Str) : ToolResult × State :=
  match splitFilePath tables fromPath with
  | .error complaint => (.error complaint .validation, s)
  | .ok (oldFolder, oldFilename) =>
    match normalizeFolderPath tables (some toFolderPath) with
    | .error complaint => (.error complaint .validation, s)
    | .ok folder =>
      let currentPath := if oldFolder = ['/'] then oldFolder ++ oldFilename else oldFolder ++ '/' :: oldFilename
      match findSavedFile s.folders a currentPath with
      | none => (.error ("File not found at ".toList ++ currentPath) .notFound, s)
      | some _ =>
        let wanted := Text.strip (newFilename.getD [])
        let targetFilename := uniqueFilename (if wanted ≠ [] then wanted else oldFilename) (takenNames s a folder)
        match moveInDrive s.folders s.drive a oldFolder oldFilename folder targetFilename with
        | none => (.error ("File not found at ".toList ++ currentPath) .notFound, s)
        | some (moved, drive) =>
          let link := if moved.webViewLink = [] then none else some moved.webViewLink
          (⟨"ok | path: ".toList ++ moved.path, none, some ⟨"Moved file in Drive".toList, moved.path, link⟩⟩,
            ({ s with drive := drive }).minted folder targetFilename)

inductive Call where
  | upload (t : Times) (folderPath : Option Str) (description : Str) (originalUrl : Option Str) (mimeType : Str)
  | write (folderPath : Option Str) (filename content : Str)
  | move (fromPath toFolderPath : Str) (newFilename : Option Str)

def call (s : State) (a : Answers) : Call → ToolResult × State
  | .upload t folderPath description originalUrl mimeType =>
    uploadToStorage tables s a t folderPath description originalUrl mimeType
  | .write folderPath filename content => writeToStorage tables s a folderPath filename content
  | .move fromPath toFolderPath newFilename => moveFile tables s a fromPath toFolderPath newFilename

end Clawbolt.Files

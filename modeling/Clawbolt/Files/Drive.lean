/-
The user's Drive as one turn sees it (services/storage_service.py, `find_saved_file` of agent/saved_media.py).

`files.list` reads an index that may lag behind the turn's writes: it shows every file that the turn has not written, and
any version of the others, or none. A folder keeps its id during a turn (`_folder_cache`); `folders` is the id of the
folder with these names on its way. Folders that the turn makes are no files here, and a listing may show them.
-/
import Mathlib.Tactic
import Clawbolt.Files.Names

namespace Clawbolt.Files

open Text (Str)

structure DriveFile where
  id : ℕ
  name : Str
  parent : ℕ
  /-- `clawbolt_path` of the app properties -/
  appPath : Option Str
  webViewLink : Str
  folder : Bool
deriving DecidableEq

structure Drive where
  files : List DriveFile
  /-- the files as they were at some time of the turn -/
  versions : List DriveFile
  /-- the files that the turn has written -/
  written : List ℕ

def Drive.start (files : List DriveFile) : Drive := ⟨files, files, []⟩

/-- an id that no file has -/
def Drive.fresh (d : Drive) : ℕ := (d.versions.map DriveFile.id).foldr max 0 + 1

/-- a file is created, or updated -/
def Drive.put (d : Drive) (f : DriveFile) : Drive where
  files := d.files.filter (fun g => g.id ≠ f.id) ++ [f]
  versions := d.versions ++ [f]
  written := d.written ++ [f.id]

/-- what `files.list` may go through -/
structure IsView (d : Drive) (view : List DriveFile) : Prop where
  shown : ∀ f ∈ view, f ∈ d.versions ∨ f.folder = true ∧ f.appPath = none
  complete : ∀ f ∈ d.files, f.id ∉ d.written → f ∈ view

/-- the listing requests of a call -/
inductive Request where
  | getByPath
  | getByName
  | listFolder
  | moveByPath
  | moveByName
deriving DecidableEq

/-- what the service answers during one call -/
structure Answers where
  view : Request → List DriveFile
  /-- the folders that exist, by the names on their way -/
  walks : List Str → Bool
  /-- `search_files` -/
  search : Str → List DriveFile
  /-- the link of the file that is created -/
  link : Str

structure SavedFile where
  id : ℕ
  path : Str
  name : Str
  webViewLink : Str
deriving DecidableEq

/-- `_from_drive_file` -/
def fromDriveFile (f : DriveFile) (fallbackPath : Str) : SavedFile where
  id := f.id
  path := if f.appPath.getD [] = [] then fallbackPath else f.appPath.getD []
  name := f.name
  webViewLink := f.webViewLink

/-- `_find_by_app_path` -/
def findByAppPath (view : List DriveFile) (path : Str) : Option DriveFile :=
  if path = [] then none
  else
    let normalized := if Text.startsWith "/".toList path then path else '/' :: stripSlashes path
    view.find? fun f => f.appPath = some normalized

/-- the first file of a name in a folder -/
def findByName (view : List DriveFile) (name : Str) (folder : ℕ) : Option DriveFile :=
  view.find? fun f => f.name = name ∧ f.parent = folder

variable (folders : List Str → ℕ)

/-- `_resolve_existing_path` -/
def resolveExistingPath (a : Answers) (path : Str) : Option ℕ :=
  if a.walks (folderParts path) then some (folders (folderParts path)) else none

/-- `list_folder` of a folder that exists: one page -/
def listFolder (a : Answers) (path : Str) : List DriveFile :=
  ((a.view .listFolder).filter fun f => f.parent = folders (folderParts path)).take 200

/-- `get_file` -/
def getFile (a : Answers) (path : Str) : Option SavedFile :=
  let canonical := if Text.startsWith "/".toList path then path else '/' :: stripSlashes path
  match findByAppPath (a.view .getByPath) canonical with
  | some f => some (fromDriveFile f canonical)
  | none =>
    let (folderPath, filename) := rsplit '/' (stripSlashes canonical)
    match resolveExistingPath folders a folderPath with
    | none => none
    | some folder => (findByName (a.view .getByName) filename folder).map (fromDriveFile · canonical)

/-- `find_saved_file` -/
def findSavedFile (a : Answers) (fileRef : Str) : Option SavedFile :=
  let ref := Text.strip fileRef
  let searched := (a.search ref).head?.map (fromDriveFile · [])
  if ref = [] then none
  else if Text.startsWith "/".toList ref then (getFile folders a ref).or searched
  else searched

/-- `upload_file` -/
def uploadFile (d : Drive) (a : Answers) (path filename : Str) : SavedFile × Drive :=
  let storagePath := normalizedPath path filename
  let f : DriveFile := {
    id := d.fresh
    name := filename
    parent := folders (folderParts path)
    appPath := some storagePath
    webViewLink := a.link
    folder := false }
  (fromDriveFile f storagePath, d.put f)

/-- the file that `move_file` moves; none where it raises `FileNotFoundError` -/
def moveSource (a : Answers) (fromPath fromFilename : Str) : Option DriveFile :=
  match findByAppPath (a.view .moveByPath) (normalizedPath fromPath fromFilename) with
  | some f => some f
  | none => (resolveExistingPath folders a fromPath).bind (findByName (a.view .moveByName) fromFilename)

/-- `move_file` of the backend -/
def moveInDrive (d : Drive) (a : Answers) (fromPath fromFilename toPath toFilename : Str) : Option (SavedFile × Drive) :=
  (moveSource folders a fromPath fromFilename).map fun f =>
    let newPath := normalizedPath toPath toFilename
    let moved : DriveFile := {
      f with name := toFilename, parent := folders (folderParts toPath), appPath := some newPath }
    (fromDriveFile moved newPath, d.put moved)

end Clawbolt.Files

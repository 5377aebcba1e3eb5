/-
Where the tools of a turn leave their files, and what a path finds afterwards.

- `call_outcome`: a call leaves the Drive as it is, or writes one file in the folder that was asked for;
- `alone_of_free`: a name that is neither listed nor minted is no other file's;
- `getFile_named`: what a path finds goes by that path;
- `saved_alone`: so it is for every call of a turn, and for the lookups after it.
-/
import Mathlib.Tactic
import Clawbolt.Files.OneCopy

namespace Clawbolt.Files

open Text (Str)
open Media (Bytes Store)
open Runs

/-! ## A turn -/

def turnStep (tables : Tables) (s : State) (o : Answers × Call) : State := (call tables s o.1 o.2).2

/-- a turn begins -/
def State.begin (store : Store) (media : List (Str × Bytes)) (files : List DriveFile) (folders : List Str → ℕ)
    (copied : List Str) : State where
  store := store
  media := media
  recent := fun _ => []
  drive := Drive.start files
  folders := folders
  copied := copied

/-- the folder that a call asks for -/
def Call.folder (tables : Tables) : Call → Except Str Str
  | .upload _ folderPath _ _ _ => normalizeFolderPath tables folderPath
  | .write folderPath _ _ => normalizeFolderPath tables folderPath
  | .move _ toFolderPath _ => normalizeFolderPath tables (some toFolderPath)

/-- the name that a move asks for has no slash -/
def Call.PlainName : Call → Prop
  | .move _ _ newFilename => '/' ∉ Text.strip (newFilename.getD [])
  | _ => True

/-! ## What a call does -/

/-- a call that wrote this file into this folder -/
structure Wrote (tables : Tables) (s : State) (a : Answers) (c : Call) (folder : Str) (f : DriveFile) : Prop where
  asked : c.folder tables = .ok folder
  ok : (call tables s a c).1.errorKind = none
  told : (call tables s a c).1.receipt.map ToolReceipt.target = some (normalizedPath folder f.name)
  drive : (call tables s a c).2.drive = s.drive.put f
  recent : (call tables s a c).2.recent = Function.update s.recent folder (s.recent folder ++ [f.name])
  folders : (call tables s a c).2.folders = s.folders
  free : f.name ∉ takenNames s a folder
  nonempty : f.name ≠ []
  plain : c.PlainName → '/' ∉ f.name
  parent : f.parent = s.folders (folderParts folder)
  path : f.appPath = some (normalizedPath folder f.name)

/-- a call that wrote nothing: it failed, or the file was there already -/
structure Idle (tables : Tables) (s : State) (a : Answers) (c : Call) : Prop where
  why : (call tables s a c).1.errorKind ≠ none ∨
    (call tables s a c).1.receipt.map ToolReceipt.action = some "File already in Drive".toList
  drive : (call tables s a c).2.drive = s.drive
  recent : (call tables s a c).2.recent = s.recent
  folders : (call tables s a c).2.folders = s.folders

variable {tables : Tables}

theorem idle_of_error {s s' : State} {a : Answers} {c : Call} {content : Str} {kind : ToolErrorKind}
    (h : call tables s a c = (.error content kind, s')) (hdrive : s'.drive = s.drive) (hrecent : s'.recent = s.recent)
    (hfolders : s'.folders = s.folders) : Idle tables s a c := by
  refine ⟨.inl ?_, ?_, ?_, ?_⟩ <;> rw [h]
  · exact Option.some_ne_none kind
  · exact hdrive
  · exact hrecent
  · exact hfolders

theorem wrote_of_put {s : State} (s' : State) {a : Answers} {c : Call} {folder : Str} {f : DriveFile} (hasked : c.folder tables = .ok folder) (hdrive : s'.drive = s.drive.put f) (hrecent : s'.recent = s.recent)
    (hfolders : s'.folders = s.folders) (hfree : f.name ∉ takenNames s a folder) (hne : f.name ≠ [])
    (hplain : c.PlainName → '/' ∉ f.name) (hparent : f.parent = s.folders (folderParts folder))
    (hpath : f.appPath = some (normalizedPath folder f.name))
    (h : ∃ content action link, call tables s a c =
      (⟨content, none, some ⟨action, normalizedPath folder f.name, link⟩⟩, s'.minted folder f.name)) :
    Wrote tables s a c folder f := by
  obtain ⟨content, action, link, h⟩ := h
  refine ⟨hasked, ?_, ?_, ?_, ?_, ?_, hfree, hne, hplain, hparent, hpath⟩ <;> rw [h]
  · rfl
  · exact hdrive
  · exact hrecent ▸ rfl
  · exact hfolders

/-- the file that an upload creates -/
def created (s : State) (a : Answers) (folder name : Str) : DriveFile where
  id := s.drive.fresh
  name := name
  parent := s.folders (folderParts folder)
  appPath := some (normalizedPath folder name)
  webViewLink := a.link
  folder := false

theorem write_outcome (s : State) (a : Answers) (folderPath : Option Str) (filename content : Str) :
    Idle tables s a (.write folderPath filename content) ∨
      ∃ folder f, Wrote tables s a (.write folderPath filename content) folder f := by
  by_cases hname : Text.strip filename = []
  · exact .inl (idle_of_error (by rw [call, writeToStorage, if_pos hname]) rfl rfl rfl)
  by_cases hcontent : Text.strip content = []
  · exact .inl (idle_of_error (by rw [call, writeToStorage, if_neg hname, if_pos hcontent]) rfl rfl rfl)
  cases hfolder : normalizeFolderPath tables folderPath with
  | error complaint =>
    exact .inl (idle_of_error (by rw [call, writeToStorage, if_neg hname, if_neg hcontent, hfolder]) rfl rfl rfl)
  | ok folder =>
    by_cases hinvalid : filename.any isInvalid = true
    · exact .inl (idle_of_error (by rw [call, writeToStorage, if_neg hname, if_neg hcontent, hfolder]; exact if_pos hinvalid) rfl rfl rfl)
    by_cases hslash : '/' ∈ filename
    · exact .inl (idle_of_error (by
        rw [call, writeToStorage, if_neg hname, if_neg hcontent, hfolder]
        exact (if_neg hinvalid).trans (if_pos hslash)) rfl rfl rfl)
    have hne : filename ≠ [] := fun hnil => hname (by rw [hnil]; rfl)
    refine .inr ⟨folder, created s a folder (uniqueFilename filename (takenNames s a folder)), wrote_of_put
      { s with drive := s.drive.put (created s a folder (uniqueFilename filename (takenNames s a folder))) } hfolder rfl rfl rfl
      (uniqueFilename_free _ _) (uniqueFilename_ne_nil hne _) (fun _ => uniqueFilename_slash hslash _) rfl rfl ?_⟩
    refine ⟨"Created ".toList ++ normalizedPath folder (uniqueFilename filename (takenNames s a folder)),
      "Created file in Drive".toList, if a.link = [] then none else some a.link, ?_⟩
    rw [call, writeToStorage, if_neg hname, if_neg hcontent, hfolder]
    exact (if_neg hinvalid).trans (if_neg hslash)

theorem upload_outcome (s : State) (a : Answers) (t : Times) (folderPath : Option Str) (description : Str)
    (originalUrl : Option Str) (mimeType : Str) :
    Idle tables s a (.upload t folderPath description originalUrl mimeType) ∨
      ∃ folder f, Wrote tables s a (.upload t folderPath description originalUrl mimeType) folder f := by
  cases hfolder : normalizeFolderPath tables folderPath with
  | error complaint => exact .inl (idle_of_error (by rw [call, uploadToStorage, hfolder]) rfl rfl rfl)
  | ok folder =>
    have hcall : call tables s a (.upload t folderPath description originalUrl mimeType) =
        uploadResolved tables s a t folder description
          (resolveRef s.store s.media (originalUrl.getD []) mimeType t.resolve) := by
      rw [call, uploadToStorage, hfolder]
    generalize resolveRef s.store s.media (originalUrl.getD []) mimeType t.resolve = r at hcall
    -- past the check of the receipt
    have hsave : ∀ c : Chosen, call tables s a (.upload t folderPath description originalUrl mimeType) =
        saveChosen tables { s with store := r.store, media := r.media } a t folder description c →
          Idle tables s a (.upload t folderPath description originalUrl mimeType) ∨
            ∃ folder f, Wrote tables s a (.upload t folderPath description originalUrl mimeType) folder f := by
      intro c hc
      by_cases hcontent : c.content = []
      · refine .inl (idle_of_error (hc.trans (if_pos hcontent)) ?_ ?_ ?_) <;> rfl
      · have hname := nextFilename_free tables description (extensionFromMime (finalMime c t))
          (listFolder s.folders a folder).length (takenNames s a folder)
        have hslash : '/' ∉ nextFilename tables description (extensionFromMime (finalMime c t))
          (listFolder s.folders a folder).length (takenNames s a folder) := buildFilename_slash _ _ _ (extensionFromMime_slash _)
        have hne := nextFilename_ne_nil tables description (extensionFromMime (finalMime c t))
          (listFolder s.folders a folder).length (takenNames s a folder)
        generalize hfilename : nextFilename tables description (extensionFromMime (finalMime c t))
          (listFolder s.folders a folder).length (takenNames s a folder) = filename at hname hslash hne
        refine .inr ⟨folder, created s a folder filename, wrote_of_put
          { store := if c.ref = [] then c.store
              else Media.markUploaded c.store c.ref (storageRecord (uploadFile s.folders s.drive a folder filename).1) t.mark t.tie
            media := r.media
            recent := s.recent
            drive := s.drive.put (created s a folder filename)
            folders := s.folders
            copied := s.copied ++ [c.source] } hfolder rfl rfl rfl hname hne (fun _ => hslash) rfl rfl ?_⟩
        refine ⟨"ok | path: ".toList ++ normalizedPath folder filename, "Uploaded file to Drive".toList,
          if a.link = [] then none else some a.link, ?_⟩
        subst hfilename
        exact hc.trans (if_neg hcontent)
    rw [uploadResolved] at hcall
    cases hprior : getUploaded r.store r.ref t.receipt t.tie with
    | none =>
      rw [hprior] at hcall
      exact hsave _ hcall
    | some prior =>
      rw [hprior] at hcall
      by_cases hservice : prior.service = "storage".toList
      · have hdone := hcall.trans (if_pos hservice)
        refine .inl ⟨.inr ?_, ?_, ?_, ?_⟩ <;> rw [hdone]
        rfl
      · exact hsave _ (hcall.trans (if_neg hservice))

theorem move_outcome (s : State) (a : Answers) (fromPath toFolderPath : Str) (newFilename : Option Str) :
    Idle tables s a (.move fromPath toFolderPath newFilename) ∨
      ∃ folder f, Wrote tables s a (.move fromPath toFolderPath newFilename) folder f := by
  cases hsource : splitFilePath tables fromPath with
  | error complaint => exact .inl (idle_of_error (by rw [call, moveFile, hsource]) rfl rfl rfl)
  | ok source =>
    obtain ⟨oldFolder, oldFilename⟩ := source
    cases hfolder : normalizeFolderPath tables (some toFolderPath) with
    | error complaint => exact .inl (idle_of_error (by rw [call, moveFile, hsource, hfolder]) rfl rfl rfl)
    | ok folder =>
      obtain ⟨-, hold, holdslash⟩ := splitFilePath_ok hsource
      generalize hpath : (if oldFolder = ['/'] then oldFolder ++ oldFilename else oldFolder ++ '/' :: oldFilename) = path
      cases hfound : findSavedFile s.folders a path with
      | none =>
        have hcall : call tables s a (.move fromPath toFolderPath newFilename) =
            (.error ("File not found at ".toList ++ path) .notFound, s) := by
          rw [call, moveFile, hsource, hfolder]
          simp only [hpath, hfound]
        exact .inl (idle_of_error hcall rfl rfl rfl)
      | some existing =>
        cases hmoved : moveSource s.folders a oldFolder oldFilename with
        | none =>
          have hcall : call tables s a (.move fromPath toFolderPath newFilename) =
              (.error ("File not found at ".toList ++ path) .notFound, s) := by
            rw [call, moveFile, hsource, hfolder]
            simp only [hpath, hfound, moveInDrive, hmoved, Option.map_none]
          exact .inl (idle_of_error hcall rfl rfl rfl)
        | some f =>
          -- the name that was asked for, or the old one
          generalize hwanted : (if Text.strip (newFilename.getD []) ≠ [] then Text.strip (newFilename.getD []) else oldFilename) =
            wanted
          have hne : wanted ≠ [] := by
            rw [← hwanted]
            split_ifs with h
            · exact h
            · exact hold
          have hslash : '/' ∉ Text.strip (newFilename.getD []) → '/' ∉ wanted := by
            intro hplain
            rw [← hwanted]
            split_ifs
            · exact hplain
            · exact holdslash
          let target := uniqueFilename wanted (takenNames s a folder)
          let g : DriveFile := { f with
            name := target
            parent := s.folders (folderParts folder)
            appPath := some (normalizedPath folder target) }
          refine .inr ⟨folder, g, wrote_of_put { s with drive := s.drive.put g } hfolder rfl rfl rfl (uniqueFilename_free _ _)
            (uniqueFilename_ne_nil hne _) (fun hplain => uniqueFilename_slash (hslash hplain) _) rfl rfl ?_⟩
          refine ⟨"ok | path: ".toList ++ normalizedPath folder target, "Moved file in Drive".toList,
            if f.webViewLink = [] then none else some f.webViewLink, ?_⟩
          rw [call, moveFile, hsource, hfolder]
          simp only [hpath, hfound, moveInDrive, hmoved, Option.map_some, hwanted]
          rfl

/-- **A call.** -/
theorem call_outcome (s : State) (a : Answers) (c : Call) :
    Idle tables s a c ∨ ∃ folder f, Wrote tables s a c folder f := by
  cases c with
  | upload t folderPath description originalUrl mimeType => exact upload_outcome s a t folderPath description originalUrl mimeType
  | write folderPath filename content => exact write_outcome s a folderPath filename content
  | move fromPath toFolderPath newFilename => exact move_outcome s a fromPath toFolderPath newFilename

/-! ## Paths and places -/

/-- a file goes by this folder and name: it carries their path, or it lies there -/
def Named (folders : List Str → ℕ) (folder name : Str) (f : DriveFile) : Prop :=
  f.appPath = some (normalizedPath folder name) ∨ f.name = name ∧ f.parent = folders (folderParts folder)

/-- a folder and a name that a path can be taken apart into -/
structure Proper (folder name : Str) : Prop where
  folder : IsFolder folder
  nonempty : name ≠ []
  plain : '/' ∉ name

/-- every file lies where its path says -/
def Placed (folders : List Str → ℕ) (files : List DriveFile) : Prop :=
  ∀ f ∈ files, ∀ folder name, Proper folder name → f.appPath = some (normalizedPath folder name) →
    f.name = name ∧ f.parent = folders (folderParts folder)

/-- a file that the turn has written -/
def Minted (s : State) (f : DriveFile) : Prop :=
  ∃ folder, Proper folder f.name ∧ f.appPath = some (normalizedPath folder f.name) ∧
    f.parent = s.folders (folderParts folder) ∧ f.name ∈ s.recent folder

/-- what the calls of a turn keep: the files that it began with, and those that it has written, one after the other -/
structure Kept (files new : List DriveFile) (s : State) : Prop where
  versions : s.drive.versions = files ++ new
  minted : ∀ f ∈ new, Minted s f
  current : ∀ f ∈ s.drive.files, f ∈ files ∧ f.id ∉ s.drive.written ∨ f ∈ new
  stays : ∀ f ∈ files, f.id ∈ s.drive.written ∨ f ∈ s.drive.files
  one : ∀ f ∈ new, ∀ f' ∈ new, ∀ folder name, Proper folder name → Named s.folders folder name f →
    Named s.folders folder name f' → f.id = f'.id

theorem kept_start (store : Store) (media : List (Str × Bytes)) (files : List DriveFile) (folders : List Str → ℕ)
    (copied : List Str) : Kept files [] (State.begin store media files folders copied) where
  versions := (List.append_nil files).symm
  minted := fun _ hf => absurd hf List.not_mem_nil
  current := fun _ hf => .inl ⟨hf, List.not_mem_nil⟩
  stays := fun _ hf => .inr hf
  one := fun _ hf => absurd hf List.not_mem_nil

section

variable {s : State} {files new : List DriveFile} {a : Answers} {c : Call} {folder : Str} {f : DriveFile}

/-- folders are told apart by the names on their way -/
def Distinct (folders : List Str → ℕ) : Prop := Function.Injective folders

/-- a file that lies where its path says goes by no other folder and name -/
theorem named_eq {folders : List Str → ℕ} (hfolders : Distinct folders) (hproper : Proper folder f.name)
    (hpath : f.appPath = some (normalizedPath folder f.name)) (hparent : f.parent = folders (folderParts folder))
    {folder' name : Str} (hproper' : Proper folder' name) (hnamed : Named folders folder' name f) :
    folder = folder' ∧ f.name = name := by
  obtain hsame | ⟨hname, hplace⟩ := hnamed
  · exact normalizedPath_inj hproper.folder hproper'.folder hproper.nonempty hproper'.nonempty hproper.plain hproper'.plain
      (Option.some.inj (hpath.symm.trans hsame))
  · exact ⟨folderParts_inj hproper.folder hproper'.folder (hfolders (hparent.symm.trans hplace)), hname⟩

theorem minted_named (hfolders : Distinct s.folders) (hminted : Minted s f) {name : Str} (hproper : Proper folder name)
    (hnamed : Named s.folders folder name f) : name ∈ s.recent folder := by
  obtain ⟨folder', hproper', hpath, hparent, hrecent⟩ := hminted
  obtain ⟨rfl, rfl⟩ := named_eq hfolders hproper' hpath hparent hproper hnamed
  exact hrecent

/-- a name that is neither listed nor minted is no other file's -/
theorem alone_of_free (hkept : Kept files new s) (hfolders : Distinct s.folders) (hplaced : Placed s.folders files)
    (hview : IsView s.drive (a.view .listFolder))
    (hpage : ((a.view .listFolder).filter fun f => f.parent = s.folders (folderParts folder)).length ≤ 200) {name : Str}
    (hproper : Proper folder name) (hfree : name ∉ takenNames s a folder) :
    ∀ f ∈ s.drive.files, ¬ Named s.folders folder name f := by
  intro f hf hnamed
  obtain ⟨hfile, hunwritten⟩ | hnew := hkept.current f hf
  · -- the turn has not written it: the listing shows it
    have hplace : f.name = name ∧ f.parent = s.folders (folderParts folder) := by
      obtain hpath | hplace := hnamed
      · exact hplaced f hfile folder name hproper hpath
      · exact hplace
    refine hfree (List.mem_append_left _ (List.mem_map.2 ⟨f, ?_, hplace.1⟩))
    rw [listFolder, List.take_of_length_le hpage]
    exact List.mem_filter.2 ⟨hview.complete f hf hunwritten, decide_eq_true hplace.2⟩
  · exact hfree (List.mem_append_right _ (minted_named hfolders (hkept.minted f hnew) hproper hnamed))

/-- a call that writes -/
theorem kept_wrote (hkept : Kept files new s) (hfolders : Distinct s.folders) (hwrote : Wrote tables s a c folder f)
    (hproper : Proper folder f.name) : Kept files (new ++ [f]) (call tables s a c).2 := by
  have hminted : ∀ g ∈ new, Minted (call tables s a c).2 g := by
    intro g hg
    obtain ⟨folder', hproper', hpath, hparent, hrecent⟩ := hkept.minted g hg
    refine ⟨folder', hproper', hpath, by rw [hwrote.folders, hparent], ?_⟩
    rw [hwrote.recent]
    by_cases heq : folder' = folder
    · subst heq
      rw [Function.update_self]
      exact List.mem_append_left _ hrecent
    · rwa [Function.update_of_ne heq]
  have hlast : Minted (call tables s a c).2 f := by
    refine ⟨folder, hproper, hwrote.path, by rw [hwrote.folders, hwrote.parent], ?_⟩
    rw [hwrote.recent, Function.update_self]
    exact List.mem_append_right _ (List.mem_singleton_self _)
  -- no file that the turn had written goes by the folder and the name of this one
  have hother : ∀ g ∈ new, ∀ folder' name, Proper folder' name → Named s.folders folder' name f →
      ¬ Named s.folders folder' name g := by
    intro g hg folder' name hproper' hf hnamed
    obtain ⟨rfl, rfl⟩ := named_eq hfolders hproper hwrote.path hwrote.parent hproper' hf
    exact hwrote.free (List.mem_append_right _ (minted_named hfolders (hkept.minted g hg) hproper' hnamed))
  refine ⟨?_, ?_, ?_, ?_, ?_⟩
  · rw [hwrote.drive, Drive.put, hkept.versions, List.append_assoc]
  · intro g hg
    obtain hg | hg := List.mem_append.1 hg
    · exact hminted g hg
    · exact List.mem_singleton.1 hg ▸ hlast
  · intro g hg
    rw [hwrote.drive] at hg ⊢
    obtain hg | hg := List.mem_append.1 hg
    · obtain ⟨hg, hne⟩ := List.mem_filter.1 hg
      obtain ⟨hfile, hunwritten⟩ | hnew := hkept.current g hg
      · refine .inl ⟨hfile, fun hmem => ?_⟩
        obtain hmem | hmem := List.mem_append.1 hmem
        · exact hunwritten hmem
        · exact of_decide_eq_true hne (List.mem_singleton.1 hmem)
      · exact .inr (List.mem_append_left _ hnew)
    · exact .inr (List.mem_append_right _ hg)
  · intro g hg
    rw [hwrote.drive]
    by_cases hsame : g.id = f.id
    · exact .inl (hsame ▸ List.mem_append_right _ (List.mem_singleton_self _))
    · obtain hwritten | hmem := hkept.stays g hg
      · exact .inl (List.mem_append_left _ hwritten)
      · exact .inr (List.mem_append_left _ (List.mem_filter.2 ⟨hmem, decide_eq_true hsame⟩))
  · intro g hg g' hg' folder' name hproper' hnamed hnamed'
    rw [hwrote.folders] at hnamed hnamed'
    obtain hg | hg := List.mem_append.1 hg <;> obtain hg' | hg' := List.mem_append.1 hg'
    · exact hkept.one g hg g' hg' folder' name hproper' hnamed hnamed'
    · exact absurd hnamed (hother g hg folder' name hproper' (List.mem_singleton.1 hg' ▸ hnamed'))
    · exact absurd hnamed' (hother g' hg' folder' name hproper' (List.mem_singleton.1 hg ▸ hnamed))
    · rw [List.mem_singleton.1 hg, List.mem_singleton.1 hg']

theorem kept_idle (hkept : Kept files new s) (hidle : Idle tables s a c) : Kept files new (call tables s a c).2 := by
  refine ⟨?_, ?_, ?_, ?_, ?_⟩
  · rw [hidle.drive]
    exact hkept.versions
  · intro g hg
    obtain ⟨folder', hproper, hpath, hparent, hrecent⟩ := hkept.minted g hg
    exact ⟨folder', hproper, hpath, by rw [hidle.folders, hparent], by rw [hidle.recent]; exact hrecent⟩
  · rw [hidle.drive]
    exact hkept.current
  · rw [hidle.drive]
    exact hkept.stays
  · rw [hidle.folders]
    exact hkept.one

end

/-! ## Lookups -/

section

variable {folders : List Str → ℕ} {a : Answers} {folder name : Str}

theorem takeWhile_reverse {c : Char} {b : Str} (hb : c ∉ b) (rest : Str) :
    (b.reverse ++ c :: rest).takeWhile (· ≠ c) = b.reverse ∧ (b.reverse ++ c :: rest).dropWhile (· ≠ c) = c :: rest := by
  have hall : ∀ d ∈ b.reverse, decide (d ≠ c) = true := by
    intro d hd
    refine decide_eq_true ?_
    rintro rfl
    exact hb (List.mem_reverse.1 hd)
  rw [List.takeWhile_append_of_pos hall, List.dropWhile_append_of_pos hall, List.takeWhile_cons_of_neg (by simp),
    List.dropWhile_cons_of_neg (by simp), List.append_nil]
  exact ⟨rfl, rfl⟩

theorem rsplit_append {c : Char} {t b : Str} (hb : c ∉ b) : rsplit c (t ++ c :: b) = (t, b) := by
  obtain ⟨htake, hdrop⟩ := takeWhile_reverse hb t.reverse
  have hreverse : (t ++ c :: b).reverse = b.reverse ++ c :: t.reverse := by simp
  rw [rsplit, hreverse, htake, hdrop]
  simp

theorem rsplit_of_not_mem {c : Char} {b : Str} (hb : c ∉ b) : rsplit c b = ([], b) := by
  have hall : ∀ d ∈ b.reverse, decide (d ≠ c) = true := by
    intro d hd
    refine decide_eq_true ?_
    rintro rfl
    exact hb (List.mem_reverse.1 hd)
  rw [rsplit, List.takeWhile_eq_self_iff.2 hall, List.dropWhile_eq_nil_iff.2 hall]
  simp

theorem splitOn_plain {name : Str} (hproper : Proper folder name) : ∀ seg ∈ name.splitOn '/', seg ≠ [] := by
  rw [List.splitOn_eq_singleton hproper.plain]
  intro seg hseg
  rw [List.mem_singleton.1 hseg]
  exact hproper.nonempty

/-- a path is taken apart into its folder and its name -/
theorem rsplit_normalizedPath (hproper : Proper folder name) :
    rsplit '/' (stripSlashes (normalizedPath folder name)) = (stripSlashes folder, name) := by
  rw [normalizedPath_eq hproper.folder hproper.nonempty hproper.plain, folderText]
  obtain rfl | ⟨s, rfl, hs⟩ := hproper.folder
  · rw [if_pos rfl, List.singleton_append, stripSlashes_cons (splitOn_plain hproper), rsplit_of_not_mem hproper.plain]
    rfl
  · have hne : '/' :: s ≠ ['/'] := by
      rintro hroot
      obtain rfl : s = [] := (List.cons.inj hroot).2
      exact hs [] (by simp) rfl
    have hsegs : ∀ seg ∈ (s ++ '/' :: name).splitOn '/', seg ≠ [] := by
      rw [List.splitOn_append_cons_self]
      intro seg hseg
      obtain hseg | hseg := List.mem_append.1 hseg
      · exact hs seg hseg
      · exact splitOn_plain hproper seg hseg
    have hpath : '/' :: s ++ ['/'] ++ name = '/' :: (s ++ '/' :: name) := by simp
    rw [if_neg hne, hpath, stripSlashes_cons hsegs, rsplit_append hproper.plain, stripSlashes_cons hs]

theorem folderParts_stripSlashes (hfolder : IsFolder folder) : folderParts (stripSlashes folder) = folderParts folder := by
  have htwice : stripSlashes (stripSlashes folder) = stripSlashes folder := by
    obtain rfl | ⟨s, rfl, hs⟩ := hfolder
    · rfl
    · rw [stripSlashes_cons hs]
      exact stripSlashes_cons hs
  rw [folderParts, htwice, folderParts]

/-- what a path finds goes by that path -/
theorem getFile_named (hproper : Proper folder name) {saved : SavedFile}
    (h : getFile folders a (normalizedPath folder name) = some saved) :
    ∃ f, f.id = saved.id ∧ (f ∈ a.view .getByPath ∧ f.appPath = some (normalizedPath folder name) ∨
      f ∈ a.view .getByName ∧ f.name = name ∧ f.parent = folders (folderParts folder)) := by
  have hslash : Text.startsWith "/".toList (normalizedPath folder name) = true := rfl
  have hne : normalizedPath folder name ≠ [] := List.cons_ne_nil _ _
  rw [getFile] at h
  simp only [if_pos hslash, findByAppPath, if_neg hne, rsplit_normalizedPath hproper] at h
  cases hpath : (a.view .getByPath).find? fun f => f.appPath = some (normalizedPath folder name) with
  | some f =>
    rw [hpath] at h
    obtain rfl := Option.some.inj h
    have hf := List.find?_some hpath
    exact ⟨f, rfl, .inl ⟨List.mem_of_find?_eq_some hpath, of_decide_eq_true hf⟩⟩
  | none =>
    rw [hpath] at h
    simp only [resolveExistingPath, folderParts_stripSlashes hproper.folder] at h
    split_ifs at h with hwalks
    · obtain ⟨f, hfind, rfl⟩ := Option.map_eq_some_iff.1 h
      have hf := List.find?_some hfind
      exact ⟨f, rfl, .inr ⟨List.mem_of_find?_eq_some hfind, of_decide_eq_true hf⟩⟩

end

/-! ## Turns -/

/-- what is assumed of a call: the index shows what the turn has not written, the folder that is asked for fits on one page,
and the name that a move asks for has no slash -/
structure Fits (tables : Tables) (s : State) (o : Answers × Call) : Prop where
  views : ∀ request, IsView s.drive (o.1.view request)
  page : ∀ folder, o.2.folder tables = .ok folder →
    ((o.1.view .listFolder).filter fun f => f.parent = s.folders (folderParts folder)).length ≤ 200
  plain : o.2.PlainName

variable {s : State} {files new : List DriveFile} {a : Answers} {c : Call} {folder : Str} {f : DriveFile}

theorem Call.folder_isFolder {tables : Tables} {c : Call} {folder : Str} (h : c.folder tables = .ok folder) : IsFolder folder := by
  cases c <;> exact normalizeFolderPath_isFolder h

theorem Wrote.proper (hwrote : Wrote tables s a c folder f) (hplain : c.PlainName) : Proper folder f.name :=
  ⟨Call.folder_isFolder hwrote.asked, hwrote.nonempty, hwrote.plain hplain⟩

theorem kept_step (hkept : Kept files new s) (hfolders : Distinct s.folders) {o : Answers × Call} (hfits : Fits tables s o) :
    (turnStep tables s o).folders = s.folders ∧ ∃ more, Kept files (new ++ more) (turnStep tables s o) := by
  obtain hidle | ⟨folder, f, hwrote⟩ := @call_outcome tables s o.1 o.2
  · exact ⟨hidle.folders, [], by rw [List.append_nil]; exact kept_idle hkept hidle⟩
  · exact ⟨hwrote.folders, [f], kept_wrote hkept hfolders hwrote (hwrote.proper hfits.plain)⟩

theorem kept_run (hkept : Kept files new s) (hfolders : Distinct s.folders) {ops : List (Answers × Call)}
    (hfits : Meets (turnStep tables) (Fits tables) s ops) :
    (run (turnStep tables) s ops).folders = s.folders ∧ ∃ more, Kept files (new ++ more) (run (turnStep tables) s ops) := by
  let I (s' : State) : Prop := s'.folders = s.folders ∧ ∃ more, Kept files (new ++ more) s'
  have hstep : ∀ s' o, I s' → Fits tables s' o → I (turnStep tables s' o) := by
    rintro s' o ⟨hsame, more, hmore⟩ ho
    obtain ⟨hfolders', last, hlast⟩ := kept_step hmore (hsame ▸ hfolders) ho
    exact ⟨hfolders'.trans hsame, more ++ last, by rw [← List.append_assoc]; exact hlast⟩
  exact run_inv hstep hfits ⟨rfl, [], by rw [List.append_nil]; exact hkept⟩

/-- a lookup found the file, or one that the turn had moved away from its path before, or a folder that the turn made there -/
def Finds (files : List DriveFile) (s : State) (folder : Str) (f : DriveFile) (saved : SavedFile) : Prop :=
  saved.id = f.id ∨ (∃ g ∈ files, g.id = saved.id ∧ g.id ∈ s.drive.written ∧ Named s.folders folder f.name g) ∨
    ∃ g : DriveFile, g.id = saved.id ∧ g.folder = true ∧ g.appPath = none

/-- what a lookup of the path of a file finds after it was written -/
theorem lookup_wrote (hkept : Kept files new s) (hfolders : Distinct s.folders) (hwrote : Wrote tables s a c folder f)
    (hproper : Proper folder f.name) (halone : ∀ g ∈ s.drive.files, ¬ Named s.folders folder f.name g)
    {ops : List (Answers × Call)} (hfits : Meets (turnStep tables) (Fits tables) (call tables s a c).2 ops) {later : Answers}
    (hviews : ∀ request, IsView (run (turnStep tables) (call tables s a c).2 ops).drive (later.view request)) {saved : SavedFile}
    (hfound : getFile s.folders later (normalizedPath folder f.name) = some saved) : Finds files s folder f saved := by
  have hsaved := kept_wrote hkept hfolders hwrote hproper
  obtain ⟨hsame, more, hlater⟩ := kept_run hsaved (hwrote.folders ▸ hfolders) hfits
  have hfolders' := hsame.trans hwrote.folders
  have hf : Named s.folders folder f.name f := .inl hwrote.path
  obtain ⟨g, hid, hg⟩ := getFile_named hproper hfound
  have hnamed : Named s.folders folder f.name g := hg.imp And.right And.right
  have hshown : g ∈ (run (turnStep tables) (call tables s a c).2 ops).drive.versions ∨ g.folder = true ∧ g.appPath = none := by
    obtain ⟨hmem, -⟩ | ⟨hmem, -⟩ := hg
    · exact (hviews .getByPath).shown g hmem
    · exact (hviews .getByName).shown g hmem
  obtain hversion | hfolder := hshown
  · rw [hlater.versions] at hversion
    obtain hfile | hnew := List.mem_append.1 hversion
    · -- it was there when the turn began, and was moved away before
      obtain hwritten | hcurrent := hkept.stays g hfile
      · exact .inr (.inl ⟨g, hfile, hid, hwritten, hnamed⟩)
      · exact absurd hnamed (halone g hcurrent)
    · have hmem : f ∈ new ++ [f] ++ more := List.mem_append_left _ (List.mem_append_right _ (List.mem_singleton_self _))
      exact .inl (hid.symm.trans (hlater.one g hnew f hmem folder f.name hproper (hfolders' ▸ hnamed) (hfolders' ▸ hf)))
  · exact .inr (.inr ⟨g, hid, hfolder⟩)

/-- **What a save should be**: in the folder that was asked for, at a path that no file went by, and found by that path -/
structure Unshadowed (tables : Tables) (files : List DriveFile) (s : State) (a : Answers) (c : Call) (folder : Str)
    (f : DriveFile) : Prop where
  wrote : Wrote tables s a c folder f
  alone : ∀ g ∈ s.drive.files, ¬ Named s.folders folder f.name g
  others : ∀ g ∈ s.drive.files, g.id ≠ f.id → g ∈ (call tables s a c).2.drive.files
  found : ∀ ops later saved, Meets (turnStep tables) (Fits tables) (call tables s a c).2 ops →
    (∀ request, IsView (run (turnStep tables) (call tables s a c).2 ops).drive (later.view request)) →
    getFile s.folders later (normalizedPath folder f.name) = some saved → Finds files s folder f saved

/-- **Saving.** In a turn that begins with every file where its path says, and whose folders fit on a page, each call writes
nothing, or a file that shadows no other. -/
theorem saved_alone (tables : Tables) (store : Store) (media : List (Str × Bytes)) (files : List DriveFile)
    (folders : List Str → ℕ) (copied : List Str) (hfolders : Distinct folders) (hplaced : Placed folders files)
    (ops : List (Answers × Call))
    (hfits : Meets (turnStep tables) (Fits tables) (State.begin store media files folders copied) ops) (a : Answers) (c : Call)
    (hcall : Fits tables (run (turnStep tables) (State.begin store media files folders copied) ops) (a, c)) :
    Idle tables (run (turnStep tables) (State.begin store media files folders copied) ops) a c ∨
      ∃ folder f, Unshadowed tables files (run (turnStep tables) (State.begin store media files folders copied) ops) a c folder f := by
  obtain ⟨hsame, new, hkept⟩ := kept_run (kept_start store media files folders copied) hfolders hfits
  generalize run (turnStep tables) (State.begin store media files folders copied) ops = s at *
  have hsame : s.folders = folders := hsame
  subst hsame
  refine (call_outcome s a c).imp id ?_
  rintro ⟨folder, f, hwrote⟩
  have hproper := hwrote.proper hcall.plain
  have halone := alone_of_free hkept hfolders hplaced (hcall.views .listFolder) (hcall.page folder hwrote.asked) hproper hwrote.free
  refine ⟨folder, f, hwrote, halone, fun g hg hne => ?_, fun ops later saved hops hviews hfound =>
    lookup_wrote hkept hfolders hwrote hproper halone hops hviews hfound⟩
  rw [hwrote.drive]
  exact List.mem_append_left _ (List.mem_filter.2 ⟨hg, decide_eq_true hne⟩)

/-! ## A folder with one note -/

/-- folders by a number of their way -/
def folderNumber (parts : List Str) : ℕ := Encodable.encode (parts.map (List.map Char.toNat))

theorem folderNumber_distinct : Distinct folderNumber := by
  have hchar : Function.Injective Char.toNat := fun c d h => Char.toNat_inj.1 h
  exact Encodable.encode_injective.comp (List.map_injective_iff.2 (List.map_injective_iff.2 hchar))

/-- a note in the inbox, under its name -/
def note (name : Str) : DriveFile where
  id := 1
  name := name
  parent := folderNumber (folderParts "/Inbox".toList)
  appPath := some (normalizedPath "/Inbox".toList "a.txt".toList)
  webViewLink := []
  folder := false

/-- an index that shows these files to every request -/
def showing (view : List DriveFile) : Answers where
  view := fun _ => view
  walks := fun _ => true
  search := fun _ => []
  link := []

def turnFrom (files : List DriveFile) : State := State.begin Store.empty [] files folderNumber []

/-- a second note under the first one's name -/
def secondNote : Call := .write none "a.txt".toList "text".toList

theorem saved_alone_note : Idle asciiTables (turnFrom [note "a.txt".toList]) (showing [note "a.txt".toList]) secondNote ∨
    ∃ folder f, Unshadowed asciiTables [note "a.txt".toList] (turnFrom [note "a.txt".toList]) (showing [note "a.txt".toList]) secondNote
      folder f := by
  have hplaced : Placed folderNumber [note "a.txt".toList] := by
    intro f hf folder name hproper hpath
    obtain rfl := List.mem_singleton.1 hf
    obtain ⟨rfl, rfl⟩ := normalizedPath_inj isFolder_inbox hproper.folder (by decide) hproper.nonempty (by decide) hproper.plain
      (Option.some.inj hpath)
    exact ⟨rfl, rfl⟩
  have hview : IsView (turnFrom [note "a.txt".toList]).drive [note "a.txt".toList] := ⟨fun f hf => .inl hf, fun f hf _ => hf⟩
  have hfits : Fits asciiTables (turnFrom [note "a.txt".toList]) (showing [note "a.txt".toList], secondNote) := by
    refine ⟨fun _ => hview, fun folder _ => ?_, trivial⟩
    exact (List.length_filter_le _ _).trans (by decide)
  exact saved_alone asciiTables Store.empty [] [note "a.txt".toList] folderNumber [] folderNumber_distinct hplaced [] trivial _ _ hfits

/-- a note that was renamed by hand keeps its path: a second one is given the same, and the path finds the first; and where
the index lags the path of a new note finds nothing -/
theorem path_shared :
    (let s := turnFrom [note "b.txt".toList]
     let shown := showing [note "b.txt".toList]
     IsView s.drive [note "b.txt".toList] ∧
      (call asciiTables s shown secondNote).1.receipt.map ToolReceipt.target = some "/Inbox/a.txt".toList ∧
      (note "b.txt".toList).appPath = some "/Inbox/a.txt".toList ∧
      (getFile folderNumber (showing (call asciiTables s shown secondNote).2.drive.files) "/Inbox/a.txt".toList).map
        SavedFile.id = some 1) ∧
    (let s := turnFrom []
     (call asciiTables s (showing []) secondNote).1.receipt.map ToolReceipt.target = some "/Inbox/a.txt".toList ∧
      IsView (call asciiTables s (showing []) secondNote).2.drive [] ∧
      getFile folderNumber (showing []) "/Inbox/a.txt".toList = none) := by
  have hwritten : ∀ f ∈ (call asciiTables (turnFrom []) (showing []) secondNote).2.drive.files,
      f.id ∈ (call asciiTables (turnFrom []) (showing []) secondNote).2.drive.written := by decide +kernel
  refine ⟨⟨⟨fun f hf => .inl hf, fun f hf _ => hf⟩, by decide +kernel, by decide +kernel, by decide +kernel⟩,
    by decide +kernel, ⟨fun f hf => absurd hf List.not_mem_nil, fun f hf hnot => absurd (hwritten f hf) hnot⟩,
    by decide +kernel⟩

end Clawbolt.Files

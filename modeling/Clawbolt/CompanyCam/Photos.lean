/-
Photos that are sent to CompanyCam (integrations/companycam/photos.py), over the turns of one user, with the filings to the
Drive in between. The calls run one after another, and the database answers.

`posts` are the requests that were made, and `done` the projects and urls for which a call reported no error. What a saved file
has for bytes is free, and so are the answers of CompanyCam.

- `photo_in_project`: a success means that the photo is in the requested project, and a repeated call posts nothing, in exactly
  the runs in which the receipt of a photo is asked for the project it is of, and stands until then;
- `other_project`: there is one receipt for all projects, and for the Drive as well.
-/
import Mathlib.Tactic
import Clawbolt.Core.Runs
import Clawbolt.Files.OneCopy

namespace Clawbolt.CompanyCam

open Text (Str strip startsWith)
open Media (Bytes Store StagedMedia UploadRecord)
open Runs

/-! ## The tool's input and output -/

inductive ErrorKind where
  | validation
  | notFound
  | auth
  | permission
  | service
deriving DecidableEq

structure ToolReceipt where
  action : Str
  target : Str
  url : Option Str
deriving DecidableEq

structure ToolResult where
  content : Str
  errorKind : Option ErrorKind
  receipt : Option ToolReceipt
deriving DecidableEq

def ToolResult.error (content : Str) (kind : ErrorKind) : ToolResult := ⟨content, some kind, none⟩

/-- what CompanyCam says of a photo; a `processing_status` that is missing is the empty text -/
structure Photo where
  id : Str
  processingStatus : Str
  description : Str
deriving DecidableEq

structure DownloadedMedia where
  originalUrl : Str
  content : Bytes
  mimeType : Str

/-- the saved file that a reference names -/
inductive Saved where
  | none
  | file (content : Bytes) (mimeType : Str)
  | reconnectRequired

/-- the answer to the POST -/
inductive Answer where
  | photo (p : Photo)
  | failed (message : Str) (kind : ErrorKind)

/-- the readings of the clock during one call, and the order of rows that were created together -/
structure Times where
  receipt : ℤ
  resolve : ℤ
  all : ℤ
  mark : ℤ
  tie : Str → ℕ

structure Call where
  projectId : Str
  originalUrl : Str
  description : Str
  tags : List Str
  times : Times
  saved : Saved
  answer : Answer
  /-- the answers to the GETs, none for one that raises -/
  polls : List (Option Photo)

/-- a request to CompanyCam -/
structure Post where
  projectId : Str
  content : Bytes
  mimeType : Str
  tags : List Str
  description : Str
  accepted : Bool

structure State where
  files : Files.State
  /-- `downloaded_media` of the turn -/
  downloaded : List DownloadedMedia
  posts : List Post
  done : List (Str × Str)

structure Env where
  tables : Files.Tables
  user : Str
  /-- `companycam_web_base` without its slash -/
  webBase : Str
  /-- `\d` -/
  isDigit : Char → Bool

variable (env : Env)

def State.start : State := ⟨Files.State.start, [], [], []⟩

/-! ## Receipts -/

/-- `_sanitize`: control characters and runs of spaces are one space -/
def sanitize (text : Str) (maxChars : ℕ) : Str :=
  let flat := Text.join [' '] (Text.split (text.map fun c => if c.toNat < 32 ∨ c.toNat = 127 then ' ' else c))
  if flat.length ≤ maxChars then flat else Text.rstrip (flat.take (maxChars - 1)) ++ ['…']

def isStructured (t : Str) : Bool := startsWith ['\x7b'] t || startsWith ['['] t

/-- a line end may follow the digits -/
def photoUrl (photoId : Str) : Option Str :=
  let digits := if Text.endsWith ['\n'] photoId then photoId.dropLast else photoId
  if digits ≠ [] ∧ digits.all env.isDigit then some (env.webBase ++ "/photos/".toList ++ photoId) else none

def photoTarget (p : Photo) : Str :=
  let stripped := strip p.description
  let desc := sanitize stripped 60
  if isStructured stripped ∨ desc = [] then "photo".toList else desc

/-! ## An upload -/

def sanitizeTags (tags : List Str) : List Str :=
  ((tags.take 10).filter fun t => strip t ≠ []).map fun t => (strip t).take 50

def sanitizeDescription (description : Str) : Str := if isStructured (strip description) then [] else strip description

inductive Found where
  | photo (originalUrl : Str) (content : Bytes) (mimeType : Str)
  | nothing
  | reconnectRequired

def orJpeg (mimeType : Str) : Str := if mimeType = [] then "image/jpeg".toList else mimeType

/-- the bytes of a url that is not staged under it: of an attachment, of what is staged, or of a saved file -/
def findElsewhere (s : Store) (downloaded : List DownloadedMedia) (url mimeType : Str) (now : ℤ) (saved : Saved) : Store × Found :=
  let attached := downloaded.find? fun m => m.originalUrl = url
  let content := (attached.map DownloadedMedia.content).getD []
  let mimeType := (attached.map fun m => orJpeg m.mimeType).getD mimeType
  if content ≠ [] then (s, .photo url content mimeType)
  else
    let (s, all) := Media.getAllForUser s now
    let content := (all.lookup url).getD []
    if content ≠ [] then (s, .photo url content mimeType)
    else
      match saved with
      | .none => (s, .nothing)
      | .file content mimeType => (s, if content = [] then .nothing else .photo url content (orJpeg mimeType))
      | .reconnectRequired => (s, .reconnectRequired)

/-- the photo that a reference denotes -/
def findPhoto (s : Store) (downloaded : List DownloadedMedia) (ref : Str) (t : Times) (saved : Saved) : Store × Found :=
  match Media.resolveMediaRef s ref t.resolve with
  | (s, some (url, content, mimeType)) =>
    if content ≠ [] then (s, .photo url content mimeType) else findElsewhere s downloaded url mimeType t.all saved
  | (s, none) => findElsewhere s downloaded ref "image/jpeg".toList t.all saved

/-- the photo and its status after at most `n` GETs -/
def poll : ℕ → Photo → Str → List (Option Photo) → Photo × Str
  | n + 1, _, _, some p :: polls =>
    let status := if p.processingStatus = [] then "unknown".toList else p.processingStatus
    if status ≠ "pending".toList then (p, status) else poll n p status polls
  | _, p, status, _ => (p, status)

/-- what became of a photo that was accepted -/
def settlePhoto (p : Photo) (polls : List (Option Photo)) : Photo × Str :=
  let status := if p.processingStatus = [] then "pending".toList else p.processingStatus
  if status = "pending".toList then poll 3 p status polls else (p, status)

/-- the result of an upload -/
def uploadResult (projectId : Str) (p : Photo) (status : Str) : ToolResult :=
  if status = "processing_error".toList then
    .error ("CompanyCam accepted the upload but failed to process the photo (ID: ".toList ++ p.id ++
      "). This usually means CompanyCam could not download the image from the temporary URL. ".toList ++
      "Check that the server is publicly accessible.".toList) .service
  else if status = "duplicate".toList then
    ⟨"ok | duplicate | photo Id: ".toList ++ p.id, none,
      some ⟨"Photo already in CompanyCam".toList, photoTarget p, photoUrl env p.id⟩⟩
  else
    let note := if status = "pending".toList then " (still processing, may take a moment to appear)".toList else []
    ⟨"ok | photo Id: ".toList ++ p.id ++ " | project: ".toList ++ projectId ++ note, none,
      some ⟨"Uploaded photo to CompanyCam".toList, photoTarget p, photoUrl env p.id⟩⟩

def receiptOf (p : Photo) (status : Str) : UploadRecord where
  service := "companycam".toList
  externalId := p.id
  url := (photoUrl env p.id).getD []
  target := photoTarget p
  status := status

def State.withStore (s : State) (store : Store) : State := { s with files := { s.files with store := store } }

def State.posted (s : State) (c : Call) (content : Bytes) (mimeType : Str) (accepted : Bool) : State :=
  { s with posts := s.posts ++ [⟨c.projectId, content, mimeType, sanitizeTags c.tags, sanitizeDescription c.description, accepted⟩] }

/-- the photo goes to CompanyCam, and its receipt to the row -/
def sendPhoto (s : State) (c : Call) (url : Str) (content : Bytes) (mimeType : Str) : ToolResult × State :=
  match c.answer with
  | .failed message kind => (.error ("CompanyCam upload error: ".toList ++ message) kind, s.posted c content mimeType false)
  | .photo p =>
    let (p, status) := settlePhoto p c.polls
    let s := s.posted c content mimeType true
    let marked := Media.markUploaded s.files.store url (receiptOf env p status) c.times.mark c.times.tie
    (uploadResult env c.projectId p status, if url ≠ [] ∧ status ≠ "processing_error".toList then s.withStore marked else s)

def alreadyUploaded (ref : Str) (prior : UploadRecord) : ToolResult where
  content := "Photo ".toList ++ ref ++ " was already uploaded to CompanyCam (status=".toList ++ prior.status ++ ", ID ".toList ++
    prior.externalId ++ "). Not re-uploading.".toList
  errorKind := none
  receipt := some ⟨"Photo already in CompanyCam".toList, prior.target, some prior.url⟩

/-- the receipt of CompanyCam in the slot of the row that a call names -/
def priorReceipt (s : Store) (c : Call) : Option UploadRecord :=
  (Files.getUploaded s c.originalUrl c.times.receipt c.times.tie).filter fun prior => prior.service = "companycam".toList

def missingReference : ToolResult :=
  .error ("original_url is required. Pass the handle shown in the conversation context (e.g. ``handle=media_XXXXXX``) so ".toList ++
    "the right photo is uploaded; do not call this tool with a blank handle.".toList) .validation

def noPhoto : ToolResult :=
  .error "No photo available to upload. Send a photo in the conversation, or save one to storage first.".toList .notFound

/-- `drive_reconnect_result` -/
def driveReconnectResult : ToolResult :=
  .error "Google Drive disconnected. Please reconnect Google Drive in Settings.".toList .auth

/-- `companycam_upload_photo` -/
def companycamUploadPhoto (s : State) (c : Call) : ToolResult × State :=
  if c.originalUrl = [] then (missingReference, s)
  else
    match priorReceipt s.files.store c with
    | some prior => (alreadyUploaded c.originalUrl prior, s)
    | none =>
      match findPhoto s.files.store s.downloaded c.originalUrl c.times c.saved with
      | (store, .photo url content mimeType) => sendPhoto env (s.withStore store) c url content mimeType
      | (store, .nothing) => (noPhoto, s.withStore store)
      | (store, .reconnectRequired) => (driveReconnectResult, s.withStore store)

/-! ## Runs -/

inductive Event where
  /-- media are staged, looked up, marked by another service, evicted -/
  | staging (op : Media.Op)
  /-- a turn begins, with its attachments -/
  | turn (media : List (Str × Bytes)) (drive : Files.Drive) (folders : List Str → ℕ) (downloaded : List DownloadedMedia)
  /-- a tool that writes to the Drive, `upload_to_storage` among them -/
  | file (a : Files.Answers) (c : Files.Call)
  | photo (c : Call)

/-- the row is that of the reference -/
def Names (r : StagedMedia) (ref : Str) : Prop := r.originalUrl = ref ∨ r.handle = ref

instance (r : StagedMedia) (ref : Str) : Decidable (Names r ref) := inferInstanceAs (Decidable (_ ∨ _))

/-- a success is noted for the rows of the reference -/
def State.note (s : State) (c : Call) (before : Store) (r : ToolResult) : State :=
  if r.errorKind = none then
    { s with done := s.done ++ (before.rows.filter fun r => Names r c.originalUrl).map fun r => (c.projectId, r.originalUrl) }
  else s

def step (s : State) : Event → State
  | .staging op => s.withStore (Media.step env.user s.files.store op)
  | .turn media drive folders downloaded =>
    { s with files := Files.step env.tables env.user s.files (.turn media drive folders), downloaded := downloaded }
  | .file a c => { s with files := Files.step env.tables env.user s.files (.call a c) }
  | .photo c => (companycamUploadPhoto env s c).2.note c s.files.store (companycamUploadPhoto env s c).1

/-! ## The property and the condition -/

/-- the bytes that the reference of a call denotes -/
def denoted (s : State) (c : Call) : Option Bytes :=
  match (findPhoto s.files.store s.downloaded c.originalUrl c.times c.saved).2 with
  | .photo _ content _ => some content
  | _ => none

/-- CompanyCam has been sent the bytes for the project -/
def Posted (s : State) (projectId : Str) (content : Bytes) : Prop :=
  ∃ p ∈ s.posts, p.projectId = projectId ∧ p.content = content ∧ p.accepted = true

/-- the photo is staged, within its lifetime, and an earlier call for the same project was a success -/
def Repeats (s : State) (c : Call) : Prop :=
  ∃ r ∈ s.files.store.rows, Names r c.originalUrl ∧ c.times.resolve < r.expiresAt ∧ (c.projectId, r.originalUrl) ∈ s.done

instance (s : State) (c : Call) : Decidable (Repeats s c) := inferInstanceAs (Decidable (∃ r ∈ s.files.store.rows, _))

/-- a success means that the photo is in the requested project, and a repeated call posts nothing -/
def Good (s : State) : Event → Prop
  | .photo c =>
    ((companycamUploadPhoto env s c).1.errorKind = none → ∀ content, denoted s c = some content →
      Posted (companycamUploadPhoto env s c).2 c.projectId content) ∧
    (c.originalUrl ≠ [] → Repeats s c → (companycamUploadPhoto env s c).2.posts = s.posts)
  | _ => True

/-- a receipt of CompanyCam is asked for a project that it was posted to, and stands when its call is repeated -/
def OfProject (s : State) : Event → Prop
  | .photo c => c.originalUrl ≠ [] →
    ((priorReceipt s.files.store c).isSome = true → ∀ content, denoted s c = some content → Posted s c.projectId content) ∧
    (Repeats s c → (priorReceipt s.files.store c).isSome = true)
  | _ => True

/-! ## What a call finds -/

variable {env}

/-- every row has a file, and no file is empty -/
structure Filled (user : Str) (s : Store) : Prop where
  inv : Media.Inv user s
  full : ∀ path, s.disk path ≠ some []

theorem resolveMediaRef_row {user : Str} {s : Store} (h : Filled user s) {ref : Str} {now : ℤ} {r : StagedMedia} (hr : r ∈ s.rows)
    (hnames : Names r ref) (halive : now < r.expiresAt) : ∃ url content mimeType, content ≠ [] ∧
      Media.resolveMediaRef s ref now = (s, some (url, content, mimeType)) := by
  have hfile : ∀ r' ∈ s.rows, ∃ content, content ≠ [] ∧ s.disk r'.diskPath = some content := by
    intro r' hr'
    obtain ⟨content, hcontent⟩ := Option.isSome_iff_exists.1 (h.inv.files r' hr')
    refine ⟨content, ?_, hcontent⟩
    rintro rfl
    exact h.full _ hcontent
  unfold Media.resolveMediaRef
  cases hhandle : s.rows.find? fun r => r.handle = ref ∧ now < r.expiresAt with
  | some r' =>
    obtain ⟨content, hne, hcontent⟩ := hfile r' (List.mem_of_find?_eq_some hhandle)
    simp only [Media.getByHandle, hhandle, hcontent]
    exact ⟨_, _, _, hne, rfl⟩
  | none =>
    have hurl : r.originalUrl = ref := by
      refine hnames.resolve_right fun hh => ?_
      exact absurd (List.find?_eq_none.1 hhandle r hr) (by simp [hh, halive])
    cases hfind : s.rows.find? fun r => r.originalUrl = ref ∧ now < r.expiresAt with
    | none => exact absurd (List.find?_eq_none.1 hfind r hr) (by simp [hurl, halive])
    | some r' =>
      obtain ⟨content, hne, hcontent⟩ := hfile r' (List.mem_of_find?_eq_some hfind)
      simp only [Media.getByHandle, hhandle, hfind, hcontent]
      exact ⟨_, _, _, hne, rfl⟩

/-- the bytes of a staged photo are found -/
theorem findPhoto_row {user : Str} {s : Store} (h : Filled user s) {c : Call} (downloaded : List DownloadedMedia) {r : StagedMedia}
    (hr : r ∈ s.rows) (hnames : Names r c.originalUrl) (halive : c.times.resolve < r.expiresAt) : ∃ url content mimeType,
      findPhoto s downloaded c.originalUrl c.times c.saved = (s, .photo url content mimeType) := by
  obtain ⟨url, content, mimeType, hne, hresolve⟩ := resolveMediaRef_row h hr hnames halive
  refine ⟨url, content, mimeType, ?_⟩
  simp only [findPhoto, hresolve]
  exact if_pos hne

/-! ## What a call does to the staged media -/

/-- staging operations lead from one store to the other -/
def Leads (user : Str) (s s' : Store) : Prop := ∃ ops, run (Media.step user) s ops = s'

section
variable {user : Str} {s s' s'' : Store}

theorem Leads.refl (user : Str) (s : Store) : Leads user s s := ⟨[], rfl⟩

theorem Leads.trans (h : Leads user s s') (h' : Leads user s' s'') : Leads user s s'' := by
  obtain ⟨ops, rfl⟩ := h
  obtain ⟨ops', rfl⟩ := h'
  exact ⟨ops ++ ops', run_append _ _ _ _⟩

theorem leads_step (user : Str) (s : Store) (o : Media.Op) : Leads user s (Media.step user s o) := ⟨[o], rfl⟩

theorem leads_resolve (user : Str) (s : Store) (ref : Str) (now : ℤ) : Leads user s (Media.resolveMediaRef s ref now).1 :=
  leads_step user s (.resolve ref now)

theorem leads_mark (user : Str) (s : Store) (ref : Str) (record : UploadRecord) (now : ℤ) (tie : Str → ℕ) :
    Leads user s (Media.markUploaded s ref record now tie) :=
  leads_step user s (.mark ref record now tie)

theorem leads_resolveRef (user : Str) (s : Store) (media : List (Str × Bytes)) (ref mimeType : Str) (now : ℤ) :
    Leads user s (Files.resolveRef s media ref mimeType now).store := by
  have hresolve := leads_resolve user s ref now
  unfold Files.resolveRef
  split_ifs
  · split
    · next heq => rwa [heq] at hresolve
    · next heq => rwa [heq] at hresolve
  · exact Leads.refl user s

theorem leads_chooseBytes (user : Str) (r : Files.Resolved) (t : Files.Times) : Leads user r.store (Files.chooseBytes r t).store := by
  unfold Files.chooseBytes
  split
  · exact Leads.refl user _
  · split
    · exact Leads.refl user _
    · split_ifs
      · split
        · exact Leads.refl user _
        · next first _ _ =>
          have hresolve := leads_resolve user r.store first t.fallback
          split
          · next heq => rwa [heq] at hresolve
          · next heq => rwa [heq] at hresolve
      · exact Leads.refl user _

theorem leads_saveChosen (tables : Files.Tables) (user : Str) (s : Files.State) (a : Files.Answers) (t : Files.Times)
    (folder description : Str) (c : Files.Chosen) :
    Leads user c.store (Files.saveChosen tables s a t folder description c).2.store := by
  by_cases hcontent : c.content = []
  · rw [Files.saveChosen_nothing a t folder description hcontent]
    exact Leads.refl user _
  · by_cases href : c.ref = []
    · simp only [Files.saveChosen, if_neg hcontent, if_pos href]
      exact Leads.refl user _
    · obtain ⟨record, -, hstore, -⟩ := @Files.saveChosen_item tables s a t folder description c hcontent href
      rw [hstore]
      exact leads_mark user _ _ _ _ _

theorem leads_call (tables : Files.Tables) (user : Str) (s : Files.State) (a : Files.Answers) (c : Files.Call) :
    Leads user s.store (Files.call tables s a c).2.store := by
  cases c with
  | upload t folderPath description originalUrl mimeType =>
    simp only [Files.call, Files.uploadToStorage]
    split
    · exact Leads.refl user _
    · have hresolve := leads_resolveRef user s.store s.media (originalUrl.getD []) mimeType t.resolve
      generalize Files.resolveRef s.store s.media (originalUrl.getD []) mimeType t.resolve = r at hresolve
      have hchosen := hresolve.trans (leads_chooseBytes user r t)
      rw [Files.uploadResolved]
      split
      · next prior _ =>
        by_cases hservice : prior.service = "storage".toList
        · rw [if_pos hservice]
          exact hresolve
        · rw [if_neg hservice]
          exact hchosen.trans (leads_saveChosen tables user _ a t _ description _)
      · exact hchosen.trans (leads_saveChosen tables user _ a t _ description _)
  | write folderPath filename content =>
    simp only [Files.call, (Files.writeToStorage_store s a folderPath filename content).1]
    exact Leads.refl user _
  | move fromPath toFolderPath newFilename =>
    simp only [Files.call, (Files.moveFile_store s a fromPath toFolderPath newFilename).1]
    exact Leads.refl user _

theorem leads_findElsewhere (user : Str) (s : Store) (downloaded : List DownloadedMedia) (url mimeType : Str) (now : ℤ) (saved : Saved) :
    Leads user s (findElsewhere s downloaded url mimeType now saved).1 := by
  have hall : Leads user s (Media.getAllForUser s now).1 := leads_step user s (.getAll now)
  simp only [findElsewhere]
  split_ifs
  · exact Leads.refl user s
  · exact hall
  · split <;> exact hall

theorem leads_findPhoto (user : Str) (s : Store) (downloaded : List DownloadedMedia) (ref : Str) (t : Times) (saved : Saved) :
    Leads user s (findPhoto s downloaded ref t saved).1 := by
  have hresolve := leads_resolve user s ref t.resolve
  unfold findPhoto
  split
  · next heq =>
    rw [heq] at hresolve
    split_ifs
    · exact hresolve
    · exact hresolve.trans (leads_findElsewhere user _ downloaded _ _ _ saved)
  · next heq =>
    rw [heq] at hresolve
    exact hresolve.trans (leads_findElsewhere user _ downloaded _ _ _ saved)

/-! ## Files are not empty -/

theorem unlink_ne {disk : Str → Option Bytes} (h : ∀ path, disk path ≠ some []) (paths : List Str) (path : Str) :
    Media.unlink disk paths path ≠ some [] := by
  rw [Media.unlink]
  split_ifs
  · exact (Option.some_ne_none []).symm
  · exact h path

theorem getByHandle_disk (s : Store) (handle : Str) (now : ℤ) : (Media.getByHandle s handle now).1.disk = s.disk := by
  unfold Media.getByHandle
  split
  · rfl
  · split <;> rfl

theorem resolveMediaRef_disk (s : Store) (ref : Str) (now : ℤ) : (Media.resolveMediaRef s ref now).1.disk = s.disk := by
  have hhandle := getByHandle_disk s ref now
  unfold Media.resolveMediaRef
  split
  · next heq => rwa [heq] at hhandle
  · next heq =>
    rw [heq] at hhandle
    split
    · exact hhandle
    · split <;> exact hhandle

theorem markUploaded_disk (s : Store) (ref : Str) (record : UploadRecord) (now : ℤ) (tie : Str → ℕ) :
    (Media.markUploaded s ref record now tie).disk = s.disk := by
  unfold Media.markUploaded
  split_ifs
  · rfl
  · simp only
    split <;> rfl

theorem full_step (o : Media.Op) (h : ∀ path, s.disk path ≠ some []) (path : Str) : (Media.step user s o).disk path ≠ some [] := by
  cases o with
  | stage url content mime now fresh tie =>
    simp only [Media.step, Media.stage]
    split_ifs with hempty
    · exact h path
    · split
      · exact h path
      · next r _ =>
        refine unlink_ne (fun path => ?_) _ path
        change Function.update s.disk r.diskPath (some content) path ≠ some []
        by_cases hpath : path = r.diskPath
        · rw [hpath, Function.update_self]
          exact fun heq => hempty (.inr (Option.some.inj heq))
        · rw [Function.update_of_ne hpath]
          exact h path
  | getByHandle handle now => exact getByHandle_disk s handle now ▸ h path
  | resolve ref now => exact resolveMediaRef_disk s ref now ▸ h path
  | getAll now => exact h path
  | touch handle now => exact h path
  | mark ref record now tie => exact markUploaded_disk s ref record now tie ▸ h path
  | evict url => exact unlink_ne h _ path
  | evictByHandle handle => exact unlink_ne h _ path
  | purge now => exact unlink_ne h _ path
  | clear => exact unlink_ne h _ path

theorem Filled.step (h : Filled user s) (o : Media.Op) : Filled user (Media.step user s o) :=
  ⟨Media.inv_step s o h.inv, fun path => full_step o h.full path⟩

theorem Filled.leads (h : Filled user s) (hleads : Leads user s s') : Filled user s' := by
  obtain ⟨ops, rfl⟩ := hleads
  exact run_inv_all (fun _ o h => h.step o) s ops h

end

/-! ## Calls -/

theorem sendPhoto_posts (s : State) (c : Call) (url : Str) (content : Bytes) (mimeType : Str) :
    ∃ accepted, (sendPhoto env s c url content mimeType).2.posts = (s.posted c content mimeType accepted).posts ∧
      ((sendPhoto env s c url content mimeType).1.errorKind = none → accepted = true) := by
  unfold sendPhoto
  split
  · exact ⟨false, rfl, fun h => absurd h (Option.some_ne_none _)⟩
  · refine ⟨true, ?_, fun _ => rfl⟩
    simp only
    split_ifs <;> rfl

theorem sendPhoto_leads (env : Env) (s : State) (c : Call) (url : Str) (content : Bytes) (mimeType : Str) :
    Leads env.user s.files.store (sendPhoto env s c url content mimeType).2.files.store := by
  unfold sendPhoto
  split
  · exact Leads.refl env.user _
  · simp only
    split_ifs
    · exact leads_mark env.user _ _ _ _ _
    · exact Leads.refl env.user _

theorem leads_photo (s : State) (c : Call) : Leads env.user s.files.store (companycamUploadPhoto env s c).2.files.store := by
  unfold companycamUploadPhoto
  split_ifs
  · exact Leads.refl env.user _
  · split
    · exact Leads.refl env.user _
    · have hfound := leads_findPhoto env.user s.files.store s.downloaded c.originalUrl c.times c.saved
      split
      · next store url content mimeType heq =>
        rw [heq] at hfound
        have hsent := sendPhoto_leads env (s.withStore store) c url content mimeType
        exact hfound.trans hsent
      · next heq => rwa [heq] at hfound
      · next heq => rwa [heq] at hfound

theorem note_files (s : State) (c : Call) (before : Store) (r : ToolResult) : (s.note c before r).files = s.files := by
  unfold State.note
  split_ifs <;> rfl

theorem filled_step {s : State} (h : Filled env.user s.files.store) (e : Event) : Filled env.user (step env s e).files.store := by
  cases e with
  | staging op => exact h.step op
  | turn media drive folders downloaded => exact h
  | file a c => exact h.leads (leads_call env.tables env.user s.files a c)
  | photo c =>
    rw [step, note_files]
    exact h.leads (leads_photo s c)

/-- a call without a receipt of CompanyCam posts the photo that it finds -/
theorem companycamUploadPhoto_found {s : State} {c : Call} (hurl : c.originalUrl ≠ [])
    (hprior : priorReceipt s.files.store c = none) {content : Bytes} (hfound : denoted s c = some content) :
    ∃ mimeType accepted, (companycamUploadPhoto env s c).2.posts = (s.posted c content mimeType accepted).posts ∧
      ((companycamUploadPhoto env s c).1.errorKind = none → accepted = true) := by
  rw [denoted] at hfound
  rw [companycamUploadPhoto, if_neg hurl, hprior]
  simp only
  split at hfound
  · next url content' mimeType heq =>
    obtain rfl := Option.some.inj hfound
    generalize hpair : findPhoto s.files.store s.downloaded c.originalUrl c.times c.saved = pair at heq ⊢
    obtain ⟨store, found⟩ := pair
    change found = _ at heq
    subst heq
    exact ⟨mimeType, sendPhoto_posts (s.withStore store) c url content' mimeType⟩
  · exact absurd hfound (by simp)

theorem posted_append {s s' : State} {c : Call} {content : Bytes} {mimeType : Str}
    (h : s'.posts = (s.posted c content mimeType true).posts) : Posted s' c.projectId content := by
  rw [Posted, h]
  exact ⟨_, List.mem_append_right _ (List.mem_singleton.2 rfl), rfl, rfl, rfl⟩

/-- one call is good exactly when it meets the condition -/
theorem good_photo {s : State} (h : Filled env.user s.files.store) (c : Call) : Good env s (.photo c) ↔ OfProject s (.photo c) := by
  by_cases hurl : c.originalUrl = []
  · have hgood : Good env s (.photo c) := by
      refine ⟨fun hok => ?_, fun hne => absurd hurl hne⟩
      rw [companycamUploadPhoto, if_pos hurl] at hok
      exact absurd hok (Option.some_ne_none _)
    exact iff_of_true hgood fun hne => absurd hurl hne
  · cases hprior : priorReceipt s.files.store c with
    | some prior =>
      have hcall : companycamUploadPhoto env s c = (alreadyUploaded c.originalUrl prior, s) := by
        rw [companycamUploadPhoto, if_neg hurl, hprior]
      have hsome : (priorReceipt s.files.store c).isSome = true := by rw [hprior]; rfl
      constructor
      · intro hgood _
        refine ⟨fun _ => ?_, fun _ => hsome⟩
        have hposted := hgood.1
        rw [hcall] at hposted
        exact hposted rfl
      · intro hcond
        refine ⟨fun _ => ?_, fun _ _ => by rw [hcall]⟩
        rw [hcall]
        exact (hcond hurl).1 hsome
    | none =>
      have hnone : (priorReceipt s.files.store c).isSome ≠ true := by simp [hprior]
      constructor
      · intro hgood _
        refine ⟨fun hsome => absurd hsome hnone, fun hrepeats => ?_⟩
        -- a photo that is staged is posted again
        have hgone := hgood.2 hurl hrepeats
        obtain ⟨r, hr, hnames, halive, -⟩ := hrepeats
        obtain ⟨url, content, mimeType, hfound⟩ := findPhoto_row h s.downloaded hr hnames halive
        have hdenoted : denoted s c = some content := by rw [denoted, hfound]
        obtain ⟨mimeType, accepted, hposts, -⟩ := @companycamUploadPhoto_found env s c hurl hprior content hdenoted
        exact absurd (congrArg List.length (hgone.symm.trans hposts)) (by simp [State.posted])
      · intro hcond
        refine ⟨fun hok content hdenoted => ?_, fun _ hrepeats => absurd ((hcond hurl).2 hrepeats) hnone⟩
        obtain ⟨mimeType, accepted, hposts, haccepted⟩ := @companycamUploadPhoto_found env s c hurl hprior content hdenoted
        obtain rfl := haccepted hok
        exact posted_append hposts

theorem good_step {s : State} (h : Filled env.user s.files.store) (e : Event) : Good env s e ↔ OfProject s e := by
  cases e with
  | photo c => exact good_photo h c
  | _ => exact Iff.rfl

theorem filled_start (user : Str) : Filled user State.start.files.store := ⟨Media.inv_empty, fun _ => (Option.some_ne_none _).symm⟩

def asciiEnv : Env := ⟨Files.asciiTables, ['u'], "https://app.companycam.com".toList, Char.isDigit⟩

def photoCall (projectId ref : Str) : Call where
  projectId := projectId
  originalUrl := ref
  description := []
  tags := []
  times := ⟨1, 1, 1, 1, fun _ => 0⟩
  saved := .none
  answer := .photo ⟨['7'], "processed".toList, []⟩
  polls := []

def staged : Event := .staging (.stage ['w'] [1] "image/jpeg".toList 0 ['h'] fun _ => 0)

/-- the photo is filed to the Drive -/
def filing : Event := .file Files.answers (.upload ⟨1, 1, 1, 1, 1, 1, fun _ => 0⟩ none ['d'] (some ['h']) [])

end Clawbolt.CompanyCam

/-
Copies of staged media on the Drive, over the turns of one user.

- `once_step`: a step that meets the condition copies no media item twice, and files the receipt under the item;
- `one_copy`: so does every run of such steps;
- `retry_not_recognised`: an upload without a reference, and one with a reference that resolves to nothing.
-/
import Mathlib.Tactic
import Clawbolt.Core.Runs
import Clawbolt.Files.Tools

namespace Clawbolt.Files

open Text (Str)
open Media (Bytes Store StagedMedia UploadRecord Inv)
open Runs

/-! ## Runs -/

inductive Event where
  /-- media are staged, looked up, marked by another service, evicted -/
  | staging (op : Media.Op)
  /-- a turn begins, with its attachments -/
  | turn (media : List (Str × Bytes)) (drive : Drive) (folders : List Str → ℕ)
  | call (a : Answers) (c : Call)

def step (tables : Tables) (user : Str) (s : State) : Event → State
  | .staging op => { s with store := Media.step user s.store op }
  | .turn media drive folders => { s with media := media, recent := fun _ => [], drive := drive, folders := folders }
  | .call a c => (call tables s a c).2

def State.start : State where
  store := Store.empty
  media := []
  recent := fun _ => []
  drive := Drive.start []
  folders := fun _ => 0
  copied := []

/-! ## Property and condition -/

/-- a receipt of the Drive -/
def OnDrive (r : StagedMedia) : Prop := ∃ record, r.upload = some record ∧ record.service = "storage".toList

/-- the item has its receipt -/
def Filed (s : Store) (url : Str) : Prop := ∃ r ∈ s.rows, r.originalUrl = url ∧ OnDrive r

structure Once (s : State) : Prop where
  once : s.copied.Nodup
  receipts : ∀ url ∈ s.copied, Filed s.store url

/-- the item is staged, within its lifetime, and no other row has its url for a handle -/
def Staged (s : Store) (t : Times) (url : Str) : Prop := url ≠ [] ∧
  ∃ r ∈ s.rows, r.originalUrl = url ∧ t.receipt < r.expiresAt ∧ t.mark < r.expiresAt ∧ ∀ r' ∈ s.rows, r'.handle = url → r' = r

instance (s : Store) (t : Times) (url : Str) : Decidable (Staged s t url) :=
  inferInstanceAs (Decidable (url ≠ [] ∧ ∃ r ∈ s.rows, r.originalUrl = url ∧ t.receipt < r.expiresAt ∧ t.mark < r.expiresAt ∧
    ∀ r' ∈ s.rows, r'.handle = url → r' = r))

/-- the item that a reference names: its url is a key of the map, or it resolves to the item -/
def namedItem (s : State) (t : Times) (ref : Str) : Option Str :=
  if (s.media.lookup ref).isSome then some ref else (Media.resolveMediaRef s.store ref t.resolve).2.map Prod.fst

/-- an upload without a reference takes an item that is staged and not yet filed -/
structure FreshDefault (s : State) (t : Times) : Prop where
  attached : ∀ url content rest, s.media = (url, content) :: rest → content ≠ [] → Staged s.store t url ∧ ¬ Filed s.store url
  staged : s.media = [] → ∀ first rest url content mime, listUrlsForUser s.store t.list t.tie = first :: rest →
    (Media.resolveMediaRef s.store first t.fallback).2 = some (url, content, mime) → content ≠ [] →
      url = first ∧ Staged s.store t url ∧ ¬ Filed s.store url

/-- a reference names a staged item, or nothing where there is no attachment to take instead -/
def FreshNamed (s : State) (t : Times) (ref : Str) : Prop :=
  (∀ url, namedItem s t ref = some url → Staged s.store t url) ∧ (namedItem s t ref = none → s.media = [])

/-- the condition: receipts of the Drive stay, and each upload keeps to what its reference, or its default, allows -/
def Sound (tables : Tables) (user : Str) (s : State) : Event → Prop
  | .staging op => ∀ url, Filed s.store url → Filed (Media.step user s.store op) url
  | .call _ (.upload t folderPath _ originalUrl _) =>
    let ref := originalUrl.getD []
    ∀ folder, normalizeFolderPath tables folderPath = .ok folder →
      (ref = [] → FreshDefault s t) ∧ (ref ≠ [] → FreshNamed s t ref)
  | _ => True

/-! ## The parts of an upload -/

variable {tables : Tables} {user : Str}

theorem resolveRef_names {s : State} {t : Times} {ref url : Str} (hinv : Inv user s.store) (hne : ref ≠ [])
    (h : namedItem s t ref = some url) (mimeType : Str) : ∃ content mime media,
      resolveRef s.store s.media ref mimeType t.resolve = ⟨s.store, media, url, mime⟩ ∧ media.lookup url = some content := by
  rw [namedItem] at h
  rw [resolveRef]
  cases hkey : s.media.lookup ref with
  | some content =>
    rw [hkey] at h
    obtain rfl : ref = url := Option.some.inj h
    rw [if_neg fun hcond => Option.some_ne_none _ hcond.2]
    exact ⟨content, mimeType, s.media, rfl, hkey⟩
  | none =>
    rw [hkey] at h
    obtain ⟨⟨url', content, mime⟩, hresolve, rfl⟩ := Option.map_eq_some_iff.1 h
    have hstore := Media.resolveMediaRef_store hinv ref t.resolve
    rw [if_pos ⟨hne, rfl⟩]
    cases hresult : Media.resolveMediaRef s.store ref t.resolve with
    | mk store entry =>
      rw [hresult] at hstore hresolve
      change store = s.store at hstore
      change entry = some (url', content, mime) at hresolve
      subst hstore hresolve
      cases hknown : s.media.lookup url' with
      | some bytes => exact ⟨bytes, mime, s.media, by simp [hknown], hknown⟩
      | none =>
        refine ⟨content, mime, s.media ++ [(url', content)], by simp [hknown], ?_⟩
        rw [List.lookup_append, hknown]
        simp

theorem resolveRef_nothing {s : State} {t : Times} {ref : Str} (hinv : Inv user s.store) (h : namedItem s t ref = none)
    (mimeType : Str) : resolveRef s.store s.media ref mimeType t.resolve = ⟨s.store, s.media, ref, mimeType⟩ := by
  have hstore := Media.resolveMediaRef_store hinv ref t.resolve
  rw [namedItem] at h
  rw [resolveRef]
  split_ifs at h with hkey
  split_ifs with hcond
  · have hnone := Option.map_eq_none_iff.1 h
    cases hresult : Media.resolveMediaRef s.store ref t.resolve with
    | mk store entry =>
      rw [hresult] at hstore hnone
      change store = s.store at hstore
      change entry = none at hnone
      subst hstore hnone
      rfl
  · rfl

/-- a sorted list of one row -/
theorem head_insertionSort {le : StagedMedia → StagedMedia → Prop} [DecidableRel le] {rows : List StagedMedia} {r : StagedMedia}
    (hmem : r ∈ rows) (hall : ∀ r' ∈ rows, r' = r) : (rows.insertionSort le).head? = some r := by
  have hperm := List.perm_insertionSort le rows
  cases hsorted : rows.insertionSort le with
  | nil =>
    rw [hsorted] at hperm
    exact absurd (hperm.mem_iff.2 hmem) List.not_mem_nil
  | cons r' rest =>
    rw [hsorted] at hperm
    rw [hall r' (hperm.mem_iff.1 List.mem_cons_self)]
    rfl

/-- the row that an item's url names is its own -/
theorem namedRow_eq {s : Store} {url : Str} {now : ℤ} {r : StagedMedia} (hinv : Inv user s) (hr : r ∈ s.rows)
    (hurl : r.originalUrl = url) (halive : now < r.expiresAt) (halone : ∀ r' ∈ s.rows, r'.handle = url → r' = r)
    (tie : Str → ℕ) : namedRow s url now tie = some r := by
  refine head_insertionSort (List.mem_filter.2 ⟨hr, decide_eq_true ⟨.inl hurl, halive⟩⟩) fun r' hr' => ?_
  obtain ⟨hr', hnamed⟩ := List.mem_filter.1 hr'
  obtain ⟨hurl' | hhandle, -⟩ := of_decide_eq_true hnamed
  · exact List.inj_on_of_nodup_map hinv.urls hr' hr (hurl'.trans hurl.symm)
  · exact halone r' hr' hhandle

theorem markUploaded_eq {s : Store} {url : Str} {now : ℤ} {r : StagedMedia} (hinv : Inv user s) (hne : url ≠ [])
    (hr : r ∈ s.rows) (hurl : r.originalUrl = url) (halive : now < r.expiresAt)
    (halone : ∀ r' ∈ s.rows, r'.handle = url → r' = r) (record : UploadRecord) (tie : Str → ℕ) :
    Media.markUploaded s url record now tie =
      { s with rows := s.rows.map fun r' => if r'.handle = r.handle then { r' with upload := some record } else r' } := by
  have hnamed := namedRow_eq hinv hr hurl halive halone tie
  rw [namedRow] at hnamed
  rw [Media.markUploaded, if_neg hne]
  simp only [hnamed]

/-- a receipt of the Drive takes none away -/
theorem filed_mark {s : Store} {url : Str} {record : UploadRecord} (hservice : record.service = "storage".toList)
    (handle : Str) (h : Filed s url) :
    Filed { s with rows := s.rows.map fun r => if r.handle = handle then { r with upload := some record } else r } url := by
  obtain ⟨r, hr, hurl, hon⟩ := h
  refine ⟨_, List.mem_map_of_mem hr, ?_, ?_⟩
  · split_ifs <;> exact hurl
  · split_ifs
    · exact ⟨record, rfl, hservice⟩
    · exact hon

/-- the store after a receipt of the Drive is recorded under a staged item -/
theorem filed_markUploaded {s : Store} {url : Str} {t : Times} {record : UploadRecord} (hinv : Inv user s)
    (hstaged : Staged s t url) (hservice : record.service = "storage".toList) :
    Filed (Media.markUploaded s url record t.mark t.tie) url ∧
      ∀ other, Filed s other → Filed (Media.markUploaded s url record t.mark t.tie) other := by
  obtain ⟨hne, r, hr, hurl, -, halive, halone⟩ := hstaged
  rw [markUploaded_eq hinv hne hr hurl halive halone]
  refine ⟨⟨{ r with upload := some record }, ?_, hurl, record, rfl, hservice⟩, fun other => filed_mark hservice r.handle⟩
  exact List.mem_map.2 ⟨r, hr, if_pos rfl⟩

theorem saveChosen_nothing {s : State} (a : Answers) (t : Times) (folder description : Str) {c : Chosen} (h : c.content = []) :
    (saveChosen tables s a t folder description c).2 = { s with store := c.store } := by
  rw [saveChosen, if_pos h]

theorem saveChosen_item {s : State} (a : Answers) (t : Times) (folder description : Str) {c : Chosen} (h : c.content ≠ [])
    (href : c.ref ≠ []) : ∃ record : UploadRecord, record.service = "storage".toList ∧
      (saveChosen tables s a t folder description c).2.store = Media.markUploaded c.store c.ref record t.mark t.tie ∧
      (saveChosen tables s a t folder description c).2.copied = s.copied ++ [c.source] := by
  rw [saveChosen, if_neg h]
  exact ⟨storageRecord _, rfl, if_neg href, rfl⟩

/-- what an upload of a staged item that is not filed yet leaves -/
theorem once_saveChosen {s : State} (a : Answers) (t : Times) (folder description : Str) {c : Chosen} (hinv : Inv user s.store)
    (h : Once s) (hstore : c.store = s.store)
    (hitem : c.content ≠ [] → c.ref = c.source ∧ Staged s.store t c.source ∧ ¬ Filed s.store c.source) :
    Inv user (saveChosen tables s a t folder description c).2.store ∧
      Once (saveChosen tables s a t folder description c).2 := by
  by_cases hcontent : c.content = []
  · rw [saveChosen_nothing a t folder description hcontent, hstore]
    exact ⟨hinv, h⟩
  · obtain ⟨href, hstaged, hnot⟩ := hitem hcontent
    obtain ⟨record, hservice, hstore', hcopied⟩ :=
      @saveChosen_item tables s a t folder description c hcontent (href ▸ hstaged.1)
    rw [href, hstore] at hstore'
    refine ⟨hstore' ▸ Media.inv_markUploaded hinv _ _ _ _, ?_, ?_⟩
    · rw [hcopied]
      refine List.nodup_append'.2 ⟨h.once, List.nodup_singleton _, fun url hurl hsource => ?_⟩
      rw [List.mem_singleton.1 hsource] at hurl
      exact hnot (h.receipts _ hurl)
    · obtain ⟨hnew, hold⟩ := filed_markUploaded hinv hstaged hservice
      intro url hurl
      rw [hcopied] at hurl
      rw [hstore']
      obtain hurl | hsource := List.mem_append.1 hurl
      · exact hold url (h.receipts url hurl)
      · rw [List.mem_singleton.1 hsource]
        exact hnew

/-- a filed item is not uploaded -/
theorem getUploaded_filed {s : Store} {url : Str} {t : Times} (hinv : Inv user s) (hstaged : Staged s t url)
    (hfiled : Filed s url) : ∃ prior, getUploaded s url t.receipt t.tie = some prior ∧ prior.service = "storage".toList := by
  obtain ⟨hne, r, hr, hurl, halive, -, halone⟩ := hstaged
  obtain ⟨r', hr', hurl', record, hupload, hservice⟩ := hfiled
  obtain rfl := List.inj_on_of_nodup_map hinv.urls hr' hr (hurl'.trans hurl.symm)
  refine ⟨record, ?_, hservice⟩
  rw [getUploaded, if_neg hne, namedRow_eq hinv hr hurl halive halone]
  exact hupload

theorem chooseBytes_key {r : Resolved} {content : Bytes} (t : Times) (hne : r.ref ≠ []) (h : r.media.lookup r.ref = some content) :
    chooseBytes r t = ⟨r.store, r.ref, r.ref, content, r.mimeType⟩ := by
  rw [chooseBytes, if_neg hne, h]

/-- the item that an upload without a reference takes -/
theorem chooseBytes_default {s : State} {t : Times} (hinv : Inv user s.store) (h : FreshDefault s t) (mimeType : Str) :
    (chooseBytes ⟨s.store, s.media, [], mimeType⟩ t).store = s.store ∧
      ((chooseBytes ⟨s.store, s.media, [], mimeType⟩ t).content ≠ [] →
        (chooseBytes ⟨s.store, s.media, [], mimeType⟩ t).ref = (chooseBytes ⟨s.store, s.media, [], mimeType⟩ t).source ∧
          Staged s.store t (chooseBytes ⟨s.store, s.media, [], mimeType⟩ t).source ∧
          ¬ Filed s.store (chooseBytes ⟨s.store, s.media, [], mimeType⟩ t).source) := by
  rw [chooseBytes]
  simp only [if_true]
  cases hmedia : s.media with
  | cons entry rest =>
    obtain ⟨url, content⟩ := entry
    exact ⟨rfl, fun hcontent => ⟨rfl, h.attached url content rest hmedia hcontent⟩⟩
  | nil =>
    simp only
    cases hurls : listUrlsForUser s.store t.list t.tie with
    | nil => exact ⟨rfl, fun hcontent => absurd rfl hcontent⟩
    | cons first rest =>
      have hstore := Media.resolveMediaRef_store hinv first t.fallback
      have hitem := h.staged hmedia first rest
      cases hresult : Media.resolveMediaRef s.store first t.fallback with
      | mk store entry =>
        rw [hresult] at hstore hitem
        change store = s.store at hstore
        cases entry with
        | none =>
          simp only [hresult]
          exact ⟨hstore, fun hcontent => absurd rfl hcontent⟩
        | some entry =>
          obtain ⟨url, content, mime⟩ := entry
          simp only [hresult]
          refine ⟨hstore, fun hcontent => ?_⟩
          obtain ⟨heq, hstaged, hnot⟩ := hitem url content mime hurls rfl hcontent
          exact ⟨heq.symm, hstaged, hnot⟩

/-! ## Steps -/

theorem once_uploadResolved {s : State} (a : Answers) {t : Times} (folder description : Str) {r : Resolved}
    (hinv : Inv user s.store) (h : Once s) (hstore : r.store = s.store)
    (hitem : (¬ ∃ prior, getUploaded s.store r.ref t.receipt t.tie = some prior ∧ prior.service = "storage".toList) →
      (chooseBytes r t).store = s.store ∧ ((chooseBytes r t).content ≠ [] → (chooseBytes r t).ref = (chooseBytes r t).source ∧
        Staged s.store t (chooseBytes r t).source ∧ ¬ Filed s.store (chooseBytes r t).source)) :
    Inv user (uploadResolved tables s a t folder description r).2.store ∧
      Once (uploadResolved tables s a t folder description r).2 := by
  obtain ⟨store, media, ref, mimeType⟩ := r
  change store = s.store at hstore
  subst hstore
  rw [uploadResolved]
  cases hprior : getUploaded s.store ref t.receipt t.tie with
  | none =>
    obtain ⟨hkept, hchosen⟩ := hitem (by simp [hprior])
    simp only
    exact once_saveChosen (s := { s with media := media }) a t folder description hinv ⟨h.once, h.receipts⟩ hkept hchosen
  | some prior =>
    simp only
    by_cases hservice : prior.service = "storage".toList
    · rw [if_pos hservice]
      exact ⟨hinv, h.once, h.receipts⟩
    · rw [if_neg hservice]
      obtain ⟨hkept, hchosen⟩ := hitem (by simpa [hprior] using hservice)
      exact once_saveChosen (s := { s with media := media }) a t folder description hinv ⟨h.once, h.receipts⟩ hkept hchosen

/-- what an upload that is sound leaves -/
theorem once_upload {s : State} (a : Answers) {t : Times} (folderPath : Option Str) (description : Str) {originalUrl : Option Str}
    (mimeType : Str) (hinv : Inv user s.store) (h : Once s)
    (hsound : Sound tables user s (.call a (.upload t folderPath description originalUrl mimeType))) :
    Inv user (uploadToStorage tables s a t folderPath description originalUrl mimeType).2.store ∧
      Once (uploadToStorage tables s a t folderPath description originalUrl mimeType).2 := by
  rw [uploadToStorage]
  cases hfolder : normalizeFolderPath tables folderPath with
  | error complaint => exact ⟨hinv, h⟩
  | ok folder =>
    obtain ⟨hdefault, hnamed⟩ := hsound folder hfolder
    generalize originalUrl.getD [] = ref at hdefault hnamed
    simp only
    by_cases href : ref = []
    · subst href
      have hresolved : resolveRef s.store s.media [] mimeType t.resolve = ⟨s.store, s.media, [], mimeType⟩ :=
        if_neg fun hcond => hcond.1 rfl
      rw [hresolved]
      exact once_uploadResolved a folder description hinv h rfl fun _ => chooseBytes_default hinv (hdefault rfl) mimeType
    · obtain ⟨hstaged, hnothing⟩ := hnamed href
      cases hname : namedItem s t ref with
      | some url =>
        obtain ⟨content, mime, media, hresolved, hkey⟩ := resolveRef_names hinv href hname mimeType
        have hitem := hstaged url hname
        rw [hresolved]
        refine once_uploadResolved a folder description hinv h rfl fun hnot => ?_
        rw [chooseBytes_key t hitem.1 hkey]
        exact ⟨rfl, fun _ => ⟨rfl, hitem, fun hfiled => hnot (getUploaded_filed hinv hitem hfiled)⟩⟩
      | none =>
        rw [resolveRef_nothing hinv hname]
        refine once_uploadResolved a folder description hinv h rfl fun _ => ?_
        -- there is nothing to take instead
        have hchosen : chooseBytes ⟨s.store, s.media, ref, mimeType⟩ t = ⟨s.store, ref, [], [], mimeType⟩ := by
          rw [chooseBytes, hnothing hname]
          simp only [if_neg href, List.lookup_nil]
        rw [hchosen]
        exact ⟨rfl, fun hcontent => absurd rfl hcontent⟩

theorem writeToStorage_store (s : State) (a : Answers) (folderPath : Option Str) (filename content : Str) :
    (writeToStorage tables s a folderPath filename content).2.store = s.store ∧
      (writeToStorage tables s a folderPath filename content).2.copied = s.copied := by
  rw [writeToStorage]
  cases normalizeFolderPath tables folderPath with
  | error complaint =>
    simp only
    split_ifs <;> exact ⟨rfl, rfl⟩
  | ok folder =>
    simp only
    split_ifs <;> exact ⟨rfl, rfl⟩

theorem moveFile_store (s : State) (a : Answers) (fromPath toFolderPath : Str) (newFilename : Option Str) :
    (moveFile tables s a fromPath toFolderPath newFilename).2.store = s.store ∧
      (moveFile tables s a fromPath toFolderPath newFilename).2.copied = s.copied := by
  rw [moveFile]
  cases splitFilePath tables fromPath with
  | error complaint => exact ⟨rfl, rfl⟩
  | ok source =>
    cases normalizeFolderPath tables (some toFolderPath) with
    | error complaint => exact ⟨rfl, rfl⟩
    | ok folder =>
      simp only
      cases findSavedFile s.folders a (if source.1 = ['/'] then source.1 ++ source.2 else source.1 ++ '/' :: source.2) with
      | none => exact ⟨rfl, rfl⟩
      | some existing =>
        simp only
        split <;> exact ⟨rfl, rfl⟩

/-- a call that stages nothing and copies nothing -/
theorem once_of_eq {s s' : State} (h : Inv user s.store ∧ Once s) (heq : s'.store = s.store ∧ s'.copied = s.copied) :
    Inv user s'.store ∧ Once s' := by
  obtain ⟨hinv, honce⟩ := h
  refine ⟨heq.1 ▸ hinv, heq.2 ▸ honce.once, fun url hurl => ?_⟩
  rw [heq.1]
  exact honce.receipts url (heq.2 ▸ hurl)

/-- **A step.** -/
theorem once_step {s : State} {e : Event} (h : Inv user s.store ∧ Once s) (hsound : Sound tables user s e) :
    Inv user (step tables user s e).store ∧ Once (step tables user s e) := by
  cases e with
  | staging op => exact ⟨Media.inv_step s.store op h.1, h.2.once, fun url hurl => hsound url (h.2.receipts url hurl)⟩
  | turn media drive folders => exact ⟨h.1, h.2.once, h.2.receipts⟩
  | call a c =>
    cases c with
    | upload t folderPath description originalUrl mimeType => exact once_upload a folderPath description mimeType h.1 h.2 hsound
    | write folderPath filename content => exact once_of_eq h (writeToStorage_store s a folderPath filename content)
    | move fromPath toFolderPath newFilename => exact once_of_eq h (moveFile_store s a fromPath toFolderPath newFilename)

/-- **One copy.** In every run of steps that meet the condition each media item is copied once at most, and has its receipt. -/
theorem one_copy (tables : Tables) (user : Str) (events : List Event)
    (h : Meets (step tables user) (Sound tables user) State.start events) : Once (run (step tables user) State.start events) := by
  have hstart : Inv user State.start.store ∧ Once State.start := ⟨Media.inv_empty, List.nodup_nil, fun _ h => absurd h List.not_mem_nil⟩
  exact (run_inv (fun s e => once_step) h hstart).2

/-! ## Runs on one photo -/

/-- the tables on ASCII texts -/
def asciiTables : Tables where
  lower := List.map Char.toLower
  isWord := fun c => c.isAlphanum || c = '_'
  repr := fun t => '\'' :: t ++ ['\'']
  word_slash := by decide

def photoUrl : Str := "wa:1".toList

def photo : Event := .staging (.stage photoUrl [1] "image/jpeg".toList 0 "media_a".toList fun _ => 0)

/-- the turn that the photo is attached to -/
def attached : Event := .turn [(photoUrl, [1])] (Drive.start []) fun _ => 0

def answers : Answers where
  view := fun _ => []
  walks := fun _ => true
  search := fun _ => []
  link := []

/-- an upload, so many seconds after the photo -/
def uploadAt (seconds : ℤ) (originalUrl : Option Str) : Event :=
  .call answers (.upload ⟨seconds, seconds, seconds, seconds, seconds, seconds, fun _ => 0⟩ none [] originalUrl "image/jpeg".toList)

/-- a photo that is uploaded by its handle, and twice more by its handle and its url, is there once -/
theorem one_copy_photo :
    Once (run (step asciiTables []) State.start
      [photo, attached, uploadAt 1 (some "media_a".toList), uploadAt 2 (some photoUrl), uploadAt 3 (some "media_a".toList)]) := by
  have hnamed : ∀ {s : State} {ref : Str} (t : Times), ref ≠ [] → namedItem s t ref = some photoUrl → Staged s.store t photoUrl →
      ∀ path description mime, Sound asciiTables [] s (.call answers (.upload t path description (some ref) mime)) := by
    intro s ref t hne hitem hstaged path description mime folder hfolder
    refine ⟨fun hempty => absurd hempty hne, fun _ => ⟨fun url hurl => ?_, fun hnone => ?_⟩⟩
    · rw [← Option.some.inj (hitem.symm.trans hurl)]
      exact hstaged
    · exact absurd (hitem.symm.trans hnone) (Option.some_ne_none _)
  refine one_copy asciiTables [] _ ⟨fun url hfiled => ?_, trivial, ?_, ?_, ?_, trivial⟩
  · obtain ⟨r, hr, -⟩ := hfiled
    exact absurd hr List.not_mem_nil
  · exact hnamed _ (by decide) (by decide +kernel) (by decide +kernel) _ _ _
  · exact hnamed _ (by decide) (by decide +kernel) (by decide +kernel) _ _ _
  · exact hnamed _ (by decide) (by decide +kernel) (by decide +kernel) _ _ _

/-- an upload without a reference and its retry; an upload with a reference that resolves to nothing, which takes the photo
and leaves its row without a receipt -/
theorem retry_not_recognised :
    ¬ Once (run (step asciiTables []) State.start [photo, attached, uploadAt 1 none, uploadAt 2 none]) ∧
      ¬ Once (run (step asciiTables []) State.start [photo, attached, uploadAt 1 (some "media_b".toList)]) := by
  have htwice : (run (step asciiTables []) State.start [photo, attached, uploadAt 1 none, uploadAt 2 none]).copied =
      [photoUrl, photoUrl] := by decide +kernel
  have hcopied : (run (step asciiTables []) State.start [photo, attached, uploadAt 1 (some "media_b".toList)]).copied =
      [photoUrl] := by decide +kernel
  have hrows : ∀ r ∈ (run (step asciiTables []) State.start [photo, attached, uploadAt 1 (some "media_b".toList)]).store.rows,
      r.upload = none := by decide +kernel
  refine ⟨fun h => ?_, fun h => ?_⟩
  · have honce := h.once
    rw [htwice] at honce
    exact absurd honce (by decide)
  · obtain ⟨r, hr, -, record, hupload, -⟩ := h.receipts photoUrl (hcopied ▸ List.mem_singleton_self photoUrl)
    rw [hrows r hr] at hupload
    cases hupload

end Clawbolt.Files

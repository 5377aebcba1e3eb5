/-
The staged media of one user (agent/media_staging.py): the rows of `staged_media` and the files beside them. A handle is
drawn for each stage; one that another row has makes the INSERT raise. Files are written and removed without fail.

The clock is read in each operation, and may read anything. Where a SELECT leaves the order of equal keys open, `tie` is
the order that it comes back in.
-/
import Mathlib.Tactic
import Clawbolt.Core.Overflow
import Clawbolt.Core.Text

namespace Clawbolt.Media

open Text (Str)

abbrev Bytes := List UInt8

/-- a receipt -/
structure UploadRecord where
  service : Str
  externalId : Str
  url : Str
  target : Str
  status : Str
deriving DecidableEq

structure StagedMedia where
  handle : Str
  originalUrl : Str
  mimeType : Str
  diskPath : Str
  createdAt : ℤ
  expiresAt : ℤ
  /-- none while `upload_status` is none -/
  upload : Option UploadRecord
deriving DecidableEq

structure Store where
  rows : List StagedMedia
  disk : Str → Option Bytes

def Store.empty : Store := ⟨[], fun _ => none⟩

/-- `STAGING_TTL_SECONDS` -/
def stagingTtl : ℤ := 604800

/-- `STAGING_MAX_PER_USER` -/
def stagingMaxPerUser : ℕ := 50

variable (user : Str)

/-- `_store_disk_path` -/
def storeDiskPath (handle : Str) : Str := user ++ "/".toList ++ handle ++ ".bin".toList

/-! ## Staging -/

/-- rows by their expiry, soonest first -/
def byExpiry (tie : Str → ℕ) (rows : List StagedMedia) : List StagedMedia :=
  rows.insertionSort fun a b => a.expiresAt < b.expiresAt ∨ a.expiresAt = b.expiresAt ∧ tie a.handle ≤ tie b.handle

/-- receipts first -/
def evictionOrder (tie : Str → ℕ) (rows : List StagedMedia) : List StagedMedia :=
  (byExpiry tie rows).filter (fun r => r.upload.isSome) ++ (byExpiry tie rows).filter fun r => r.upload.isNone

/-- `_unlink_quiet` of the files -/
def unlink (disk : Str → Option Bytes) (paths : List Str) : Str → Option Bytes := fun p => if p ∈ paths then none else disk p

/-- `_enforce_per_user_cap` -/
def enforcePerUserCap (tie : Str → ℕ) (s : Store) : Store :=
  let order := evictionOrder tie s.rows
  { rows := Overflow.kept stagingMaxPerUser order s.rows
    disk := unlink s.disk ((Overflow.excess stagingMaxPerUser order).map StagedMedia.diskPath) }

inductive Staged where
  | skipped
  /-- the handle is another row's -/
  | raised
  | handle (h : Str)
deriving DecidableEq

/-- the INSERT ... ON CONFLICT DO UPDATE, and the row that it returns -/
def upsert (s : Store) (url mime : Str) (now : ℤ) (fresh : Str) : Option (List StagedMedia × StagedMedia) :=
  let refreshed (r : StagedMedia) : StagedMedia := { r with mimeType := mime, expiresAt := now + stagingTtl }
  match s.rows.find? fun r => r.originalUrl = url with
  | some r => some (s.rows.map fun r => if r.originalUrl = url then refreshed r else r, refreshed r)
  | none =>
    if s.rows.any fun r => r.handle = fresh then none
    else
      let r : StagedMedia := {
        handle := fresh
        originalUrl := url
        mimeType := mime
        diskPath := storeDiskPath user fresh
        createdAt := now
        expiresAt := now + stagingTtl
        upload := none }
      some (s.rows ++ [r], r)

def stage (s : Store) (url : Str) (content : Bytes) (mime : Str) (now : ℤ) (fresh : Str) (tie : Str → ℕ) : Store × Staged :=
  if url = [] ∨ content = [] then (s, .skipped)
  else
    match upsert user s url mime now fresh with
    | none => (s, .raised)
    | some (rows, r) =>
      (enforcePerUserCap tie { rows := rows, disk := Function.update s.disk r.diskPath (some content) }, .handle r.handle)

/-! ## The other operations -/

/-- `_delete_rows_by_id` of rows without a file -/
def dropOrphans (s : Store) (p : StagedMedia → Bool) : Store :=
  { s with rows := s.rows.filter fun r => !(p r && (s.disk r.diskPath).isNone) }

/-- `get_by_handle`: url, bytes and mime type -/
def getByHandle (s : Store) (handle : Str) (now : ℤ) : Store × Option (Str × Bytes × Str) :=
  match s.rows.find? fun r => r.handle = handle ∧ now < r.expiresAt with
  | none => (s, none)
  | some r =>
    match s.disk r.diskPath with
    | some content => (s, some (r.originalUrl, content, r.mimeType))
    | none => (dropOrphans s fun r' => r'.handle = r.handle, none)

/-- `resolve_media_ref` -/
def resolveMediaRef (s : Store) (ref : Str) (now : ℤ) : Store × Option (Str × Bytes × Str) :=
  match getByHandle s ref now with
  | (s, some entry) => (s, some entry)
  | (s, none) =>
    match s.rows.find? fun r => r.originalUrl = ref ∧ now < r.expiresAt with
    | none => (s, none)
    | some r =>
      match s.disk r.diskPath with
      | some content => (s, some (ref, content, r.mimeType))
      | none => (dropOrphans s fun r' => r'.handle = r.handle, none)

/-- `get_all_for_user` -/
def getAllForUser (s : Store) (now : ℤ) : Store × List (Str × Bytes) :=
  (dropOrphans s fun r => now < r.expiresAt,
    s.rows.filterMap fun r => if now < r.expiresAt then (s.disk r.diskPath).map fun content => (r.originalUrl, content) else none)

/-- `touch` -/
def touch (s : Store) (handle : Str) (now : ℤ) : Store :=
  { s with rows := s.rows.map fun r => if r.handle = handle then { r with expiresAt := now + stagingTtl } else r }

/-- `mark_uploaded`: of several rows that the reference names, the last one that was created -/
def markUploaded (s : Store) (ref : Str) (receipt : UploadRecord) (now : ℤ) (tie : Str → ℕ) : Store :=
  if ref = [] then s
  else
    let named := s.rows.filter fun r => (r.originalUrl = ref ∨ r.handle = ref) ∧ now < r.expiresAt
    let newest := named.insertionSort fun a b =>
      b.createdAt < a.createdAt ∨ a.createdAt = b.createdAt ∧ tie a.handle ≤ tie b.handle
    match newest.head? with
    | none => s
    | some r => { s with rows := s.rows.map fun r' => if r'.handle = r.handle then { r' with upload := some receipt } else r' }

/-- the rows go, and their files -/
def removeRows (s : Store) (p : StagedMedia → Bool) : Store :=
  { rows := s.rows.filter fun r => !p r, disk := unlink s.disk ((s.rows.filter p).map StagedMedia.diskPath) }

def evict (s : Store) (url : Str) : Store := removeRows s fun r => r.originalUrl = url

def evictByHandle (s : Store) (handle : Str) : Store := removeRows s fun r => r.handle = handle

def purgeExpired (s : Store) (now : ℤ) : Store := removeRows s fun r => r.expiresAt ≤ now

def clearUser (s : Store) : Store := removeRows s fun _ => true

inductive Op where
  | stage (url : Str) (content : Bytes) (mime : Str) (now : ℤ) (fresh : Str) (tie : Str → ℕ)
  | getByHandle (handle : Str) (now : ℤ)
  | resolve (ref : Str) (now : ℤ)
  | getAll (now : ℤ)
  | touch (handle : Str) (now : ℤ)
  | mark (ref : Str) (receipt : UploadRecord) (now : ℤ) (tie : Str → ℕ)
  | evict (url : Str)
  | evictByHandle (handle : Str)
  | purge (now : ℤ)
  | clear

def step (s : Store) : Op → Store
  | .stage url content mime now fresh tie => (stage user s url content mime now fresh tie).1
  | .getByHandle handle now => (getByHandle s handle now).1
  | .resolve ref now => (resolveMediaRef s ref now).1
  | .getAll now => (getAllForUser s now).1
  | .touch handle now => touch s handle now
  | .mark ref receipt now tie => markUploaded s ref receipt now tie
  | .evict url => evict s url
  | .evictByHandle handle => evictByHandle s handle
  | .purge now => purgeExpired s now
  | .clear => clearUser s

end Clawbolt.Media

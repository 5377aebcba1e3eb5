/-
How long the block of receipts is (`_collect_receipts` and `_truncate_block` of agent/tool_summary.py).

The loop keeps room for the suffix before each entry that it keeps. The suffix of the entries that are left gets no longer
from one entry to the next, so the room is still there when the loop stops.

Results:
- `collect_starts`: the entries are in the order of the receipts that start them;
- `truncateFrom_length`: the room;
- `block_bounded`: the block is short, and honest on what it leaves out.
-/
import Clawbolt.Receipts.Dispatch

namespace Clawbolt.Receipts

open Text (Str)

/-! ## What is claimed -/

/-- `sys.maxsize`, which no list of Python is longer than -/
def maxsize : ℕ := 2 ^ 63 - 1

/-- the receipts that start an entry, after others with the urls `seen`: those without a url, and the first with each -/
def starts (seen : List Str) : List ToolReceipt → List ToolReceipt
  | [] => []
  | r :: rs =>
    match r.key with
    | none => r :: starts seen rs
    | some url => if url ∈ seen then starts seen rs else r :: starts (url :: seen) rs

/-- the url of an entry, and its first receipt -/
def Bucket.start (b : Bucket) : Option Str × Option Line := (b.url, b.entries.head?)

structure Bounded (env : Env) (replyText : Str) (calls : List StoredToolInteraction) : Prop where
  /-- an entry for each distinct receipt, in order -/
  distinct : (collect calls).map Bucket.start = (starts [] (receipts calls)).map fun r => (r.key, some r.line)
  lines : collectReceipts env calls = (collect calls).map (Bucket.render env)
  short : (formatReceiptsBlock env calls).length ≤ maxReceiptsChars
  /-- the first entries, and the number of the others -/
  honest : ∃ k ≤ (collectReceipts env calls).length, formatReceiptsBlock env calls =
    Text.join ['\n'] ((collectReceipts env calls).take k) ++
      if k = (collectReceipts env calls).length then [] else moreSuffix ((collectReceipts env calls).length - k)
  appended : formatReceiptsBlock env calls <:+ appendReceipts env replyText calls

/-! ## Entries -/

/-- a receipt with a url that has an entry starts none -/
theorem joinBucket_seen {url : Str} {e : Line} {bs : List Bucket} (hne : ∀ b ∈ bs, b.entries ≠ [])
    (hseen : some url ∈ bs.map Bucket.url) : (joinBucket url e bs).map Bucket.start = bs.map Bucket.start := by
  induction bs with
  | nil => cases hseen
  | cons b bs ih =>
    obtain ⟨hb, hbs⟩ := List.forall_mem_cons.1 hne
    rw [joinBucket]
    split_ifs with hurl
    · obtain ⟨first, rest, hentries⟩ := List.exists_cons_of_ne_nil hb
      simp [Bucket.start, hentries]
    · have hrest : some url ∈ bs.map Bucket.url := (List.mem_cons.1 hseen).resolve_left (Ne.symm hurl)
      rw [List.map_cons, List.map_cons, ih hbs hrest]

theorem joinBucket_fresh {url : Str} (e : Line) {bs : List Bucket} (hfresh : some url ∉ bs.map Bucket.url) :
    joinBucket url e bs = bs ++ [⟨some url, [e]⟩] := by
  induction bs with
  | nil => rfl
  | cons b bs ih =>
    rw [List.map_cons, List.mem_cons, not_or] at hfresh
    rw [joinBucket, if_neg (Ne.symm hfresh.1), ih hfresh.2, List.cons_append]

theorem joinBucket_ne_nil {url : Str} {e : Line} {bs : List Bucket} (hne : ∀ b ∈ bs, b.entries ≠ []) :
    ∀ b ∈ joinBucket url e bs, b.entries ≠ [] := by
  induction bs with
  | nil => simp [joinBucket]
  | cons b bs ih =>
    obtain ⟨hb, hbs⟩ := List.forall_mem_cons.1 hne
    rw [joinBucket]
    split_ifs
    · exact List.forall_mem_cons.2 ⟨List.concat_ne_nil _ _, hbs⟩
    · exact List.forall_mem_cons.2 ⟨hb, ih hbs⟩

theorem foldl_starts {rs : List ToolReceipt} {bs : List Bucket} {seen : List Str} (hne : ∀ b ∈ bs, b.entries ≠ [])
    (hseen : ∀ url, url ∈ seen ↔ some url ∈ bs.map Bucket.url) : (rs.foldl addReceipt bs).map Bucket.start =
      bs.map Bucket.start ++ (starts seen rs).map fun r => (r.key, some r.line) := by
  induction rs generalizing bs seen with
  | nil => simp [starts]
  | cons r rs ih =>
    rw [List.foldl_cons, addReceipt, starts]
    cases hkey : r.key with
    | none =>
      have hurls : ∀ url, url ∈ seen ↔ some url ∈ (bs ++ [(⟨none, [(r.action, r.target)]⟩ : Bucket)]).map Bucket.url := by
        intro url
        rw [hseen url]
        simp
      have hall : ∀ b ∈ bs ++ [(⟨none, [(r.action, r.target)]⟩ : Bucket)], b.entries ≠ [] := by
        rintro b hb
        rcases List.mem_append.1 hb with hb | hb
        · exact hne b hb
        · rw [List.mem_singleton.1 hb]
          exact List.cons_ne_nil _ _
      rw [ih hall hurls]
      simp [Bucket.start, hkey, ToolReceipt.line]
    | some url =>
      by_cases hmem : url ∈ seen
      · have hstart := joinBucket_seen (e := (r.action, r.target)) hne ((hseen url).1 hmem)
        have hurls : (joinBucket url (r.action, r.target) bs).map Bucket.url = bs.map Bucket.url := by
          have hfst := congrArg (List.map Prod.fst) hstart
          rwa [List.map_map, List.map_map] at hfst
        rw [ih (joinBucket_ne_nil hne) (fun other => by rw [hseen other, hurls]), hstart]
        simp only [if_pos hmem]
      · have hfresh : some url ∉ bs.map Bucket.url := fun h => hmem ((hseen url).2 h)
        have hjoin := joinBucket_fresh (r.action, r.target) hfresh
        have hurls : ∀ other, other ∈ url :: seen ↔ some other ∈ (joinBucket url (r.action, r.target) bs).map Bucket.url := by
          intro other
          rw [hjoin, List.mem_cons, hseen other]
          simp [or_comm]
        rw [ih (joinBucket_ne_nil hne) hurls, hjoin]
        simp [Bucket.start, hmem, hkey, ToolReceipt.line]

/-- **The entries, in order.** -/
theorem collect_starts (calls : List StoredToolInteraction) :
    (collect calls).map Bucket.start = (starts [] (receipts calls)).map fun r => (r.key, some r.line) := by
  have hfold := @foldl_starts (receipts calls) [] [] (by simp) (by simp)
  rwa [List.map_nil, List.nil_append] at hfold

theorem starts_length (seen : List Str) (rs : List ToolReceipt) : (starts seen rs).length ≤ rs.length := by
  induction rs generalizing seen with
  | nil => exact le_rfl
  | cons r rs ih =>
    rw [starts]
    cases r.key with
    | none => exact Nat.succ_le_succ (ih seen)
    | some url =>
      dsimp only
      split_ifs
      · exact (ih seen).trans (Nat.le_succ _)
      · exact Nat.succ_le_succ (ih _)

/-- no more entries than calls -/
theorem collectReceipts_length (env : Env) (calls : List StoredToolInteraction) :
    (collectReceipts env calls).length ≤ calls.length := by
  have hstarts := congrArg List.length (collect_starts calls)
  rw [List.length_map, List.length_map] at hstarts
  calc (collectReceipts env calls).length
      = (collect calls).length := List.length_map _
    _ = (starts [] (receipts calls)).length := hstarts
    _ ≤ (receipts calls).length := starts_length _ _
    _ ≤ calls.length := List.length_filterMap_le _ _

/-! ## Length -/

theorem moreSuffix_length (left : ℕ) : (moreSuffix left).length = (Nat.toDigits 10 left).length + 9 := by
  simp only [moreSuffix, List.length_append]
  have hopen : "\n(+".toList.length = 3 := rfl
  have hclose : " more)".toList.length = 6 := rfl
  rw [hopen, hclose]
  omega

/-- a smaller number has no more digits -/
theorem digits_mono {m n : ℕ} (h : m ≤ n) : (Nat.toDigits 10 m).length ≤ (Nat.toDigits 10 n).length := by
  have hpos : 0 < (Nat.toDigits 10 n).length := Nat.length_toDigits_pos
  rw [Nat.length_toDigits_le_iff (by decide) hpos]
  exact lt_of_le_of_lt h ((Nat.length_toDigits_le_iff (by decide) hpos).1 le_rfl)

/-- the suffix of any list that Python has fits -/
theorem moreSuffix_fits {left : ℕ} (h : left ≤ maxsize) : (moreSuffix left).length ≤ maxReceiptsChars := by
  have hdigits : (Nat.toDigits 10 left).length ≤ 19 := by
    rw [Nat.length_toDigits_le_iff (by decide) (by decide)]
    exact lt_of_le_of_lt h (by decide)
  rw [moreSuffix_length, maxReceiptsChars]
  omega

/-- one more line -/
theorem join_concat_length (kept : List Str) (line : Str) : (Text.join ['\n'] (kept ++ [line])).length =
    (Text.join ['\n'] kept).length + ((if kept = [] then 0 else 1) + line.length) := by
  induction kept with
  | nil => simp [Text.join]
  | cons first kept ih =>
    rw [List.cons_append, join_cons_ne _ (List.concat_ne_nil _ _)]
    cases kept with
    | nil => simp [Text.join]; omega
    | cons second kept =>
      rw [join_cons_ne _ (List.cons_ne_nil _ _)]
      simp only [List.length_append, ih, if_neg (List.cons_ne_nil _ _)]
      omega

/-- **The room.** While a line is left, what is kept has room for the suffix; with all lines it is too long. -/
theorem truncateFrom_length {kept rest : List Str} {running : ℕ} (hrunning : running = (Text.join ['\n'] kept).length)
    (hroom : running + (moreSuffix rest.length).length ≤ maxReceiptsChars)
    (hlong : maxReceiptsChars < (Text.join ['\n'] (kept ++ rest)).length) :
    (truncateFrom kept running rest).length ≤ maxReceiptsChars := by
  induction rest generalizing kept running with
  | nil =>
    rw [List.append_nil, ← hrunning] at hlong
    omega
  | cons line rest ih =>
    have hjoin := join_concat_length kept line
    rw [← hrunning] at hjoin
    have hloop : truncateFrom kept running (line :: rest) =
        if running + ((if kept = [] then 0 else 1) + line.length) + (moreSuffix (rest.length + 1)).length > maxReceiptsChars
        then Text.join ['\n'] kept ++ moreSuffix (rest.length + 1)
        else truncateFrom (kept ++ [line]) (running + ((if kept = [] then 0 else 1) + line.length)) rest := rfl
    rw [hloop, ← hjoin]
    split_ifs with hover
    · rw [List.length_append, ← hrunning]
      exact hroom
    · refine ih rfl ?_ ?_
      · have hdigits := digits_mono (Nat.le_add_right rest.length 1)
        rw [moreSuffix_length] at hover ⊢
        omega
      · rw [List.append_assoc, List.singleton_append]
        exact hlong

theorem truncateBlock_length {lines : List Str} (h : lines.length ≤ maxsize) :
    (truncateBlock lines).length ≤ maxReceiptsChars := by
  rw [truncateBlock]
  split_ifs with hfull
  · exact hfull
  · refine truncateFrom_length rfl ?_ (not_le.1 hfull)
    rw [Nat.zero_add]
    exact moreSuffix_fits h

/-- **The block.** For every reply, and every list of calls. -/
theorem block_bounded (env : Env) (replyText : Str) (calls : List StoredToolInteraction) (hcalls : calls.length ≤ maxsize) :
    Bounded env replyText calls where
  distinct := collect_starts calls
  lines := rfl
  short := by
    rw [formatReceiptsBlock]
    split_ifs
    · exact Nat.zero_le _
    · exact truncateBlock_length ((collectReceipts_length env calls).trans hcalls)
  honest := by
    rw [formatReceiptsBlock]
    split_ifs with hnone
    · exact ⟨0, Nat.zero_le _, by rw [hnone]; rfl⟩
    · exact truncateBlock_cut _
  appended := by
    by_cases hblock : formatReceiptsBlock env calls = []
    · rw [hblock]
      exact List.nil_suffix
    · exact block_ends hblock

/-- a receipt longer than the limit: nothing of it is kept, and it is counted -/
theorem block_bounded_long : Bounded plainEnv [] [⟨false, some ⟨List.replicate 2001 'a', "Smith".toList, none⟩, false⟩] :=
  block_bounded plainEnv [] _ (by decide)

end Clawbolt.Receipts

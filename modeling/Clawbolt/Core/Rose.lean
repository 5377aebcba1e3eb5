/-
Trees with any number of children, walked depth first.

- `visits`: the nodes in the order of the walk, each with its place and with the labels above it;
- `nodup_paths`: no place is visited twice;
- `search_eq`: a search that stops at its first hit finds the first visit that is one;
- `prune_eq`: a walk that lists hits and does not go below them lists the visits that are hits under none.
-/
import Mathlib.Tactic

namespace Roses

inductive Rose (α : Type) where
  | node (label : α) (children : List (Rose α))

/-- a node: the numbers of the children on the way to it, the labels on that way, and its own -/
structure Visit (α : Type) where
  path : List ℕ
  above : List α
  label : α
deriving DecidableEq

variable {α : Type}

mutual

def visitsFrom (path : List ℕ) (above : List α) : Rose α → List (Visit α)
  | .node label children => ⟨path, above, label⟩ :: visitsAll path (above ++ [label]) 0 children

/-- the children from the `n`th on -/
def visitsAll (path : List ℕ) (above : List α) (n : ℕ) : List (Rose α) → List (Visit α)
  | [] => []
  | t :: ts => visitsFrom (path ++ [n]) above t ++ visitsAll path above (n + 1) ts

end

def visits (t : Rose α) : List (Visit α) := visitsFrom [] [] t

/-! ## Places -/

mutual

theorem prefix_of_mem_visitsFrom (path : List ℕ) (above : List α) :
    ∀ (t : Rose α), ∀ v ∈ visitsFrom path above t, path <+: v.path
  | .node label children => by
    intro v hv
    obtain rfl | hv := List.mem_cons.1 hv
    · exact List.prefix_refl path
    · obtain ⟨m, -, hprefix⟩ := prefix_of_mem_visitsAll path (above ++ [label]) 0 children v hv
      exact (List.prefix_append path [m]).trans hprefix

theorem prefix_of_mem_visitsAll (path : List ℕ) (above : List α) (n : ℕ) :
    ∀ (ts : List (Rose α)), ∀ v ∈ visitsAll path above n ts, ∃ m, n ≤ m ∧ path ++ [m] <+: v.path
  | [] => fun v hv => absurd hv List.not_mem_nil
  | t :: ts => by
    intro v hv
    obtain hv | hv := List.mem_append.1 hv
    · exact ⟨n, le_rfl, prefix_of_mem_visitsFrom (path ++ [n]) above t v hv⟩
    · obtain ⟨m, hm, hprefix⟩ := prefix_of_mem_visitsAll path above (n + 1) ts v hv
      exact ⟨m, by omega, hprefix⟩

end

mutual

theorem nodup_visitsFrom (path : List ℕ) (above : List α) : ∀ t : Rose α, ((visitsFrom path above t).map Visit.path).Nodup
  | .node label children => by
    refine List.nodup_cons.2 ⟨fun hmem => ?_, nodup_visitsAll path (above ++ [label]) 0 children⟩
    obtain ⟨v, hv, hpath⟩ := List.mem_map.1 hmem
    obtain ⟨m, -, hprefix⟩ := prefix_of_mem_visitsAll path (above ++ [label]) 0 children v hv
    rw [hpath] at hprefix
    have hlength := hprefix.length_le
    simp at hlength

theorem nodup_visitsAll (path : List ℕ) (above : List α) (n : ℕ) :
    ∀ ts : List (Rose α), ((visitsAll path above n ts).map Visit.path).Nodup
  | [] => List.nodup_nil
  | t :: ts => by
    rw [visitsAll, List.map_append, List.nodup_append']
    refine ⟨nodup_visitsFrom (path ++ [n]) above t, nodup_visitsAll path above (n + 1) ts, ?_⟩
    intro p hp hp'
    obtain ⟨v, hv, rfl⟩ := List.mem_map.1 hp
    obtain ⟨v', hv', hpath⟩ := List.mem_map.1 hp'
    have hfirst := prefix_of_mem_visitsFrom (path ++ [n]) above t v hv
    obtain ⟨m, hm, hlater⟩ := prefix_of_mem_visitsAll path above (n + 1) ts v' hv'
    -- two prefixes of one length are one
    rw [hpath] at hlater
    have heq := List.prefix_of_prefix_length_le hfirst hlater (by simp)
    have hn : n = m := by simpa using heq
    omega

end

theorem nodup_paths (t : Rose α) : ((visits t).map Visit.path).Nodup := nodup_visitsFrom [] [] t

/-! ## Walks -/

section
variable (hit : α → Bool)

mutual

/-- the first hit, in the order of the walk -/
def searchFrom (path : List ℕ) : Rose α → Option (List ℕ × α)
  | .node label children => if hit label then some (path, label) else searchAll path 0 children

def searchAll (path : List ℕ) (n : ℕ) : List (Rose α) → Option (List ℕ × α)
  | [] => none
  | t :: ts =>
    match searchFrom (path ++ [n]) t with
    | some found => some found
    | none => searchAll path (n + 1) ts

end

mutual

/-- the hits that are not below another one -/
def pruneFrom (path : List ℕ) : Rose α → List (List ℕ × α)
  | .node label children => if hit label then [(path, label)] else pruneAll path 0 children

def pruneAll (path : List ℕ) (n : ℕ) : List (Rose α) → List (List ℕ × α)
  | [] => []
  | t :: ts => pruneFrom (path ++ [n]) t ++ pruneAll path (n + 1) ts

end

def Visit.place (v : Visit α) : List ℕ × α := (v.path, v.label)

/-- the visit is a hit, and nothing above it is -/
def Visit.first (v : Visit α) : Bool := hit v.label && v.above.all fun a => !hit a

mutual

theorem searchFrom_eq (path : List ℕ) (above : List α) : ∀ t : Rose α,
    searchFrom hit path t = ((visitsFrom path above t).find? fun v => hit v.label).map Visit.place
  | .node label children => by
    rw [searchFrom, visitsFrom, List.find?_cons]
    cases hlabel : hit label with
    | true => rfl
    | false => exact searchAll_eq path (above ++ [label]) 0 children

theorem searchAll_eq (path : List ℕ) (above : List α) (n : ℕ) : ∀ ts : List (Rose α),
    searchAll hit path n ts = ((visitsAll path above n ts).find? fun v => hit v.label).map Visit.place
  | [] => rfl
  | t :: ts => by
    rw [searchAll, visitsAll, List.find?_append, searchFrom_eq (path ++ [n]) above t, searchAll_eq path above (n + 1) ts]
    cases (visitsFrom (path ++ [n]) above t).find? fun v => hit v.label <;> rfl

end

theorem search_eq (t : Rose α) : searchFrom hit [] t = ((visits t).find? fun v => hit v.label).map Visit.place :=
  searchFrom_eq hit [] [] t

mutual

/-- below a hit nothing is first -/
theorem filter_first_of_hit (path : List ℕ) {above : List α} (h : above.all (fun a => !hit a) = false) : ∀ t : Rose α,
    (visitsFrom path above t).filter (Visit.first hit) = []
  | .node label children => by
    have hbelow : (above ++ [label]).all (fun a => !hit a) = false := by rw [List.all_append, h, Bool.false_and]
    rw [visitsFrom, List.filter_cons_of_neg (by simp [Visit.first, h])]
    exact filter_first_of_hit_all path hbelow 0 children

theorem filter_first_of_hit_all (path : List ℕ) {above : List α} (h : above.all (fun a => !hit a) = false) (n : ℕ) :
    ∀ ts : List (Rose α), (visitsAll path above n ts).filter (Visit.first hit) = []
  | [] => rfl
  | t :: ts => by
    rw [visitsAll, List.filter_append, filter_first_of_hit (path ++ [n]) h t, filter_first_of_hit_all path h (n + 1) ts]
    rfl

end

mutual

theorem pruneFrom_eq (path : List ℕ) {above : List α} (h : above.all (fun a => !hit a) = true) : ∀ t : Rose α,
    pruneFrom hit path t = ((visitsFrom path above t).filter (Visit.first hit)).map Visit.place
  | .node label children => by
    rw [pruneFrom, visitsFrom]
    cases hlabel : hit label with
    | true =>
      have hbelow : (above ++ [label]).all (fun a => !hit a) = false := by simp [hlabel]
      rw [List.filter_cons_of_pos (by simp [Visit.first, h, hlabel]), filter_first_of_hit_all hit path hbelow 0 children]
      rfl
    | false =>
      have habove : (above ++ [label]).all (fun a => !hit a) = true := by simp [h, hlabel]
      rw [List.filter_cons_of_neg (by simp [Visit.first, hlabel])]
      exact pruneAll_eq path habove 0 children

theorem pruneAll_eq (path : List ℕ) {above : List α} (h : above.all (fun a => !hit a) = true) (n : ℕ) :
    ∀ ts : List (Rose α), pruneAll hit path n ts = ((visitsAll path above n ts).filter (Visit.first hit)).map Visit.place
  | [] => rfl
  | t :: ts => by
    rw [pruneAll, visitsAll, List.filter_append, List.map_append, pruneFrom_eq (path ++ [n]) h t, pruneAll_eq path h (n + 1) ts]

end

theorem prune_eq (t : Rose α) : pruneFrom hit [] t = ((visits t).filter (Visit.first hit)).map Visit.place :=
  pruneFrom_eq hit [] rfl t

end

end Roses

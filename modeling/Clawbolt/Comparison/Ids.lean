/-
What a tool call is aimed at (services/model_comparison/checks.py): the record IDs and the file paths among its arguments.

The tables of Unicode and the text of a float are parameters. The schema of a params model is the names and the descriptions of its properties.
-/
import Mathlib.Tactic
import Clawbolt.Core.Json
import Clawbolt.Core.Orders
import Clawbolt.Core.Tokens

namespace Clawbolt.Checks

open Text (Str)

/-- what Python reads off the tables of Unicode, and `repr` of a float -/
structure Env where
  isDigit : Char → Bool
  isAlnum : Char → Bool
  lower : Str → Str
  casefold : Str → Str
  floatText : ℚ → Str

/-- the order of strings is by code point -/
def strLe : Str → Str → Bool
  | [], _ => true
  | _ :: _, [] => false
  | c :: s, d :: t => c.toNat < d.toNat || (c.toNat = d.toNat && strLe s t)

theorem weak_strLe : Orders.Weak strLe where
  total := by
    intro s
    induction s with
    | nil => exact fun t => .inl rfl
    | cons c s ih =>
      intro t
      cases t with
      | nil => exact .inr rfl
      | cons d t =>
        simp only [strLe, Bool.or_eq_true, Bool.and_eq_true, decide_eq_true_eq]
        obtain hlt | heq | hgt := lt_trichotomy c.toNat d.toNat
        · exact .inl (.inl hlt)
        · exact (ih t).imp (fun h => .inr ⟨heq, h⟩) fun h => .inr ⟨heq.symm, h⟩
        · exact .inr (.inl hgt)
  trans := by
    intro s
    induction s with
    | nil => exact fun _ _ _ _ => rfl
    | cons c s ih =>
      intro t u hst htu
      cases t with
      | nil => exact absurd hst Bool.false_ne_true
      | cons d t =>
        cases u with
        | nil => exact absurd htu Bool.false_ne_true
        | cons e u =>
          simp only [strLe, Bool.or_eq_true, Bool.and_eq_true, decide_eq_true_eq] at hst htu ⊢
          obtain hst | ⟨hcd, hst⟩ := hst
          · exact .inl (htu.elim (fun h => hst.trans h) fun h => h.1 ▸ hst)
          · rw [hcd]
            exact htu.imp id fun h => ⟨h.1, ih t u hst h.2⟩

theorem strLe_antisymm {s t : Str} (hst : strLe s t = true) (hts : strLe t s = true) : s = t := by
  induction s generalizing t with
  | nil =>
    cases t with
    | nil => rfl
    | cons d t => exact absurd hts Bool.false_ne_true
  | cons c s ih =>
    cases t with
    | nil => exact absurd hst Bool.false_ne_true
    | cons d t =>
      simp only [strLe, Bool.or_eq_true, Bool.and_eq_true, decide_eq_true_eq] at hst hts
      obtain hst | ⟨hcd, hst⟩ := hst
      · omega
      · obtain hts | ⟨-, hts⟩ := hts
        · omega
        · rw [Char.toNat_inj.1 hcd, ih hst hts]

/-! ## Names of parameters -/

/-- the characters that `re.IGNORECASE` takes for a lower-case letter -/
def isLetter (w c : Char) : Bool :=
  c = w || c = w.toUpper || (w = 'i' && (c.toNat = 0x130 || c.toNat = 0x131)) || (w = 's' && c.toNat = 0x17f)

/-- `$` matches at the end, and before a newline that ends the text -/
def ends (t : Str) : List Str := if t.getLast? = some '\n' then [t, t.dropLast] else [t]

/-- `(?:^|_)(?:…)$` with one of these words, whatever the case -/
def nameEndsWith (words : List Str) (name : Str) : Bool :=
  (ends name).any fun t => words.any fun w =>
    let front := t.take (t.length - w.length)
    let back := t.drop (t.length - w.length)
    back.length = w.length && (w.zip back).all (fun p => isLetter p.1 p.2) && (front = [] || front.getLast? = some '_')

/-- `_ID_NAME` -/
def idName (name : Str) : Bool :=
  nameEndsWith ["id".toList, "ids".toList, "ref".toList, "refs".toList, "uuid".toList] name

/-- `_PATH_NAME` -/
def pathName (name : Str) : Bool :=
  nameEndsWith ["path".toList, "paths".toList, "filename".toList, "filenames".toList] name

/-- `_ID_DESCRIPTION` -/
def idDescription (env : Env) (description : Str) : Bool :=
  ["ID".toList, "IDs".toList, "identifier".toList].any fun w =>
    Text.hasToken (fun c => env.isAlnum c || c = '_') w description

/-- `id_properties`: the names and descriptions of the schema of the params model, none when there is no schema -/
def idProperties (env : Env) (properties : Option (Dict Str)) : List Str :=
  ((properties.getD []).filter fun p => idName p.1 || idDescription env p.2).map Prod.fst

/-! ## Values -/

def looksLikeId (env : Env) (value : Str) : Bool :=
  3 ≤ value.length && value.length ≤ 128 && value.any env.isDigit && !value.any Text.isSpace && '@' ∉ value

def shapedId (env : Env) (text : Str) : List Str := if looksLikeId env text then [text] else []

/-- `str(n)` of an integer -/
def intText (n : ℤ) : Str := (toString n).toList

mutual

/-- `_id_values` -/
def idValues (env : Env) : Json → List Str
  | .int n => shapedId env (intText n)
  | .float x => if x.den = 1 then shapedId env (intText x.num) else []
  | .str s => shapedId env (Text.strip s)
  | .arr l => idValuesList env l
  | _ => []

def idValuesList (env : Env) : List Json → List Str
  | [] => []
  | a :: l => idValues env a ++ idValuesList env l

end

mutual

/-- what `collect_ids` finds under a key whose place is `place` -/
def nestedIds (env : Env) (place : Str) : Json → List (Str × Str)
  | .obj d => collectIds env [] (place ++ ['.']) d
  | .arr l => collectItems env (place ++ "[].".toList) l
  | _ => []

/-- the objects of a list -/
def collectItems (env : Env) (path : Str) : List Json → List (Str × Str)
  | [] => []
  | .obj d :: l => collectIds env [] path d ++ collectItems env path l
  | _ :: l => collectItems env path l

/-- `collect_ids`: the place and the value of every record ID -/
def collectIds (env : Env) (idKeys : List Str) (path : Str) : List (Str × Json) → List (Str × Str)
  | [] => []
  | (key, value) :: d =>
    (if key ∈ idKeys ∨ idName key then (idValues env value).map fun v => (path ++ key, v) else []) ++
      nestedIds env (path ++ key) value ++ collectIds env idKeys path d

end

/-- `re.sub(r"^(?:\.?/)+", "", text)` -/
def stripSeparators : Str → Str
  | '/' :: t => stripSeparators t
  | '.' :: '/' :: t => stripSeparators t
  | t => t

/-- `_path_target` -/
def pathTarget (env : Env) : Json → Option Str
  | .str s =>
    let text := stripSeparators (env.casefold (Text.strip s))
    if text = [] then none else some text
  | _ => none

/-- the paths that a parameter names -/
def pathTargets (env : Env) (key : Str) (value : Json) : List Str :=
  if pathName key then
    match value with
    | .arr l => l.filterMap (pathTarget env)
    | v => (pathTarget env v).toList
  else []

/-- `write_targets`, a set -/
def writeTargets (env : Env) (properties : Option (Dict Str)) (args : Dict Json) : List Str :=
  ((collectIds env (idProperties env properties) [] args).map Prod.snd ++
    args.flatMap fun kv => pathTargets env kv.1 kv.2).dedup

end Clawbolt.Checks

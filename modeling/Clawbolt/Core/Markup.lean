/-
Tags in a text, as the pattern `<[^>]+>` finds them, and runs of blanks and of line ends.
-/
import Mathlib.Tactic
import Clawbolt.Core.Text

namespace Markup

open Text (Str)

/-- the length of the tag that a text starts with -/
def tagLength : Str → Option ℕ
  | '<' :: cs =>
    let n := (cs.takeWhile (· ≠ '>')).length
    if 0 < n ∧ n < cs.length then some (n + 2) else none
  | _ => none

/-- `re.sub(r"<[^>]+>", new, t)`; the first `skip` characters are the rest of a tag -/
def replaceTags (new : Str) : ℕ → Str → Str
  | _, [] => []
  | skip + 1, _ :: cs => replaceTags new skip cs
  | 0, c :: cs =>
    match tagLength (c :: cs) with
    | some n => new ++ replaceTags new (n - 1) cs
    | none => c :: replaceTags new 0 cs

/-- `re.sub(r"[ \t]+", " ", t)` -/
def joinBlanks : Bool → Str → Str
  | _, [] => []
  | afterBlank, c :: cs =>
    if c = ' ' ∨ c = '\t' then if afterBlank then joinBlanks true cs else ' ' :: joinBlanks true cs
    else c :: joinBlanks false cs

/-- `re.sub(r"\n{3,}", "\n\n", t)`, after `n` line ends -/
def joinLineEnds : ℕ → Str → Str
  | _, [] => []
  | n, c :: cs =>
    if c = '\n' then if 2 ≤ n then joinLineEnds (n + 1) cs else c :: joinLineEnds (n + 1) cs
    else c :: joinLineEnds 0 cs

end Markup

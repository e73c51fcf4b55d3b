/-
Scalars in a text: quoted, plain and block ones. Line breaks inside a quoted or plain scalar fold: one break between
two words is a space, and of several breaks the first is dropped.
-/
import CompactSearch.Yaml.Character

namespace CompactSearch.Yaml

/-! ## Blanks and breaks between words -/

/-- What stands between two words of a scalar. -/
inductive Gap where
  /-- Blanks on the same line, the newest first. -/
  | inline (blanks : List Char)
  /-- A first break, none if it was escaped, and the breaks after it, the newest first. Blanks do not count here. -/
  | folded (first : Option Char) (more : List Char)
deriving DecidableEq, Repr

namespace Gap

def empty : Gap := inline []

def isEmpty : Gap → Bool
  | inline blanks => blanks.isEmpty
  | folded _ _ => false

def hasBreak : Gap → Bool
  | inline _ => false
  | folded _ _ => true

def addBlank (c : Char) : Gap → Gap
  | inline blanks => inline (c :: blanks)
  | folded first more => folded first more

def addBreak (c : Char) : Gap → Gap
  | inline _ => folded (some c) []
  | folded first more => folded first (c :: more)

/-- What the gap adds to the scalar. -/
def text : Gap → List Char
  | inline blanks => blanks.reverse
  | folded (some c) more =>
    if c = '\n' then (if more.isEmpty then [' '] else more.reverse) else c :: more.reverse
  | folded none more => more.reverse

end Gap

/-- A scalar that has been read: its text, the position after it and the characters left. -/
structure Scanned where
  text : List Char
  position : Position
  rest : List Char
deriving DecidableEq, Repr

namespace Scanned

/-- Puts characters in front of the text. -/
def prepend (cs : List Char) (s : Scanned) : Scanned := { s with text := cs ++ s.text }

end Scanned

/-! ## Quoted scalars -/

/-- The value of a list of hexadecimal digits. -/
def hexadecimal? (cs : List Char) : Option Nat :=
  cs.foldlM (fun n c =>
    if c.isDigit then some (16 * n + (c.toNat - '0'.toNat))
    else if 'a' ≤ c ∧ c ≤ 'f' then some (16 * n + (c.toNat - 'a'.toNat + 10))
    else if 'A' ≤ c ∧ c ≤ 'F' then some (16 * n + (c.toNat - 'A'.toNat + 10))
    else none) 0

/-- The letters that stand for a character after a backslash. -/
def escapeLetters : List (Char × Char) := [
  ('0', '\x00'), ('a', '\x07'), ('b', '\x08'), ('t', '\t'), ('\t', '\t'), ('n', '\n'), ('v', '\x0b'),
  ('f', '\x0c'), ('r', '\r'), ('e', '\x1b'), (' ', ' '), ('"', '"'), ('/', '/'), ('\\', '\\'),
  ('N', '\u0085'), ('_', '\u00a0'), ('L', '\u2028'), ('P', '\u2029')]

/-- The number of hexadecimal digits after a letter that announces a code. -/
def codeLength? (c : Char) : Option Nat :=
  if c = 'x' then some 2 else if c = 'u' then some 4 else if c = 'U' then some 8 else none

/-- The character that a letter after a backslash stands for, and how many characters behind the letter belong to it. -/
def escaped? (c : Char) (r : List Char) : Option (Char × Nat) :=
  match escapeLetters.lookup c with
  | some x => some (x, 0)
  | none =>
    match codeLength? c with
    | none => none
    | some n =>
      if (r.take n).length < n then none
      else
        match hexadecimal? (r.take n) with
        | none => none
        | some code => if code.isValidChar then some (Char.ofNat code, n) else none

/-- The rest of a quoted scalar, after its opening quote. In single quotes a quote is written twice; in double quotes
a backslash starts an escape or hides a line break. -/
def quoted (single : Bool) (gap : Gap) (p : Position) (cs : List Char) : Option Scanned :=
  match cs with
  | [] => none
  | c :: r =>
    if isBlank c then quoted single (gap.addBlank c) (p.after c) r
    else if isBreak c then quoted single (gap.addBreak c) (p.after c) r
    else if p.column = 0 ∧ isMarker (c :: r) then none
    else if c = (if single then '\'' else '"') then
      if single ∧ r.head? = some '\'' then
        (quoted single .empty (p.right 2) (r.drop 1)).map (.prepend (gap.text ++ ['\'']))
      else some ⟨gap.text, p.after c, r⟩
    else if !single ∧ c = '\\' then
      match r with
      | [] => none
      | d :: r' =>
        if isBreak d then
          (quoted single (.folded none []) ((p.after c).after d) r').map (.prepend gap.text)
        else
          match escaped? d r' with
          | none => none
          | some (x, n) =>
            (quoted single .empty (p.right (2 + n)) (r'.drop n)).map (.prepend (gap.text ++ [x]))
    else (quoted single .empty (p.after c) r).map (.prepend (gap.text ++ [c]))
termination_by cs.length
decreasing_by all_goals simp only [List.length_drop, List.length_cons]; omega

/-! ## Plain scalars -/

/-- The characters that end a plain scalar inside brackets. -/
def isFlowIndicator (c : Char) : Bool := ",[]\x7b\x7d".toList.contains c

/-- Whether a plain scalar can start with the character `c` in front of the text `r`. -/
def startsPlain (flow : Bool) (c : Char) (r : List Char) : Bool :=
  if c = '-' then !endsWord r
  else if c = '?' ∨ c = ':' then !flow && !endsWord r
  else !(isBlank c || isBreak c || isFlowIndicator c || "#&*!|>'\"%@\x60".toList.contains c)

/-- A plain scalar with the fact whether a line break was met behind its last word. -/
structure ScannedPlain extends Scanned where
  crossedBreak : Bool
deriving DecidableEq, Repr

namespace ScannedPlain

def prepend (cs : List Char) (s : ScannedPlain) : ScannedPlain := { s with text := cs ++ s.text }

end ScannedPlain

/-- A plain scalar. It ends in front of a comment, of a colon with a blank behind it, of a document mark, of a line that
is indented by less than `indent`, and inside brackets in front of a comma or a bracket. -/
def plain (flow : Bool) (indent : Nat) (gap : Gap) (p : Position) (cs : List Char) : Option ScannedPlain :=
  match cs with
  | [] => some ⟨⟨[], p, []⟩, gap.hasBreak⟩
  | c :: r =>
    let stop : Option ScannedPlain := some ⟨⟨[], p, c :: r⟩, gap.hasBreak⟩
    if isBlank c then
      if gap.hasBreak ∧ p.column < indent ∧ c = '\t' then none
      else plain flow indent (gap.addBlank c) (p.after c) r
    else if isBreak c then plain flow indent (gap.addBreak c) (p.after c) r
    else if gap.hasBreak ∧ !flow ∧ p.column < indent then stop
    else if p.column = 0 ∧ isMarker (c :: r) then stop
    else if c = '#' ∧ !gap.isEmpty then stop
    else if flow ∧ c = ':' ∧ (r.head?.map fun d => d == '?' || isFlowIndicator d).getD false then none
    else if (c = ':' ∧ endsWord r) ∨ (flow ∧ isFlowIndicator c) then stop
    else (plain flow indent .empty (p.after c) r).map (.prepend (gap.text ++ [c]))

/-! ## Block scalars -/

/-- What happens to the line breaks at the end of a block scalar. -/
inductive Chomping where
  | strip
  | clip
  | keep
deriving DecidableEq, Repr

/-- The header of a block scalar: an optional mark for its end and an optional indentation, in either order. Answers
both with the number of characters they take. -/
def blockHeader? (cs : List Char) : Option (Chomping × Option Nat × Nat) :=
  let chomping? (c : Char) : Option Chomping :=
    if c = '+' then some .keep else if c = '-' then some .strip else none
  let digit? (c : Char) : Option Nat := if c.isDigit then some (c.toNat - '0'.toNat) else none
  let found := match cs with
    | [] => (.clip, none, 0)
    | c :: r =>
      match chomping? c, digit? c with
      | some ch, _ =>
        match r.head?.bind digit? with
        | some n => (ch, some n, 2)
        | none => (ch, none, 1)
      | none, some n =>
        match r.head?.bind chomping? with
        | some ch => (ch, some n, 2)
        | none => (.clip, some n, 1)
      | none, none => (.clip, none, 0)
  if found.2.1 = some 0 then none else some found

/-- What stands in front of a line of a block scalar. -/
structure LineStart where
  breaks : List Char
  /-- The greatest column reached by spaces alone. -/
  reached : Nat
  position : Position
  rest : List Char
deriving DecidableEq, Repr

/-- Skips empty lines and the indentation of the next line. Without an `indent` all spaces belong to the indentation. -/
def lineStart (indent : Option Nat) (reached : Nat) (p : Position) : List Char → Option LineStart
  | [] => some ⟨[], max reached p.column, p, []⟩
  | c :: r =>
    let inIndent := (indent.map fun n => decide (p.column < n)).getD true
    if c = ' ' ∧ inIndent then lineStart indent reached (p.after c) r
    else if c = '\t' ∧ inIndent then none
    else if isBreak c then
      (lineStart indent (max reached p.column) (p.after c) r).map fun s => { s with breaks := c :: s.breaks }
    else some ⟨[], max reached p.column, p, c :: r⟩

/-- The lines of a block scalar that are indented by `indent`. `before` holds the break that ended the line before and
`empty` the breaks of empty lines since; both are still open when the lines end. -/
def blockLines (folds : Bool) (chomping : Chomping) (indent : Nat) :
    (fuel : Nat) → (afterBlank : Bool) → (before empty : List Char) → Position → List Char → Option Scanned
  | 0, _, _, _, _, _ => none
  | fuel + 1, afterBlank, before, empty, p, cs =>
    if p.column = indent ∧ !cs.isEmpty then
      let line := cs.takeWhile (!isBreak ·)
      let blank := (line.head?.map isBlank).getD false
      let joint :=
        if folds ∧ before = ['\n'] ∧ !afterBlank ∧ !blank then (if empty.isEmpty then [' '] else []) else before
      let after := cs.drop line.length
      let p' := if after.isEmpty then p.right line.length else ⟨p.line + 1, 0⟩
      match lineStart (some indent) 0 p' (after.drop 1) with
      | none => none
      | some s =>
        (blockLines folds chomping indent fuel blank (after.take 1) s.breaks s.position s.rest).map
          (.prepend (joint ++ empty ++ line))
    else
      let tail := (if chomping = .strip then [] else before) ++ (if chomping = .keep then empty else [])
      some ⟨tail, p, cs⟩

/-- A block scalar, after its first character. Content is indented by at least `base`, and a given indentation counts
from the collection around it. -/
def blockScalar (folds : Bool) (base : Nat) (p : Position) (cs : List Char) : Option Scanned :=
  match blockHeader? cs with
  | none => none
  | some (chomping, increment, width) =>
    let afterHeader := cs.drop width
    let blanks := afterHeader.takeWhile isBlank
    let comment :=
      if (afterHeader.drop blanks.length).head? = some '#' then
        (afterHeader.drop blanks.length).takeWhile (!isBreak ·)
      else []
    let skipped := width + blanks.length + comment.length
    match cs.drop skipped with
    | [] => some ⟨[], p.right skipped, []⟩
    | c :: r =>
      if !isBreak c then none
      else
        let given := increment.map fun n => base - 1 + n
        match lineStart given 0 ⟨p.line + 1, 0⟩ r with
        | none => none
        | some s =>
          let indent := given.getD (max (max s.reached base) 1)
          blockLines folds chomping indent (r.length + 1) false [] s.breaks s.position s.rest

end CompactSearch.Yaml

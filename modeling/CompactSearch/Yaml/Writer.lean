/-
Scalars as they are written: plain where that reads back as the same text and is not taken for another type, otherwise
in quotes, and as a literal block where the text has several lines.
-/
import CompactSearch.Yaml.Character

namespace CompactSearch.Yaml

/-- How a scalar is written. -/
inductive Style where
  | plain
  | singleQuoted
  | doubleQuoted
  | literal
deriving DecidableEq, Repr

/-! ## What a text allows -/

/-- Characters that can be written as they are; the others need an escape. -/
def isPrintable (c : Char) : Bool :=
  let n := c.toNat
  n == 0xa || (0x20 ≤ n && n ≤ 0x7e) || (0xa0 ≤ n && n ≤ 0xd7ff) || (0xe000 ≤ n && n ≤ 0xfffd && n != 0xfeff)

/-- Whether a character that `p` accepts stands right in front of one that `q` accepts. -/
def hasAdjacent (p q : Char → Bool) : List Char → Bool
  | c :: d :: cs => (p c && q d) || hasAdjacent p q (d :: cs)
  | _ => false

/-- Whether the text needs escapes: characters that cannot be printed, or a space in front of a break, which reading
would drop. -/
def needsEscapes (cs : List Char) : Bool := cs.any (!isPrintable ·) || hasAdjacent (· == ' ') isBreak cs

/-- Characters that mean something else at the start of a plain scalar. -/
def isLeadingIndicator (c : Char) : Bool := "#,[]\x7b\x7d&*!|>'\"%@\x60".toList.contains c

/-- Whether a comment or a mapping would start inside the text: a sharp with a blank in front of it, or a colon with a
blank or the end behind it. `afterBlank` tells what stands in front of the text. -/
def hasInnerIndicator (afterBlank : Bool) : List Char → Bool
  | [] => false
  | c :: cs =>
    (c == ':' && endsWord cs) || (c == '#' && afterBlank) || hasInnerIndicator (isBlank c || isBreak c) cs

/-- Whether the text can be written plain. -/
def allowsPlain (cs : List Char) : Bool :=
  match cs with
  | [] => true
  | c :: r =>
    !(c == ' ' || cs.getLast? == some ' ' || cs.any isBreak || needsEscapes cs ||
      ['-', '-', '-'].isPrefixOf cs || ['.', '.', '.'].isPrefixOf cs || isLeadingIndicator c ||
      ((c == '?' || c == '-') && endsWord r) || hasInnerIndicator false cs)

/-- Plain texts that are read as a truth value or as null by some reader. -/
def reservedWords : List String := ["true", "false", "null", "~", "y", "yes", "n", "no", "on", "off"]

/-- Whether a plain text could be taken for another type than text. -/
def looksTyped (cs : List Char) : Bool :=
  match cs with
  | [] => true
  | c :: _ =>
    c.isDigit || c == '-' || c == '.' || c == '+' || reservedWords.contains (String.ofList (cs.map Char.toLower))

/-- The style of a text. -/
def styleOf (cs : List Char) : Style :=
  if cs.contains '\n' then
    if needsEscapes cs || cs.getLast? == some ' ' then .doubleQuoted else .literal
  else if !looksTyped cs && allowsPlain cs then .plain
  else if needsEscapes cs || hasAdjacent isBreak (· == ' ') cs then .doubleQuoted
  else .singleQuoted

/-! ## Texts -/

def spaces (n : Nat) : List Char := List.replicate n ' '

/-- The text between single quotes. A line after a break is indented, and a quote is written twice. -/
def singleQuotedBody (indent : Nat) (afterBreak : Bool) : List Char → List Char
  | [] => if afterBreak then spaces indent else []
  | c :: cs =>
    if isBreak c then c :: singleQuotedBody indent true cs
    else
      (if afterBreak then spaces indent else []) ++ (if c = '\'' then ['\'', '\''] else [c]) ++
        singleQuotedBody indent false cs

/-- The letters that stand for a character after a backslash. -/
def shortEscapes : List (Char × Char) := [
  ('\x00', '0'), ('\x07', 'a'), ('\x08', 'b'), ('\t', 't'), ('\n', 'n'), ('\x0b', 'v'), ('\x0c', 'f'),
  ('\r', 'r'), ('\x1b', 'e'), ('"', '"'), ('\\', '\\'), ('\u0085', 'N'), ('\u2028', 'L'), ('\u2029', 'P')]

/-- The upper-case hexadecimal digits of a number, filled with zeros to a width. -/
def upperHex (width n : Nat) : List Char :=
  let ds := (Nat.toDigits 16 n).map Char.toUpper
  List.replicate (width - ds.length) '0' ++ ds

/-- A character between double quotes. -/
def doubleQuotedForm (c : Char) : List Char :=
  match shortEscapes.lookup c with
  | some x => ['\\', x]
  | none =>
    if isPrintable c then [c]
    else if c.toNat ≤ 0xff then '\\' :: 'x' :: upperHex 2 c.toNat
    else if c.toNat ≤ 0xffff then '\\' :: 'u' :: upperHex 4 c.toNat
    else '\\' :: 'U' :: upperHex 8 c.toNat

/-- The lines of a literal block; empty lines are not indented. -/
def literalBody (indent : Nat) (afterBreak : Bool) : List Char → List Char
  | [] => []
  | c :: cs =>
    if isBreak c then c :: literalBody indent true cs
    else (if afterBreak then spaces indent else []) ++ c :: literalBody indent false cs

/-- What the header of a literal block says about the end of the text: nothing if it ends in one break behind something
else, a minus if in none, and a plus otherwise. -/
def chompingMark (cs : List Char) : List Char :=
  match cs.reverse with
  | [] => ['-']
  | c :: r => if !isBreak c then ['-'] else if (r.head?.map isBreak).getD true then ['+'] else []

/-- What the header of a literal block says about the indentation: it is given where the text starts with a space or a
break. -/
def indentationMark (cs : List Char) : List Char :=
  match cs with
  | [] => []
  | c :: _ => if c == ' ' || isBreak c then ['2'] else []

/-- A scalar with the break that ends its last line. Further lines are indented by `indent`, two columns deeper than the
collection around the scalar. -/
def scalarLine (indent : Nat) (s : String) : List Char :=
  let cs := s.toList
  match styleOf cs with
  | .plain => cs ++ ['\n']
  | .singleQuoted => '\'' :: singleQuotedBody indent false cs ++ ['\'', '\n']
  | .doubleQuoted => '"' :: cs.flatMap doubleQuotedForm ++ ['"', '\n']
  | .literal =>
    '|' :: indentationMark cs ++ chompingMark cs ++ '\n' :: literalBody indent true cs ++
      (if (cs.getLast?.map isBreak).getD false then [] else ['\n'])

end CompactSearch.Yaml

/-
Character classes of YAML and positions in a text.
-/
namespace CompactSearch.Yaml

/-! ## Classes -/

/-- A space or a tab. -/
def isBlank (c : Char) : Bool := c == ' ' || c == '\t'

/-- A line break, once all breaks of one character or two have been made line feeds; the line and paragraph
separators stay what they are. -/
def isBreak (c : Char) : Bool := c == '\n' || c == '\u2028' || c == '\u2029'

def byteOrderMark : Char := '\ufeff'

/-- The characters that may stand in a text. -/
def isAllowed (c : Char) : Bool :=
  let n := c.toNat
  n == 0x9 || n == 0xa || n == 0xd || (0x20 ≤ n && n ≤ 0x7e) || n == 0x85 || (0xa0 ≤ n && n ≤ 0xd7ff) ||
    (0xe000 ≤ n && n ≤ 0xfffd) || 0x10000 ≤ n

/-- The characters of the name of an anchor. -/
def isNameChar (c : Char) : Bool := c.isAlphanum || c == '_' || c == '-'

/-- Whether the text is at its end or goes on with a blank or a break. -/
def endsWord : List Char → Bool
  | [] => true
  | c :: _ => isBlank c || isBreak c

/-- Whether the text starts with the mark of a new document. -/
def startsDocument (cs : List Char) : Bool := ['-', '-', '-'].isPrefixOf cs && endsWord (cs.drop 3)

/-- Whether the text starts with the mark of the end of a document. -/
def endsDocument (cs : List Char) : Bool := ['.', '.', '.'].isPrefixOf cs && endsWord (cs.drop 3)

/-- Whether the text starts with the mark of a new document or of the end of one. -/
def isMarker (cs : List Char) : Bool := startsDocument cs || endsDocument cs

/-- The text with a line feed for each carriage return, pair of both and next-line control. -/
def normalizeBreaks : List Char → List Char
  | [] => []
  | '\r' :: '\n' :: cs => '\n' :: normalizeBreaks cs
  | c :: cs => (if c = '\r' ∨ c = '\u0085' then '\n' else c) :: normalizeBreaks cs

/-! ## Positions -/

/-- A place in a text: its line and its column, both from zero. -/
structure Position where
  line : Nat
  column : Nat
deriving DecidableEq, Repr

namespace Position

def start : Position := ⟨0, 0⟩

/-- The position a number of characters further on the same line. -/
def right (p : Position) (n : Nat) : Position := { p with column := p.column + n }

/-- The position after a character. -/
def after (p : Position) (c : Char) : Position := if isBreak c then ⟨p.line + 1, 0⟩ else p.right 1

end Position

end CompactSearch.Yaml

/-
The tokens of a text. Each token takes the longest spelling that starts at its position, the spellings follow
each other without gaps, and the first place that starts no token decides the error.
-/
import CompactSearch.Query.Dialect
import CompactSearch.Query.Error

namespace CompactSearch.Lexer

/-! ## Quoted values -/

/-- Reads one closing quote per open level, the innermost first, and answers the error if one is missing. `start` is
the position of the outermost opening quote, `p` that of the next character. -/
def closingError? (start : Nat) : (levels p : Nat) → List Char → Option ParseError
  | 0, _, _ => none
  | level + 1, _, [] => some (.unterminatedQuote (start + level))
  | level + 1, p, c :: r =>
    if c = '"' then closingError? start level (p + 1) r
    else some (.unexpected p (.char c) .closingQuote)

/-- Reads a value in quotes from the text `cs` at position `p`, which starts with a quote. Quotes nest, so the run
between the opening and the closing quotes is the value however many there are of each. The answer holds the value
and the number of characters read. -/
def readQuoted (d : Dialect) (p : Nat) (cs : List Char) : Except ParseError (Value × Nat) :=
  let levels := (cs.takeWhile (· == '"')).length
  match cs.drop levels with
  | [] => .error (.unterminatedQuote (p + levels - 1))
  | c :: r =>
    let run := (c :: r).takeWhile (!d.isReserved ·)
    if run.isEmpty then .error (.unexpected (p + levels) (.char c) .value)
    else
      match closingError? p levels (p + levels + run.length) ((c :: r).drop run.length) with
      | some e => .error e
      | none => .ok (.ofRun (String.ofList run), levels + run.length + levels)

/-! ## Tokens -/

/-- The token that starts with the character `c` at position `p` before the text `r`, and how many characters of
`r` it takes. `leafStart` says whether a leaf can start here. -/
def firstToken (d : Dialect) (leafStart : Bool) (p : Nat) (c : Char) (r : List Char) :
    Except ParseError (Token × Nat) :=
  if c = ' ' then
    if ['O', 'R', ' '].isPrefixOf r then .ok (.or, 3) else .ok (.space, 0)
  else if c = '(' then .ok (.openGroup, 0)
  else if c = ')' then .ok (.closeGroup, 0)
  else if c = ':' then .ok (.op .default, 0)
  else if c = '=' then .ok (.op .eq, 0)
  else if c = '>' then
    if r.head? = some '=' then .ok (.op .gte, 1) else .ok (.op .gt, 0)
  else if c = '<' then
    if r.head? = some '=' then .ok (.op .lte, 1) else .ok (.op .lt, 0)
  else if c = '"' then
    (readQuoted d p (c :: r)).map fun (v, n) => (.value v, n - 1)
  else if c = '-' ∧ d.hasNegation ∧ leafStart then .ok (.minus, 0)
  else if d.isReserved c then .error (.unexpected p (.char c) .value)
  else
    let more := r.takeWhile (!d.isReserved ·)
    .ok (.value (.ofRun (String.ofList (c :: more))), more.length)

/-- The tokens of the text `cs`, which starts at position `p`. -/
def tokensFrom (d : Dialect) (leafStart : Bool) (p : Nat) (cs : List Char) : Except ParseError (List Placed) :=
  match cs with
  | [] => .ok []
  | c :: r =>
    match firstToken d leafStart p c r with
    | .error e => .error e
    | .ok (t, n) => (tokensFrom d t.precedesLeaf (p + 1 + n) (r.drop n)).map (⟨t, p⟩ :: ·)
termination_by cs.length
decreasing_by simp only [List.length_drop, List.length_cons]; omega

/-- The tokens of a text with their positions. -/
def tokens (d : Dialect) (s : String) : Except ParseError (List Placed) := tokensFrom d true 0 s.toList

end CompactSearch.Lexer

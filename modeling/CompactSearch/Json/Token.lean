/-
The tokens of a JSON text. A value without parts is read in one of two ways, as data or only to get past it, and the
two refuse different texts; a token keeps the answer to both, so that whoever uses it takes the one that applies. The
tokens end where no reading can go on.
-/
import CompactSearch.Decimal.Binary64

namespace CompactSearch.Json

/-- Why a JSON text could not be read as the data wanted. -/
inductive ReadError where
  /-- Well-formed so far, but not the data wanted. -/
  | wrongData
  | malformed
  | endOfInput
deriving DecidableEq, Repr

inductive Token where
  | openArray
  | closeArray
  | openObject
  | closeObject
  | comma
  | colon
  /-- A string: what it holds when it is read as data, and why it could not be passed over, if so. -/
  | string (data : Except ReadError String) (skipError : Option ReadError)
  /-- A word, a number or a stray character: whether it is null when it is read as data, and why it could not be passed
  over, if so. -/
  | plain (isNull : Except ReadError Bool) (skipError : Option ReadError)
deriving Repr

/-- JSON's own white space. -/
def isSpace (c : Char) : Bool := c == ' ' || c == '\n' || c == '\t' || c == '\r'

/-! ## Strings -/

/-- The value of a hexadecimal digit. -/
def hexValue? (c : Char) : Option Nat :=
  if '0' ≤ c ∧ c ≤ '9' then some (c.toNat - '0'.toNat)
  else if 'a' ≤ c ∧ c ≤ 'f' then some (c.toNat - 'a'.toNat + 10)
  else if 'A' ≤ c ∧ c ≤ 'F' then some (c.toNat - 'A'.toNat + 10)
  else none

/-- The number that the next four hexadecimal digits spell. The text ends too early if fewer than four bytes are
left. -/
def hexCode (cs : List Char) : Except ReadError Nat :=
  match (cs.take 4).mapM hexValue? with
  | some [a, b, c, d] => .ok (((a * 16 + b) * 16 + c) * 16 + d)
  | _ =>
    if ((cs.take 4).map Char.utf8Size).foldl (· + ·) 0 < 4 then .error .endOfInput else .error .malformed

/-- The character that a one-letter escape stands for. -/
def shortEscape? (c : Char) : Option Char :=
  if c = '"' ∨ c = '\\' ∨ c = '/' then some c
  else if c = 'b' then some '\x08'
  else if c = 'f' then some '\x0c'
  else if c = 'n' then some '\n'
  else if c = 'r' then some '\r'
  else if c = 't' then some '\t'
  else none

/-- The character that an escape stands for, read after its backslash, and the number of characters it takes. Codes
beyond the first plane are written as two halves, and a half alone is malformed. -/
def escape (cs : List Char) : Except ReadError (Char × Nat) :=
  match cs with
  | [] => .error .endOfInput
  | c :: r =>
    if c = 'u' then
      match hexCode r with
      | .error e => .error e
      | .ok n =>
        if 0xdc00 ≤ n ∧ n ≤ 0xdfff then .error .malformed
        else if 0xd800 ≤ n ∧ n ≤ 0xdbff then
          match r.drop 4 with
          | [] => .error .endOfInput
          | ['\\'] => .error .endOfInput
          | '\\' :: 'u' :: r' =>
            match hexCode r' with
            | .error e => .error e
            | .ok m =>
              if 0xdc00 ≤ m ∧ m ≤ 0xdfff then
                .ok (Char.ofNat (0x10000 + (n - 0xd800) * 0x400 + (m - 0xdc00)), 11)
              else .error .malformed
          | _ => .error .malformed
        else .ok (Char.ofNat n, 5)
    else
      match shortEscape? c with
      | some x => .ok (x, 1)
      | none => .error .malformed

/-- The characters of a string and the text after it, read after the opening quote. -/
def readString (cs : List Char) : Except ReadError (List Char × List Char) :=
  match cs with
  | [] => .error .endOfInput
  | c :: r =>
    if c = '"' then .ok ([], r)
    else if c = '\\' then
      match escape r with
      | .error e => .error e
      | .ok (x, n) => (readString (r.drop n)).map fun (s, rest) => (x :: s, rest)
    else if c.toNat < 0x20 then .error .malformed
    else (readString r).map fun (s, rest) => (c :: s, rest)
termination_by cs.length
decreasing_by all_goals simp only [List.length_drop, List.length_cons]; omega

/-- The text after a string of which only the form matters, read after the opening quote. -/
def skipString (cs : List Char) : Except ReadError (List Char) :=
  match cs with
  | [] => .error .endOfInput
  | c :: r =>
    if c = '"' then .ok r
    else if c = '\\' then
      match r with
      | [] => .error .endOfInput
      | d :: r' =>
        if d = 'u' then
          match hexCode r' with
          | .error e => .error e
          | .ok _ => skipString (r'.drop 4)
        else if (shortEscape? d).isSome then skipString r'
        else .error .malformed
    else if c.toNat < 0x20 then .error .malformed
    else skipString r
termination_by cs.length
decreasing_by all_goals simp only [List.length_drop, List.length_cons]; omega

/-! ## Words and numbers -/

/-- Checks that a word goes on as expected. -/
def wordError? : List Char → List Char → Option ReadError
  | [], _ => none
  | _ :: _, [] => some .endOfInput
  | e :: es, c :: cs => if e = c then wordError? es cs else some .malformed

/-- The error of a number that lacks a digit in front of the given text: the end of the text is an error of its own only
where the number is read as data. -/
def missingDigit (rest : List Char) : ReadError × ReadError :=
  (if rest.isEmpty then .endOfInput else .malformed, .malformed)

/-- What is wrong with the exponent at the start of a text, if there is one: when read as data and when passed over. -/
def exponentError? (cs : List Char) : Option (ReadError × ReadError) :=
  match cs with
  | c :: r =>
    if c = 'e' ∨ c = 'E' then
      let r' := match r with
        | s :: r' => if s = '+' ∨ s = '-' then r' else r
        | [] => []
      if (r'.takeWhile Char.isDigit).isEmpty then some (missingDigit r') else none
    else none
  | [] => none

/-- The exponent at the start of a text, zero if there is none, and the number of characters it takes. -/
def exponent (cs : List Char) : Int × Nat :=
  match cs with
  | c :: r =>
    if c = 'e' ∨ c = 'E' then
      let (negative, signs) := match r with
        | s :: _ => (s == '-', if s = '+' ∨ s = '-' then 1 else 0)
        | [] => (false, 0)
      let ds := (r.drop signs).takeWhile Char.isDigit
      (if negative then -digitsValue ds else digitsValue ds, 1 + signs + ds.length)
    else (0, 0)
  | [] => (0, 0)

/-- The number at the start of a text without its sign: an error as data, an error when passed over, and the number of
characters it takes. A number beyond the floating-point range is not data. -/
def number (cs : List Char) : Option ReadError × Option ReadError × Nat :=
  let whole := cs.takeWhile Char.isDigit
  let rest := cs.drop whole.length
  let both (e : ReadError × ReadError) : Option ReadError × Option ReadError × Nat := (some e.1, some e.2, 0)
  if whole.isEmpty then both (missingDigit rest)
  else if whole.head? = some '0' ∧ 1 < whole.length then both (.malformed, .malformed)
  else
    let fraction := match rest with
      | '.' :: r => some (r.takeWhile Char.isDigit)
      | _ => none
    let pointWidth := match fraction with
      | some ds => 1 + ds.length
      | none => 0
    let afterFraction := rest.drop pointWidth
    if fraction = some [] then both (missingDigit afterFraction)
    else
      match exponentError? afterFraction with
      | some e => both e
      | none =>
        let (power, width) := exponent afterFraction
        let ds := fraction.getD []
        let inRange := (Magnitude.ofDecimal? (digitsValue (whole ++ ds)) (power - ds.length)).isSome
        (if inRange then none else some .malformed, none, whole.length + pointWidth + width)

/-! ## Tokens -/

/-- A token for a word, with the number of characters it takes after its first one. -/
def wordToken (word : List Char) (isNull : Bool) (r : List Char) : Token × Nat :=
  match wordError? word r with
  | some e => (.plain (.error e) (some e), 0)
  | none => (.plain (.ok isNull) none, word.length)

/-- A token for a number; `sign` is the number of characters of its sign. -/
def numberToken (sign : Nat) (cs : List Char) : Token × Nat :=
  let (dataError, skipError, width) := number cs
  (.plain (match dataError with | some e => .error e | none => .ok false) skipError, sign + width - 1)

/-- A token for a string, read after its opening quote. -/
def stringToken (r : List Char) : Token × Nat :=
  let data := (readString r).map fun (s, _) => String.ofList s
  match skipString r with
  | .error e => (.string data (some e), 0)
  | .ok rest => (.string data none, r.length - rest.length)

/-- The token that starts with the character `c` in front of the text `r`, and the number of characters of `r` that it
takes. -/
def firstToken (c : Char) (r : List Char) : Token × Nat :=
  if c = '[' then (.openArray, 0)
  else if c = ']' then (.closeArray, 0)
  else if c = '\x7b' then (.openObject, 0)
  else if c = '\x7d' then (.closeObject, 0)
  else if c = ',' then (.comma, 0)
  else if c = ':' then (.colon, 0)
  else if c = '"' then stringToken r
  else if c = 'n' then wordToken "ull".toList true r
  else if c = 't' then wordToken "rue".toList false r
  else if c = 'f' then wordToken "alse".toList false r
  else if c = '-' then numberToken 1 r
  else if c.isDigit then numberToken 0 (c :: r)
  else (.plain (.error .malformed) (some .malformed), 0)

/-- Whether reading can go on after a token. -/
def Token.isPassable : Token → Bool
  | .string _ (some _) => false
  | .plain _ (some _) => false
  | _ => true

/-- The tokens of a text, up to the first that nothing can follow. -/
def tokens (cs : List Char) : List Token :=
  match cs with
  | [] => []
  | c :: r =>
    if isSpace c then tokens r
    else
      let (t, n) := firstToken c r
      if t.isPassable then t :: tokens (r.drop n) else [t]
termination_by cs.length
decreasing_by all_goals simp only [List.length_drop, List.length_cons]; omega

end CompactSearch.Json

/-
JSON values with ordered object fields, and their compact and indented texts.
-/
import CompactSearch.Decimal.Shortest

namespace CompactSearch

/-- A JSON value; the fields of an object keep their order. -/
inductive Json where
  | null
  | boolean (b : Bool)
  | integer (n : Int)
  | float (x : Binary64)
  | string (s : String)
  | array (items : List Json)
  | object (fields : List (String × Json))
deriving Repr

namespace Json

/-! ## Strings -/

/-- A four-digit hexadecimal code. -/
def hex4 (n : Nat) : String :=
  let ds := Nat.toDigits 16 n
  String.ofList (List.replicate (4 - ds.length) '0' ++ ds)

/-- A character inside a JSON string: quotes, backslashes and the ASCII controls are escaped, all else stands for
itself. -/
def escapedForm (c : Char) : String :=
  if c = '"' then "\\\""
  else if c = '\\' then "\\\\"
  else if c = '\n' then "\\n"
  else if c = '\r' then "\\r"
  else if c = '\t' then "\\t"
  else if c = '\x08' then "\\b"
  else if c = '\x0c' then "\\f"
  else if c.toNat < 0x20 then "\\u" ++ hex4 c.toNat
  else c.toString

/-- A JSON string literal. -/
def quote (s : String) : String := "\"" ++ String.join (s.toList.map escapedForm) ++ "\""

/-! ## Texts -/

/-- The text of a number; infinity has no JSON form and is written as null. -/
def floatText (x : Binary64) : String := if x.isInfinite then "null" else x.text

mutual

/-- The text without any white space. -/
def compact : Json → String
  | null => "null"
  | boolean b => if b then "true" else "false"
  | integer n => toString n
  | float x => floatText x
  | string s => quote s
  | array items => "[" ++ ",".intercalate (compactItems items) ++ "]"
  | object fields => "\x7b" ++ ",".intercalate (compactFields fields) ++ "\x7d"

def compactItems : List Json → List String
  | [] => []
  | v :: vs => compact v :: compactItems vs

def compactFields : List (String × Json) → List String
  | [] => []
  | (k, v) :: fs => (quote k ++ ":" ++ compact v) :: compactFields fs

end

/-- Lines between an opening and a closing bracket, indented below the bracket; nothing between the brackets if there
are no lines. -/
def bracketed (opening closing : String) (depth : Nat) (lines : List String) : String :=
  let indent (n : Nat) := String.ofList (List.replicate (2 * n) ' ')
  if lines.isEmpty then opening ++ closing
  else opening ++ "\n" ++ indent (depth + 1) ++ (",\n" ++ indent (depth + 1)).intercalate lines ++ "\n" ++
    indent depth ++ closing

mutual

/-- The text with one item or field on a line, two spaces deeper than the bracket around it. -/
def indented (depth : Nat) : Json → String
  | array items => bracketed "[" "]" depth (indentedItems (depth + 1) items)
  | object fields => bracketed "\x7b" "\x7d" depth (indentedFields (depth + 1) fields)
  | null => "null"
  | boolean b => if b then "true" else "false"
  | integer n => toString n
  | float x => floatText x
  | string s => quote s

def indentedItems (depth : Nat) : List Json → List String
  | [] => []
  | v :: vs => indented depth v :: indentedItems depth vs

def indentedFields (depth : Nat) : List (String × Json) → List String
  | [] => []
  | (k, v) :: fs => (quote k ++ ": " ++ indented depth v) :: indentedFields depth fs

end

/-- The indented text of a whole document. -/
def pretty (v : Json) : String := v.indented 0

end Json

end CompactSearch

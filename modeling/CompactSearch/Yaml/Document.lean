/-
Texts of at most one document, with directives in front of it and marks around it.
-/
import CompactSearch.Decimal.Binary64
import CompactSearch.Yaml.Reader

namespace CompactSearch.Yaml

/-- A document: its node and the nodes that its aliases stand for. -/
structure Document where
  root : Node
  anchors : Anchors
deriving Repr

/-! ## Directives -/

/-- The directives in front of a document. -/
structure Directives where
  hasVersion : Bool := false
  handles : Handles := []
deriving Repr

/-- The end of a line that holds nothing more than blanks and a comment. -/
def lineEnd? (cs : List Char) : Option (List Char) :=
  match cs.dropWhile isBlank with
  | [] => some []
  | c :: r =>
    if c = '#' then some (r.dropWhile (!isBreak ·))
    else if isBreak c then some (c :: r)
    else none

/-- The version directive, read after its name; versions 1.1 and 1.2 are known. -/
def versionDirective? (ds : Directives) (cs : List Char) : Option (Directives × List Char) :=
  let body := cs.dropWhile isBlank
  let major := body.takeWhile Char.isDigit
  let rest := body.drop major.length
  let minor := (rest.drop 1).takeWhile Char.isDigit
  let isKnown := major.length ≤ 9 && minor.length ≤ 9 && digitsValue major == 1 &&
    (digitsValue minor == 1 || digitsValue minor == 2)
  if ds.hasVersion || major.isEmpty || minor.isEmpty || rest.head? != some '.' || !isKnown then none
  else (lineEnd? (rest.drop (1 + minor.length))).map fun r => ({ ds with hasVersion := true }, r)

/-- The tag directive, read after its name. -/
def tagDirective? (ds : Directives) (cs : List Char) : Option (Directives × List Char) :=
  let body := cs.dropWhile isBlank
  let name := (body.drop 1).takeWhile isNameChar
  let afterName := body.drop (1 + name.length)
  let (handle, rest) :=
    if afterName.head? = some '!' then ("!" ++ String.ofList name ++ "!", afterName.drop 1)
    else ("!" ++ String.ofList name, afterName)
  let isHandle := body.head? == some '!' && (name.isEmpty || afterName.head? == some '!')
  let meaning := (rest.dropWhile isBlank).takeWhile (isTagChar true)
  let after := (rest.dropWhile isBlank).drop meaning.length
  let isSeparated := (rest.head?.map isBlank).getD false && endsWord after
  if !isHandle || meaning.isEmpty || !isSeparated || (ds.handles.lookup handle).isSome then none
  else (lineEnd? after).map fun r => ({ ds with handles := (handle, String.ofList meaning) :: ds.handles }, r)

/-- The directives at a token, and the place behind them. Each takes the rest of its line. -/
def directives? : (fuel : Nat) → Directives → Cursor → Option (Directives × Cursor)
  | 0, _, _ => none
  | fuel + 1, ds, k =>
    if k.column = 0 ∧ k.next? = some '%' then
      let name := (k.rest.drop 1).takeWhile isNameChar
      let rest := k.rest.drop (1 + name.length)
      let read? :=
        if (rest.head?.map isBlank).getD false then
          if name = "YAML".toList then versionDirective? ds rest
          else if name = "TAG".toList then tagDirective? ds rest
          else none
        else none
      match read? with
      | none => none
      | some (ds', r) =>
        directives? fuel ds' (({ k with rest := r, position := ⟨k.position.line, 1⟩ } : Cursor).toToken false)
    else some (ds, k)

/-! ## Documents -/

/-- Whether nothing but marks of the end of the document follows. -/
def onlyEndMarks : (fuel : Nat) → Cursor → Bool
  | 0, _ => false
  | fuel + 1, k =>
    if k.rest.isEmpty then true
    else if k.column = 0 ∧ endsDocument k.rest then onlyEndMarks fuel ((k.skip 3).toToken false)
    else false

/-- The root at a token, with the place behind it. -/
def root? (fuel : Nat) (k : Cursor) : Option (Node × Cursor) :=
  if k.atEnd then some (.nothing, k) else blockNode? fuel 0 false k

/-- The document of a text; a text without any content holds none. -/
def Document.read? (s : String) : Option (Option Document) :=
  if !s.toList.all isAllowed then none
  else
    let cs := normalizeBreaks s.toList
    let cs := if cs.head? = some byteOrderMark then cs.drop 1 else cs
    let fuel := 8 * (cs.length + 2)
    let start : Cursor := (Cursor.mk cs .start true {} standardHandles).toToken false
    match directives? fuel {} start with
    | none => none
    | some (ds, k) =>
      let isExplicit := k.column == 0 && startsDocument k.rest
      let hasDirective := ds.hasVersion || !ds.handles.isEmpty
      if k.rest.isEmpty ∧ !hasDirective then some none
      else if !isExplicit ∧ (hasDirective ∨ k.atEnd) then none
      else
        let k := { k with handles := ds.handles ++ k.handles }
        let content := if isExplicit then (k.skip 3).toToken false else k
        match root? fuel content with
        | none => none
        | some (n, k') =>
          let last := k'.toToken false
          if onlyEndMarks fuel last then some (some ⟨n, last.anchors⟩) else none

end CompactSearch.Yaml

/-
Nodes in a text. Block collections are told by the columns of their entries, flow collections by their brackets. A
node that stands where a key may stand is read first, and a colon behind it on the same line makes it the first key of
a mapping.
-/
import CompactSearch.Yaml.Node
import CompactSearch.Yaml.Property
import CompactSearch.Yaml.Scalar

namespace CompactSearch.Yaml

/-! ## Cursors -/

/-- Where reading stands: the characters left, their position, whether a key or an entry of a block collection may start
here, and the anchors and tag handles known. -/
structure Cursor where
  rest : List Char
  position : Position
  fresh : Bool
  anchors : Anchors
  handles : Handles
deriving Repr

namespace Cursor

/-- Goes on by some characters of the same line, behind which no key can start. -/
def skip (k : Cursor) (n : Nat) : Cursor :=
  { k with rest := k.rest.drop n, position := k.position.right n, fresh := false }

/-- The same place, where a key may start. -/
def freshen (k : Cursor) : Cursor := { k with fresh := true }

def column (k : Cursor) : Nat := k.position.column

/-- The next character. -/
def next? (k : Cursor) : Option Char := k.rest.head?

/-- Whether the next character is `c` and a blank, a break or the end follows it. -/
def atIndicator (k : Cursor) (c : Char) : Bool := k.next? == some c && endsWord (k.rest.drop 1)

/-- Whether the document ends here. -/
def atEnd (k : Cursor) : Bool := k.rest.isEmpty || (k.column == 0 && isMarker k.rest)

/-- Whether a colon stands here on the line on which a key started, near enough to belong to it. -/
def isColonOf (k start : Cursor) : Bool :=
  k.next? == some ':' && k.position.line == start.position.line && k.column ≤ start.column + 1024

end Cursor

/-- Skips blanks, breaks and comments. A tab is a blank only where no block structure can start. -/
def skipGaps (flow comment : Bool) (p : Position) (fresh : Bool) : List Char → Position × Bool × List Char
  | [] => (p, fresh, [])
  | c :: r =>
    if isBreak c then skipGaps flow false (p.after c) (fresh || !flow) r
    else if comment || c == ' ' || (c == '\t' && (flow || !fresh)) || (c == byteOrderMark && p.column == 0) then
      skipGaps flow comment (p.after c) fresh r
    else if c = '#' then skipGaps flow true (p.after c) fresh r
    else (p, fresh, c :: r)

namespace Cursor

/-- The next token. -/
def toToken (k : Cursor) (flow : Bool) : Cursor :=
  let (p, fresh, rest) := skipGaps flow false k.position k.fresh k.rest
  { k with position := p, fresh := fresh, rest := rest }

/-- The next token inside brackets, where a document cannot end and no directive can stand. -/
def flowToken? (k : Cursor) : Option Cursor :=
  let k' := k.toToken true
  if k'.atEnd || (k'.column == 0 && k'.next? == some '%') then none else some k'

/-- Records a node under its anchor, if it has one. -/
def record (k : Cursor) (anchor : Option Nat) (n : Node) : Cursor :=
  match anchor with
  | none => k
  | some i => { k with anchors := k.anchors.record i n }

end Cursor

/-! ## Scalars and properties -/

/-- The scalar at a token. -/
def scalarNode? (flow : Bool) (base : Nat) (tag : Option String) (k : Cursor) : Option (Node × Cursor) :=
  match k.rest with
  | [] => none
  | c :: r =>
    if c = '"' ∨ c = '\'' then
      (quoted (c == '\'') .empty (k.position.right 1) r).map fun s =>
        (.scalar tag false (String.ofList s.text), { k with rest := s.rest, position := s.position, fresh := false })
    else if !flow ∧ (c = '|' ∨ c = '>') then
      (blockScalar (c == '>') base (k.position.right 1) r).map fun s =>
        (.scalar tag false (String.ofList s.text), { k with rest := s.rest, position := s.position, fresh := true })
    else if startsPlain flow c r then
      (plain flow base .empty k.position (c :: r)).map fun s =>
        (.scalar tag true (String.ofList s.text),
          { k with rest := s.rest, position := s.position, fresh := s.crossedBreak })
    else none

/-- What stands in front of a node. -/
structure Properties where
  anchor : Option Nat := none
  tag : Option String := none
  /-- Whether anything stands there, be it only the mark for no tag. -/
  isPresent : Bool := false
deriving Repr

/-- An anchor at a token. -/
def anchorProperty? (k : Cursor) : Option (Nat × Cursor) :=
  (anchorName? (k.rest.drop 1)).map fun (name, n) =>
    let (i, anchors) := k.anchors.declare name
    (i, { k.skip (1 + n) with anchors := anchors })

/-- An anchor, a tag or both, in either order, at tokens of one line. -/
def properties? (flow : Bool) (k : Cursor) : Option (Properties × Cursor) :=
  let tagAt (k : Cursor) : Option (Option String × Cursor) :=
    (tag? k.handles flow (k.rest.drop 1)).map fun (t, n) => (t, k.skip (1 + n))
  match k.next? with
  | some '&' =>
    match anchorProperty? k with
    | none => none
    | some (i, k₁) =>
      let k₂ := k₁.toToken flow
      if k₂.next? = some '!' ∧ k₂.position.line = k.position.line then
        (tagAt k₂).map fun (t, k₃) => (⟨some i, t, true⟩, k₃.toToken flow)
      else some (⟨some i, none, true⟩, k₂)
  | some '!' =>
    match tagAt k with
    | none => none
    | some (t, k₁) =>
      let k₂ := k₁.toToken flow
      if k₂.next? = some '&' ∧ k₂.position.line = k.position.line then
        (anchorProperty? k₂).map fun (i, k₃) => (⟨some i, t, true⟩, k₃.toToken flow)
      else some (⟨none, t, true⟩, k₂)
  | _ => some ({}, k)

/-- An alias at a token; its name has to be known. -/
def aliasNode? (k : Cursor) : Option (Node × Cursor) :=
  match anchorName? (k.rest.drop 1) with
  | none => none
  | some (name, n) => (k.anchors.names.lookup name).map fun i => (.alias i, k.skip (1 + n))

/-! ## Flow collections -/

mutual

/-- A node inside brackets, at its token. -/
def flowNode? (fuel base : Nat) (k : Cursor) : Option (Node × Cursor) :=
  match fuel with
  | 0 => none
  | fuel + 1 =>
    if k.next? = some '*' then aliasNode? k
    else
      match properties? true k with
      | none => none
      | some (ps, k₁) =>
        if ps.isPresent ∧ (k₁.next?.map (":?,]\x7d".toList.contains ·)).getD true then
          let n := Node.scalar ps.tag true ""
          some (n, k₁.record ps.anchor n)
        else (content? fuel true base ps.tag k₁).map fun (n, k₂) => (n, k₂.record ps.anchor n)

/-- What a node is made of, behind its properties: a collection in brackets or a scalar. -/
def content? (fuel : Nat) (flow : Bool) (base : Nat) (tag : Option String) (k : Cursor) : Option (Node × Cursor) :=
  match fuel with
  | 0 => none
  | fuel + 1 =>
    if k.next? = some '[' then
      match (k.skip 1).flowToken? with
      | none => none
      | some k₁ => (flowEntries? fuel ']' base true k₁).map fun (es, k₂) =>
        (.sequence (es.map fun (key, value) =>
          match value with
          | none => key
          | some v => .mapping [(key, v)]), k₂)
    else if k.next? = some '\x7b' then
      match (k.skip 1).flowToken? with
      | none => none
      | some k₁ => (flowEntries? fuel '\x7d' base true k₁).map fun (es, k₂) =>
        (.mapping (es.map fun (key, value) => (key, value.getD .nothing)), k₂)
    else scalarNode? flow base tag k

/-- The entries up to the closing bracket, each a node or a key with a value, and the place behind the bracket. -/
def flowEntries? (fuel : Nat) (close : Char) (base : Nat) (first : Bool) (k : Cursor) :
    Option (List (Node × Option Node) × Cursor) :=
  match fuel with
  | 0 => none
  | fuel + 1 =>
    if k.next? = some close then some ([], k.skip 1)
    else
      let start? := if first then some k else if k.next? = some ',' then (k.skip 1).flowToken? else none
      match start? with
      | none => none
      | some k₁ =>
        if k₁.next? = some close then some ([], k₁.skip 1)
        else
          match flowEntry? fuel close base k₁ with
          | none => none
          | some (e, k₂) =>
            match k₂.flowToken? with
            | none => none
            | some k₃ => (flowEntries? fuel close base false k₃).map fun (es, k₄) => (e :: es, k₄)

/-- One entry: a node, or a key with a value. A key without a question mark has its colon on the same line. -/
def flowEntry? (fuel : Nat) (close : Char) (base : Nat) (k : Cursor) : Option ((Node × Option Node) × Cursor) :=
  match fuel with
  | 0 => none
  | fuel + 1 =>
    if k.next? = some '?' then
      match (k.skip 1).flowToken? with
      | none => none
      | some k₁ =>
        let key? :=
          if k₁.next? = some ':' ∨ k₁.next? = some ',' ∨ k₁.next? = some close then some (Node.nothing, k₁)
          else flowNode? fuel base k₁
        match key? with
        | none => none
        | some (key, k₂) =>
          match k₂.flowToken? with
          | none => none
          | some k₃ =>
            if k₃.next? = some ':' then
              (flowValue? fuel close base k₃).map fun (v, k₄) => ((key, some v), k₄)
            else some ((key, some .nothing), k₃)
    else
      match flowNode? fuel base k with
      | none => none
      | some (key, k₁) =>
        match k₁.flowToken? with
        | none => none
        | some k₂ =>
          if k₂.next? = some ':' then
            if k₂.isColonOf k then
              (flowValue? fuel close base k₂).map fun (v, k₃) => ((key, some v), k₃)
            else none
          else some ((key, none), k₂)

/-- The value behind a colon inside brackets. -/
def flowValue? (fuel : Nat) (close : Char) (base : Nat) (k : Cursor) : Option (Node × Cursor) :=
  match fuel with
  | 0 => none
  | fuel + 1 =>
    match (k.skip 1).flowToken? with
    | none => none
    | some k₁ =>
      if k₁.next? = some ',' ∨ k₁.next? = some close then some (.nothing, k₁) else flowNode? fuel base k₁

end

/-! ## Block collections -/

/-- Whether the key that was read from `start` to `k` is followed by its colon. -/
def keyEnd? (start k : Cursor) : Option Cursor :=
  let k' := k.toToken false
  if k'.isColonOf start && k'.atIndicator ':' then some k' else none

mutual

/-- A node at a token in column `base` or to the right of it. `indentless` says whether a sequence may stand just to the
left of that, which matters for what follows properties on a line of their own. -/
def blockNode? (fuel base : Nat) (indentless : Bool) (k : Cursor) : Option (Node × Cursor) :=
  match fuel with
  | 0 => none
  | fuel + 1 =>
    if k.atIndicator '-' then
      if k.fresh then (blockItems? fuel false k.column k).map fun (ns, k₁) => (.sequence ns, k₁) else none
    else if k.atIndicator '?' then
      if k.fresh then (blockEntries? fuel k.column k).map fun (es, k₁) => (.mapping es, k₁) else none
    else if k.next? = some '&' ∨ k.next? = some '!' then
      match properties? false k with
      | none => none
      | some (ps, k₁) =>
        if k₁.atEnd then
          let n := Node.scalar ps.tag true ""
          some (n, k₁.record ps.anchor n)
        else if k₁.position.line = k.position.line then
          match lineNode? fuel base ps k₁ with
          | none => none
          | some (n, k₂) => orMapping? fuel k n k₂
        else if k₁.column < base ∧ !(indentless && k₁.column + 1 == base && k₁.atIndicator '-') then
          let n := Node.scalar ps.tag true ""
          some (n, k₁.record ps.anchor n)
        else
          match blockValue? fuel base indentless k₁ with
          | none => none
          | some (n, k₂) =>
            match n, k₁.next? with
            | .alias _, _ => none
            | .scalar _ _ _, some '&' | .scalar _ _ _, some '!' => none
            | .sequence _, some '&' | .sequence _, some '!' => none
            | .scalar none isPlain text, _ =>
              let n' := Node.scalar ps.tag isPlain text
              some (n', k₂.record ps.anchor n')
            | n, _ => some (n, k₂.record ps.anchor n)
    else
      match lineNode? fuel base {} k with
      | none => none
      | some (n, k₁) => orMapping? fuel k n k₁

/-- A node that may be a key, behind its properties: an alias, a scalar, a collection in brackets, or nothing in front
of a colon. -/
def lineNode? (fuel base : Nat) (ps : Properties) (k : Cursor) : Option (Node × Cursor) :=
  match fuel with
  | 0 => none
  | fuel + 1 =>
    if k.next? = some '*' then (if ps.isPresent then none else aliasNode? k)
    else if ps.isPresent ∧ k.atIndicator ':' then
      let n := Node.scalar ps.tag true ""
      some (n, k.record ps.anchor n)
    else (content? fuel false base ps.tag k).map fun (n, k₁) => (n, k₁.record ps.anchor n)

/-- The node read from `start` to `k`, or the mapping whose first key it is. -/
def orMapping? (fuel : Nat) (start : Cursor) (n : Node) (k : Cursor) : Option (Node × Cursor) :=
  match fuel with
  | 0 => none
  | fuel + 1 =>
    match keyEnd? start k with
    | none => some (n, k)
    | some k₁ =>
      if start.fresh then (blockPair? fuel start.column n k₁).map fun (es, k₂) => (.mapping es, k₂) else none

/-- The entries of a mapping in a column, from a colon on, behind the key of the first of them. -/
def blockPair? (fuel column : Nat) (key : Node) (k : Cursor) : Option (List (Node × Node) × Cursor) :=
  match fuel with
  | 0 => none
  | fuel + 1 =>
    match blockValue? fuel (column + 1) true ((k.skip 1).toToken false) with
    | none => none
    | some (v, k₁) =>
      (blockEntries? fuel column (k₁.toToken false)).map fun (es, k₂) => ((key, v) :: es, k₂)

/-- The entries of a mapping in a column, from a token on. -/
def blockEntries? (fuel column : Nat) (k : Cursor) : Option (List (Node × Node) × Cursor) :=
  match fuel with
  | 0 => none
  | fuel + 1 =>
    if k.atEnd ∨ k.column < column then some ([], k)
    else if k.column ≠ column then none
    else if k.atIndicator '?' then
      match blockValue? fuel (column + 1) true ((k.skip 1).freshen.toToken false) with
      | none => none
      | some (key, k₁) =>
        let k₂ := k₁.toToken false
        if k₂.column = column ∧ k₂.fresh ∧ k₂.atIndicator ':' then
          match blockValue? fuel (column + 1) true ((k₂.skip 1).freshen.toToken false) with
          | none => none
          | some (v, k₃) =>
            (blockEntries? fuel column (k₃.toToken false)).map fun (es, k₄) => ((key, v) :: es, k₄)
        else (blockEntries? fuel column k₂).map fun (es, k₃) => ((key, .nothing) :: es, k₃)
    else
      match properties? false k with
      | none => none
      | some (ps, k₁) =>
        if k₁.position.line ≠ k.position.line ∨ k.atIndicator '-' then none
        else
          match lineNode? fuel (column + 1) ps k₁ with
          | none => none
          | some (key, k₂) =>
            match keyEnd? k k₂ with
            | none => none
            | some k₃ => blockPair? fuel column key k₃

/-- The items of a sequence in a column, from a token on. An indentless sequence stands in the column of the mapping
around it and ends at the next key. -/
def blockItems? (fuel : Nat) (indentless : Bool) (column : Nat) (k : Cursor) : Option (List Node × Cursor) :=
  match fuel with
  | 0 => none
  | fuel + 1 =>
    if k.atEnd ∨ k.column < column then some ([], k)
    else if k.column = column ∧ k.atIndicator '-' then
      match blockValue? fuel (column + 1) false ((k.skip 1).freshen.toToken false) with
      | none => none
      | some (n, k₁) =>
        (blockItems? fuel indentless column (k₁.toToken false)).map fun (ns, k₂) => (n :: ns, k₂)
    else if indentless then some ([], k)
    else none

/-- A value at a token: a node in column `base` or to the right of it, where allowed a sequence or a block scalar just to
the left of it, or else nothing. -/
def blockValue? (fuel base : Nat) (indentless : Bool) (k : Cursor) : Option (Node × Cursor) :=
  match fuel with
  | 0 => none
  | fuel + 1 =>
    if k.atEnd then some (.nothing, k)
    else if base ≤ k.column then blockNode? fuel base indentless k
    else if k.column + 1 = base ∧ indentless ∧ k.fresh ∧ k.atIndicator '-' then
      (blockItems? fuel true k.column k).map fun (ns, k₁) => (.sequence ns, k₁)
    else if k.column + 1 = base ∧ (k.next? = some '|' ∨ k.next? = some '>') then scalarNode? false base none k
    else some (.nothing, k)

end

end CompactSearch.Yaml

/-
Anchors, aliases and tags in a text.
-/
import CompactSearch.Yaml.Character

namespace CompactSearch.Yaml

/-- The name of an anchor or of an alias, read after its first character, with its length. -/
def anchorName? (cs : List Char) : Option (String × Nat) :=
  let name := cs.takeWhile isNameChar
  let rest := cs.drop name.length
  let isEnd := endsWord rest || (rest.head?.map ("?:,]\x7d%@\x60".toList.contains ·)).getD false
  if name.isEmpty || !isEnd then none else some (String.ofList name, name.length)

/-- The characters of the body of a tag; commas and brackets only where it stands in angle brackets. -/
def isTagChar (verbatim : Bool) (c : Char) : Bool :=
  isNameChar c || ";/?:@&=+$.!~*'()%".toList.contains c || (verbatim && ",[]".toList.contains c)

/-- The handle that a directive declares with what it stands for. -/
abbrev Handles := List (String × String)

/-- The handles that need no declaration. -/
def standardHandles : Handles := [("!", "!"), ("!!", "tag:yaml.org,2002:")]

/-- The tag at the start of a text, read after its exclamation mark, with its length. An exclamation mark alone is no
tag at all. -/
def tag? (handles : Handles) (flow : Bool) (cs : List Char) : Option (Option String × Nat) :=
  let finish (t : Option String) (width : Nat) : Option (Option String × Nat) :=
    let rest := cs.drop width
    if endsWord rest || (flow && rest.head? == some ',') then some (t, width) else none
  if cs.head? = some '<' then
    let body := (cs.drop 1).takeWhile (isTagChar true)
    if body.isEmpty || (cs.drop (1 + body.length)).head? != some '>' then none
    else finish (some (String.ofList body)) (2 + body.length)
  else
    let name := cs.takeWhile isNameChar
    let afterName := cs.drop name.length
    if afterName.head? = some '!' then
      let suffix := (afterName.drop 1).takeWhile (isTagChar false)
      match handles.lookup ("!" ++ String.ofList name ++ "!") with
      | none => none
      | some start =>
        if suffix.isEmpty then none
        else finish (some (start ++ String.ofList suffix)) (name.length + 1 + suffix.length)
    else
      let suffix := cs.takeWhile (isTagChar false)
      if suffix.isEmpty then finish none 0
      else finish ((handles.lookup "!").map (· ++ String.ofList suffix)) suffix.length

end CompactSearch.Yaml

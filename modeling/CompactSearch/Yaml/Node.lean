/-
The nodes of a YAML document, and what may be written in front of one: an anchor, by which later aliases refer to it,
and a tag.
-/
namespace CompactSearch.Yaml

/-- A node of a document. -/
inductive Node where
  /-- A text; `isPlain` says that it was written without quotes. -/
  | scalar (tag : Option String) (isPlain : Bool) (text : String)
  | sequence (items : List Node)
  | mapping (entries : List (Node × Node))
  /-- The node with the given anchor number. -/
  | alias (anchor : Nat)
deriving Repr

namespace Node

/-- The node where nothing is written. -/
def nothing : Node := scalar none true ""

end Node

/-- The anchors met so far: the number that each name stands for, the newest first, and the nodes of the numbers. -/
structure Anchors where
  names : List (String × Nat) := []
  nodes : List (Nat × Node) := []
deriving Repr

namespace Anchors

/-- Gives a name the next number. -/
def declare (a : Anchors) (name : String) : Nat × Anchors :=
  (a.names.length, { a with names := (name, a.names.length) :: a.names })

/-- Records the node of a number. -/
def record (a : Anchors) (anchor : Nat) (n : Node) : Anchors := { a with nodes := (anchor, n) :: a.nodes }

/-- The node that an alias stands for; any other node stands for itself. -/
def resolve (a : Anchors) : Node → Option Node
  | .alias anchor => a.nodes.lookup anchor
  | n => some n

end Anchors

end CompactSearch.Yaml

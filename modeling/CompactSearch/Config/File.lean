/-
Configuration files in a directory tree: where a path leads, what stands there, and loading and saving. A path is followed
name by name from the top of the tree, and every name has to be looked up in a directory, also a point, two points and
what is behind a slash.
-/
import CompactSearch.Config.Yaml

namespace CompactSearch

/-- What stands at a place of a directory tree. -/
inductive FileEntry where
  | text (s : String)
  /-- A file whose bytes are no text. -/
  | noText
  | directory
deriving DecidableEq, Repr

namespace FileEntry

/-- The entry of a file with the given bytes. -/
def ofBytes (bytes : ByteArray) : FileEntry :=
  match String.fromUTF8? bytes with
  | some s => text s
  | none => noText

/-- The text of a file, or why reading gives none. -/
def read : FileEntry → Except FileError String
  | text s => .ok s
  | noText => .error .notText
  | directory => .error .isDirectory

end FileEntry

/-! ## Paths -/

/-- The names of a path; several slashes are as one. -/
def pathNames (path : String) : List String :=
  ((path.toList.splitOn '/').map String.ofList).filter (!·.isEmpty)

/-- Whether a path ends in a slash, so that it can lead to a directory only. -/
def endsInSlash (path : String) : Bool := path.toList.getLast? == some '/'

/-- What is wrong with a path wherever it is followed. -/
def pathError? (path : String) : Option FileError :=
  if path.toList.contains '\x00' then some .nulInPath
  else if path.isEmpty then some .notFound
  else none

/-- Where a name leads from a place: a point stays there, two points lead up, and from the top to the top. -/
def placeOf (place : List String) (name : String) : List String :=
  if name = "." then place
  else if name = ".." then place.dropLast
  else place ++ [name]

/-- The entries of a directory tree below its top, by their names from the top; of two at one place the first counts. -/
structure FileTree where
  entries : List (List String × FileEntry) := []
deriving DecidableEq, Repr

namespace FileTree

/-- The entry at a place. -/
def entryAt? (t : FileTree) (place : List String) : Option FileEntry :=
  if place.isEmpty then some .directory else t.entries.lookup place

/-- The place that names lead to from a place; nothing has to stand there. -/
def follow (t : FileTree) (place : List String) : List String → Except FileError (List String)
  | [] => .ok place
  | name :: names =>
    match t.entryAt? place with
    | some .directory => t.follow (placeOf place name) names
    | some _ => .error .notDirectory
    | none => .error .notFound

/-- The place that a path leads to. -/
def locate (t : FileTree) (path : String) : Except FileError (List String) :=
  match pathError? path with
  | some e => .error e
  | none => t.follow [] (pathNames path)

/-- The entry at a path, if there is one. -/
def entry? (t : FileTree) (path : String) : Option FileEntry :=
  match t.locate path with
  | .error _ => none
  | .ok place => (t.entryAt? place).filter fun e => e == .directory || !endsInSlash path

/-- Puts an entry at a place, instead of the one that stands there. -/
def putAt (t : FileTree) (place : List String) (e : FileEntry) : FileTree := ⟨(place, e) :: t.entries⟩

/-- Puts an entry at a path. -/
def put (t : FileTree) (path : String) (e : FileEntry) : FileTree :=
  match t.locate path with
  | .error _ => t
  | .ok place => t.putAt place e

/-- Why no file can be written at a path. -/
def writeError? (t : FileTree) (path : String) : Option FileError :=
  match t.locate path with
  | .error e => some e
  | .ok place =>
    if endsInSlash path ∨ t.entryAt? place = some .directory then some .isDirectory else none

/-- What reading at a path gives, if something stands there. -/
def read? (t : FileTree) (path : String) : Option (Except FileError String) := (t.entry? path).map FileEntry.read

end FileTree

namespace Config

/-- The configuration in what reading at a path gives; where nothing stands it is the default one. -/
def ofContent (path : String) : Option (Except FileError String) → Except ConfigError (Config × List DroppedName)
  | none => .ok (default, [])
  | some (.error e) => .error (.unreadable path e)
  | some (.ok s) =>
    match ofYaml s with
    | .error e => .error (.inFile path e)
    | .ok r => .ok r

/-- Loads the configuration at a path. -/
def load (t : FileTree) (path : String) : Except ConfigError (Config × List DroppedName) :=
  ofContent path (t.read? path)

/-- Writes the configuration to a path. -/
def save (c : Config) (t : FileTree) (path : String) : Except ConfigError FileTree :=
  match t.writeError? path with
  | some e => .error (.unwritable path e)
  | none => .ok (t.put path (.text c.toYaml))

end Config

end CompactSearch

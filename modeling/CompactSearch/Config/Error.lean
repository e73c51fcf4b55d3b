/-
Why a configuration could not be read or written. An error is told as a chain of messages, from what was attempted to
the cause.
-/
import CompactSearch.Config.Basic

namespace CompactSearch

/-- What is wrong with the text of a configuration. -/
inductive ContentError where
  /-- It is not YAML, or not of the form of a configuration. -/
  | malformed
  | blankField (backend : Backend) (role : FieldRole)
deriving DecidableEq, Repr

namespace ContentError

def message : ContentError → String
  | malformed => "config is malformed"
  | blankField backend role => backend.name ++ "." ++ role.name ++ " contains an empty field name"

end ContentError

/-- Why a file could not be read or written. -/
inductive FileError where
  /-- The refusal of the system, with its code. -/
  | system (code : Nat) (reason : String)
  | notText
  /-- A path cannot hold the character with the code zero. -/
  | nulInPath
deriving DecidableEq, Repr

namespace FileError

def notFound : FileError := system 2 "No such file or directory"

def notDirectory : FileError := system 20 "Not a directory"

def isDirectory : FileError := system 21 "Is a directory"

def message : FileError → String
  | system code reason => reason ++ " (os error " ++ Nat.repr code ++ ")"
  | notText => "stream did not contain valid UTF-8"
  | nulInPath => "file name contained an unexpected NUL byte"

end FileError

inductive ConfigError where
  | content (e : ContentError)
  /-- The text of a file is wrong. -/
  | inFile (path : String) (e : ContentError)
  | unreadable (path : String) (e : FileError)
  | unwritable (path : String) (e : FileError)
deriving DecidableEq, Repr

namespace ConfigError

/-- The messages from the outermost inwards. -/
def chain : ConfigError → List String
  | content e => [e.message]
  | inFile path e => ["in " ++ path, e.message]
  | unreadable path e => ["failed to read config at " ++ path, e.message]
  | unwritable path e => ["failed to write config at " ++ path, e.message]

end ConfigError

end CompactSearch

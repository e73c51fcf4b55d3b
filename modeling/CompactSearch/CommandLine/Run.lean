/-
What a run of the program prints: the answer of its command as indented JSON, or an error with its causes.
-/
import CompactSearch.CommandLine.Arguments
import CompactSearch.Config.File
import CompactSearch.Document.Compile
import CompactSearch.Query.Json

namespace CompactSearch.CommandLine

/-- What a run leaves behind. -/
structure Outcome where
  exitCode : Nat
  output : String
  /-- The lines for the error output, without a final break. -/
  errors : String
deriving DecidableEq, Repr

namespace Outcome

def answer (j : Json) : Outcome := ⟨0, j.pretty ++ "\n", ""⟩

/-- An error and the chain of its causes; several causes are numbered. `hasMore` says that the last cause has a cause of
its own that is not told. -/
def failure (message : String) (causes : List String) (hasMore : Bool) : Outcome :=
  let lines :=
    if causes.length = 1 ∧ !hasMore then causes.map ("    " ++ ·)
    else (causes.zipIdx).map fun (c, i) => "    " ++ Nat.repr i ++ ": " ++ c
  ⟨1, "", "Error: " ++ message ++
    (if causes.isEmpty then "" else "\n\nCaused by:\n" ++ "\n".intercalate lines)⟩

end Outcome

/-- The version that the program prints. -/
def versionLine : String := "searchq 0.1.0\n"

/-- What is left behind when there is no command to run: the version where it was asked for. Nothing is said of how the
program is used. -/
def stopped : Stop → Outcome
  | .version => ⟨0, versionLine, ""⟩
  | .help => ⟨0, "", ""⟩
  | .unknownArgument | .missingRequiredArgument | .invalidValue | .tooManyValues | .argumentConflict
  | .invalidSubcommand | .missingSubcommand | .helpOnMissingSubcommand => ⟨2, "", ""⟩

/-- The error of a search and, unless it is the error itself, what caused it. -/
def searchFailure (e : SearchError) : Outcome := .failure e.message [e.detail] false

/-- An error of the configuration. -/
def configFailure (e : ConfigError) : Outcome :=
  let isMalformed := match e with
    | .content .malformed | .inFile _ .malformed => true
    | _ => false
  match e.chain with
  | [] => .failure "" [] false
  | m :: causes => .failure m causes isMalformed

/-- Runs a command under a configuration. -/
def runCommand (c : Config) (batch : String) (now : Instant) : Command → Outcome
  | .ast query relational =>
    match parse (if relational then .relational else .document) query with
    | .error e => .failure e.message [] false
    | .ok q => .answer (Query.toJson q)
  | .document query flags =>
    match Document.search (flags.apply c.document).1 now query with
    | .error e => searchFailure e
    | .ok f => .answer (Document.Filter.toJson f)
  | .sql query flags dateDefaultOnly =>
    let dateOverride := if dateDefaultOnly then .defaultOperatorOnly else c.dateOverride
    match Sql.search ⟨(flags.apply c.relational).1, dateOverride, now⟩ batch query with
    | .error e => .failure e.message [] false
    | .ok r => .answer r.toJson

/-- Runs the parsed command line, given what reading at the path of the configuration gives. -/
def runArguments (a : Arguments) (content : Option (Except FileError String)) (batch : String) (now : Instant) :
    Outcome :=
  match Config.ofContent a.config content with
  | .error e => configFailure e
  | .ok (c, _) => runCommand c batch now a.command

/-- Runs a command line in a directory tree. -/
def run (args : List String) (t : FileTree) (batch : String) (now : Instant) : Outcome :=
  match parseArguments args with
  | .error stop => stopped stop
  | .ok a => runArguments a (t.read? a.config) batch now

end CompactSearch.CommandLine

/-
The command line: options of the program, a command, and options and a query of the command. A value that an option
waits for is assigned when the next option or the query comes, or at the end, and what is wrong with it shows then. Flags
for a policy name their fields in one text, with commas between them.
-/
import CompactSearch.Config.Basic

namespace CompactSearch

/-! ## Lists of field names -/

/-- The pieces between the commas of a text; there is always one more than there are commas. -/
def splitCommas : List Char → List (List Char)
  | [] => [[]]
  | c :: cs =>
    if c = ',' then [] :: splitCommas cs
    else
      match splitCommas cs with
      | [] => [[c]]
      | piece :: pieces => (c :: piece) :: pieces

/-- The names in a text with commas between them, without the white space around them; blank pieces name nothing. -/
def fieldList (s : String) : List String :=
  (((splitCommas s.toList).map Text.trimChars).filter (!·.isEmpty)).map String.ofList

namespace CommandLine

/-! ## Arguments -/

/-- Lists of fields that replace those of the configuration. -/
structure PolicyFlags where
  any : Option String := none
  isString : Option String := none
  isDate : Option String := none
deriving DecidableEq, Repr

namespace PolicyFlags

/-- The policy with the lists that are given in place of its own. -/
def apply (f : PolicyFlags) (p : FieldPolicy) : FieldPolicy × List DroppedName :=
  let step (acc : FieldPolicy × List DroppedName) (role : FieldRole) (text : Option String) :
      FieldPolicy × List DroppedName :=
    match text with
    | none => acc
    | some s =>
      let (p, ws) := acc.1.set role (fieldList s)
      (p, acc.2 ++ ws)
  step (step (step (p, []) .any f.any) .isString f.isString) .isDate f.isDate

end PolicyFlags

inductive Command where
  /-- Print the query as it was understood. -/
  | ast (query : String) (relational : Bool)
  | document (query : String) (flags : PolicyFlags)
  | sql (query : Option String) (flags : PolicyFlags) (dateDefaultOnly : Bool)
deriving DecidableEq, Repr

structure Arguments where
  config : String
  command : Command
deriving DecidableEq, Repr

/-- Why there is no command to run. -/
inductive Stop where
  | unknownArgument
  | missingRequiredArgument
  | invalidValue
  | tooManyValues
  | argumentConflict
  | invalidSubcommand
  | missingSubcommand
  /-- Nothing was asked for. -/
  | helpOnMissingSubcommand
  | help
  | version
deriving DecidableEq, Repr

/-! ## Parameters -/

inductive Parameter where
  | config
  | help
  | version
  | query
  | relational
  | any
  | string
  | date
  | dateDefaultOnly
deriving DecidableEq, Repr

namespace Parameter

/-- The long name, after two dashes; the query has none. -/
def long? : Parameter → Option String
  | config => some "config"
  | help => some "help"
  | version => some "version"
  | query => none
  | relational => some "relational"
  | any => some "any"
  | string => some "string"
  | date => some "date"
  | dateDefaultOnly => some "date-default-only"

/-- The letter, after one dash. -/
def short? : Parameter → Option Char
  | config => some 'c'
  | help => some 'h'
  | version => some 'V'
  | _ => none

def takesValue : Parameter → Bool
  | config | query | any | string | date => true
  | help | version | relational | dateDefaultOnly => false

end Parameter

/-- The names of the commands. -/
inductive CommandName where
  | ast
  | document
  | sql
deriving DecidableEq, Repr

namespace CommandName

def text : CommandName → String
  | ast => "ast"
  | document => "document"
  | sql => "sql"

def ofText? (s : String) : Option CommandName := [ast, document, sql].find? (·.text == s)

/-- The parameters of a command. -/
def parameters : CommandName → List Parameter
  | ast => [.query, .relational, .help]
  | document => [.query, .any, .string, .date, .help]
  | sql => [.query, .any, .string, .date, .dateDefaultOnly, .help]

end CommandName

/-- The parameters of the program itself. -/
def programParameters : List Parameter := [.config, .help, .version]

/-! ## Reading -/

/-- What has been read of the arguments of one level. -/
structure Progress where
  /-- Values assigned, a flag with an empty text. -/
  values : List (Parameter × String) := []
  /-- A parameter not yet assigned, with its value unless it still waits for that. -/
  pending : Option (Parameter × Option String) := none
  /-- Whether a double dash has ended the options. -/
  optionsEnded : Bool := false
  queryTaken : Bool := false
deriving DecidableEq, Repr

namespace Progress

/-- Assigns a value; a parameter has one at most, and the path of the configuration cannot be empty. -/
def assign (s : Progress) (p : Parameter) (value : String) : Except Stop Progress :=
  if s.values.any (·.1 == p) then .error .argumentConflict
  else if p = .config ∧ value.isEmpty then .error .invalidValue
  else .ok { s with values := (p, value) :: s.values }

/-- Assigns the pending parameter. -/
def settle (s : Progress) : Except Stop Progress :=
  match s.pending with
  | none => .ok s
  | some (_, none) => .error .invalidValue
  | some (p, some value) => ({ s with pending := none }).assign p value

/-- Whether an option waits for its value. -/
def isWaiting (s : Progress) : Bool :=
  match s.pending with
  | some (_, none) => true
  | _ => false

/-- Whether a text that looks like an option can be the query. -/
def canTakeQuery (s : Progress) (ps : List Parameter) : Bool := ps.contains .query && !s.queryTaken

/-- An option of the level, with the value attached to it, if any. -/
def option (s : Progress) (p : Parameter) (attached : Option String) : Except Stop Progress :=
  if p.takesValue then
    match s.settle with
    | .error e => .error e
    | .ok s' =>
      match attached with
      | some value => s'.assign p value
      | none => .ok { s' with pending := some (p, none) }
  else if attached.isSome then .error .tooManyValues
  else
    match s.settle with
    | .error e => .error e
    | .ok s' =>
      match p with
      | .help => .error .help
      | .version => .error .version
      | _ => s'.assign p ""

/-- A text that is no option: the value that an option waits for, or the query. -/
def word (s : Progress) (ps : List Parameter) (text : String) (otherwise : Stop) : Except Stop Progress :=
  match s.pending, s.optionsEnded with
  | some (p, none), false => .ok { s with pending := some (p, some text) }
  | _, _ =>
    if s.canTakeQuery ps then
      match s.settle with
      | .error e => .error e
      | .ok s' => .ok { s' with pending := some (.query, some text), queryTaken := true }
    else .error otherwise

/-- One argument. Unknown options are taken as the query as long as there is none; `otherwise` is the error of a word
that has no place. -/
def argument (s : Progress) (ps : List Parameter) (text : String) (otherwise : Stop) : Except Stop Progress :=
  if s.optionsEnded then s.word ps text otherwise
  else
    match text.toList with
    | ['-', '-'] => .ok { s with optionsEnded := true }
    | '-' :: '-' :: body =>
      let name := String.ofList (body.takeWhile (· != '='))
      let attached :=
        if body.contains '=' then some (String.ofList ((body.dropWhile (· != '=')).drop 1)) else none
      match ps.find? (·.long? == some name) with
      | some p => s.option p attached
      | none => if s.canTakeQuery ps then s.word ps text otherwise else .error .unknownArgument
    | '-' :: c :: rest =>
      let known (c : Char) : Option Parameter := ps.find? (·.short? == some c)
      if s.canTakeQuery ps ∧ !(c :: rest).all (fun c => (known c).isSome) then s.word ps text otherwise
      else
        match known c with
        | none => .error .unknownArgument
        | some p =>
          if p.takesValue then
            match rest with
            | [] => s.option p none
            | '=' :: value => s.option p (some (String.ofList value))
            | value => s.option p (some (String.ofList value))
          else s.option p none
    | _ => s.word ps text otherwise

/-- The value of a parameter. -/
def value? (s : Progress) (p : Parameter) : Option String := s.values.lookup p

/-- Whether a flag is set. -/
def isSet (s : Progress) (p : Parameter) : Bool := (s.value? p).isSome

def policyFlags (s : Progress) : PolicyFlags := ⟨s.value? .any, s.value? .string, s.value? .date⟩

end Progress

/-- The values of a command, from its arguments. -/
def commandValues (ps : List Parameter) : Progress → List String → Except Stop Progress
  | s, [] => s.settle
  | s, a :: rest =>
    match s.argument ps a .unknownArgument with
    | .error e => .error e
    | .ok s' => commandValues ps s' rest

/-- The command of a name with its arguments. -/
def command (name : CommandName) (args : List String) : Except Stop Command :=
  match commandValues name.parameters {} args with
  | .error e => .error e
  | .ok s =>
    match name, s.value? .query with
    | .ast, some q => .ok (.ast q (s.isSet .relational))
    | .document, some q => .ok (.document q s.policyFlags)
    | .sql, q => .ok (.sql q s.policyFlags (s.isSet .dateDefaultOnly))
    | .ast, none | .document, none => .error .missingRequiredArgument

/-- The request for help on the commands that the words name. -/
def helpOn (words : List String) : Stop :=
  match words with
  | [] => .help
  | w :: rest => if ((CommandName.ofText? w).isSome || w == "help") && rest.isEmpty then .help else .invalidSubcommand

/-- Where the configuration is unless an option says otherwise. -/
def defaultConfigPath : String := "searchq.yaml"

/-- Whether a word names a command or asks for help. -/
def isSubcommand (word : String) : Bool := (CommandName.ofText? word).isSome || word == "help"

/-- The command line from its options on. -/
def parseFrom (s : Progress) : List String → Except Stop Arguments
  | [] =>
    match s.settle with
    | .error e => .error e
    | .ok s' => .error (if s'.values.isEmpty then .helpOnMissingSubcommand else .missingSubcommand)
  | a :: rest =>
    if !s.optionsEnded && !s.isWaiting && isSubcommand a then
      match CommandName.ofText? a with
      | none => .error (helpOn rest)
      | some name =>
        match command name rest with
        | .error e => .error e
        | .ok c => s.settle.map fun s' => ⟨(s'.value? .config).getD defaultConfigPath, c⟩
    else
      let otherwise := if s.optionsEnded && isSubcommand a then Stop.unknownArgument else .invalidSubcommand
      match s.argument programParameters a otherwise with
      | .error e => .error e
      | .ok s' => parseFrom s' rest

/-- The command line of the program, without its own name. -/
def parseArguments (args : List String) : Except Stop Arguments := parseFrom {} args

end CommandLine

end CompactSearch

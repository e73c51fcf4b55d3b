/-
Configurations as YAML. Unknown keys are passed over, a missing key leaves the default, and a key that is repeated is
an error.
-/
import CompactSearch.Config.Error
import CompactSearch.Policy.Json
import CompactSearch.Yaml.Document
import CompactSearch.Yaml.Writer

namespace CompactSearch

open Yaml (Anchors Node)

/-! ## Reading -/

namespace Config

/-- The spellings of null. -/
def nullWords : List String := ["", "null", "Null", "NULL", "~"]

/-- The text of a scalar, whatever its style and tag. -/
def scalarText? (a : Anchors) (n : Node) : Option String :=
  match a.resolve n with
  | some (.scalar _ _ text) => some text
  | _ => none

/-- The entries of a mapping with texts as keys; a plain empty scalar is a mapping without entries. -/
def entries? (a : Anchors) (n : Node) : Option (List (String × Node)) :=
  match a.resolve n with
  | some (.mapping es) => es.mapM fun (k, v) => (scalarText? a k).map (·, v)
  | some (.scalar _ true "") => some []
  | _ => none

/-- An optional list of names; a plain null is no list. -/
def nameList? (a : Anchors) (n : Node) : Option (Option (List String)) :=
  match a.resolve n with
  | some (.sequence items) => (items.mapM (scalarText? a)).map some
  | some (.scalar none true text) => if nullWords.contains text then some none else none
  | some (.scalar (some tag) true text) =>
    if tag = "tag:yaml.org,2002:null" then (if text ≠ "" ∧ nullWords.contains text then some none else none)
    else if text = "" then some (some []) else none
  | _ => none

/-- The lists of a policy, in the order in which they are written. -/
def policyEntries? (a : Anchors) (seen : List FieldRole) :
    List (String × Node) → Option (List (FieldRole × Option (List String)))
  | [] => some []
  | (key, v) :: rest =>
    match FieldRole.ofKey? key with
    | none => policyEntries? a seen rest
    | some role =>
      if role ∈ seen then none
      else
        match nameList? a v, policyEntries? a (role :: seen) rest with
        | some fields, some es => some ((role, fields) :: es)
        | _, _ => none

/-- A policy. -/
def policy? (a : Anchors) (n : Node) : Option (FieldPolicy × List DroppedName) :=
  (entries? a n).bind fun es => (policyEntries? a [] es).map FieldPolicy.ofEntries

/-- The rule for relative dates: its name, or its name as a tag of null. -/
def dateOverride? (a : Anchors) (n : Node) : Option Sql.DateOverride :=
  match a.resolve n with
  | some (.scalar (some tag) isPlain text) =>
    match tag.toList with
    | '!' :: name =>
      if isPlain && nullWords.contains text then Sql.DateOverride.ofName? (String.ofList name) else none
    | _ => Sql.DateOverride.ofName? text
  | some (.scalar none _ text) => Sql.DateOverride.ofName? text
  | _ => none

/-- The keys of a configuration. -/
inductive Key where
  | policy (b : Backend)
  | dateOverride
deriving DecidableEq, Repr

namespace Key

def name : Key → String
  | policy b => b.name
  | dateOverride => "dateOverride"

/-- The keys in the order in which they are written. -/
def every : List Key := [policy .document, policy .relational, dateOverride]

def ofName? (s : String) : Option Key := every.find? (·.name == s)

end Key

/-- The configuration with one key set from a node. -/
def setKey? (c : Config) (a : Anchors) (n : Node) : Key → Option (Config × List DroppedName)
  | .policy .document => (policy? a n).map fun (p, ws) => ({ c with document := p }, ws)
  | .policy .relational => (policy? a n).map fun (p, ws) => ({ c with relational := p }, ws)
  | .dateOverride => (dateOverride? a n).map fun o => ({ c with dateOverride := o }, [])

/-- The configuration that the entries of a mapping describe, with the names dropped, in the order of the entries. -/
def ofEntries? (a : Anchors) (seen : List Key) (c : Config) :
    List (String × Node) → Option (Config × List DroppedName)
  | [] => some (c, [])
  | (name, v) :: rest =>
    match Key.ofName? name with
    | none => ofEntries? a seen c rest
    | some key =>
      if key ∈ seen then none
      else
        match c.setKey? a v key with
        | none => none
        | some (c', ws) => (ofEntries? a (key :: seen) c' rest).map fun (c'', ws') => (c'', ws ++ ws')

/-- The configuration of a text, before its names are checked. -/
def read? (s : String) : Option (Config × List DroppedName) :=
  match Yaml.Document.read? s with
  | none => none
  | some none => some (default, [])
  | some (some d) => (entries? d.anchors d.root).bind (ofEntries? d.anchors [] default)

/-- Reads the YAML text of a configuration; no list may hold a name of white space only. -/
def ofYaml (s : String) : Except ContentError (Config × List DroppedName) :=
  match read? s with
  | none => .error .malformed
  | some (c, ws) =>
    match c.blankField? with
    | some (b, role) => .error (.blankField b role)
    | none => .ok (c, ws)

/-! ## Writing -/

/-- The lines of one list of a policy. -/
def listLines (role : FieldRole) (fields : List String) : List Char :=
  "  ".toList ++ role.name.toList ++ ":".toList ++
    (if fields.isEmpty then " []\n".toList
      else '\n' :: fields.flatMap fun f => "  - ".toList ++ Yaml.scalarLine 4 f)

/-- The lines of a policy; absent lists are left out. -/
def policyLines (b : Backend) (p : FieldPolicy) : List Char :=
  let lists := FieldRole.every.filterMap fun role => (p.get role).map (role, ·)
  b.name.toList ++ ":".toList ++
    (if lists.isEmpty then " \x7b\x7d\n".toList
      else '\n' :: lists.flatMap fun (role, fields) => listLines role fields)

/-- The YAML text of a configuration. -/
def toYaml (c : Config) : String :=
  String.ofList (policyLines .document c.document ++ policyLines .relational c.relational ++
    "dateOverride: ".toList ++ c.dateOverride.name.toList ++ ['\n'])

end Config

end CompactSearch

/-
Field policies as JSON: an object with a list of names, or null, for each role, or an array of the three in order.
Reading is a machine over the tokens of the text, and the first problem it meets decides the error.
-/
import CompactSearch.Json.Basic
import CompactSearch.Json.Token
import CompactSearch.Policy.Basic

namespace CompactSearch

namespace FieldRole

/-- The role that a key of a stored policy names. -/
def ofKey? (key : String) : Option FieldRole :=
  if key = "anyOf" then some any else every.find? (·.name == key)

end FieldRole

namespace FieldPolicy

/-- The JSON form; absent lists are left out. -/
def toJson (p : FieldPolicy) : Json :=
  .object (FieldRole.every.filterMap fun role =>
    (p.get role).map fun fields => (role.name, .array (fields.map .string)))

end FieldPolicy

namespace Policy

open Json (Token ReadError)

/-! ## Places in the text -/

/-- What is expected inside a value that is passed over. -/
inductive SkipPhase where
  | value
  | valueOrEnd
  | key
  | keyOrEnd
  | colon
  | commaOrEnd
deriving DecidableEq, Repr

/-- An array or an object that is open. -/
inductive Bracket where
  | array
  | object
deriving DecidableEq, Repr

/-- What is expected inside a list of names. -/
inductive ListPhase where
  | name
  | nameOrEnd
  | commaOrEnd
deriving DecidableEq, Repr

/-- A place in the text of a policy. -/
inductive Place where
  | start
  /-- A key, or the end of the object if it is the first one. -/
  | key (first : Bool)
  /-- The colon after a key. -/
  | colon (role : Option FieldRole)
  /-- The value of a role. -/
  | value (role : FieldRole)
  /-- The value of the next role of an array, or the end of the array if it is the first one. -/
  | item (first : Bool)
  /-- Inside the list of a role, with the names so far, the newest first. -/
  | names (role : FieldRole) (phase : ListPhase) (newestFirst : List String)
  /-- Inside a value that is passed over, with the open brackets, the innermost first. -/
  | skip (phase : SkipPhase) (brackets : List Bracket)
  /-- After a value: a comma or the end. -/
  | next
  /-- After the end of the policy. -/
  | done
deriving DecidableEq, Repr

/-- A policy being read: the kind of bracket around it, the lists found so far, the newest first, and the place. -/
structure Reading where
  bracket : Bracket
  entries : List (FieldRole × Option (List String))
  place : Place
deriving DecidableEq, Repr

namespace Reading

def initial : Reading := ⟨.object, [], .start⟩

def goTo (r : Reading) (p : Place) : Reading := { r with place := p }

/-- Records the list of a role and goes on behind it. -/
def record (r : Reading) (role : FieldRole) (fields : Option (List String)) : Reading :=
  { r with entries := (role, fields) :: r.entries, place := .next }

/-- The role of the next item of an array. -/
def nextRole? (r : Reading) : Option FieldRole := FieldRole.every[r.entries.length]?

/-! ## Steps -/

/-- Starts the value of a role: null or a list. -/
def startValue (r : Reading) (role : FieldRole) (t : Token) : Except ReadError Reading :=
  match t with
  | .openArray => .ok (r.goTo (.names role .nameOrEnd []))
  | .plain (.ok true) _ => .ok (r.record role none)
  | .plain (.error e) _ | .string (.error e) _ => .error e
  | .plain (.ok false) _ | .string (.ok _) _ | .openObject => .error .wrongData
  | _ => .error .malformed

/-- Adds a name to the list of a role. -/
def addName (r : Reading) (role : FieldRole) (names : List String) (t : Token) : Except ReadError Reading :=
  match t with
  | .string (.ok s) _ => .ok (r.goTo (.names role .commaOrEnd (s :: names)))
  | .plain (.error e) _ | .string (.error e) _ => .error e
  | .plain (.ok _) _ | .openArray | .openObject => .error .wrongData
  | _ => .error .malformed

/-- Goes on behind a value that is passed over. -/
def afterSkipped (r : Reading) (brackets : List Bracket) : Reading :=
  if brackets.isEmpty then r.goTo .next else r.goTo (.skip .commaOrEnd brackets)

/-- Passes over the start of a value. -/
def skipValue (r : Reading) (brackets : List Bracket) (t : Token) : Except ReadError Reading :=
  match t with
  | .openArray => .ok (r.goTo (.skip .valueOrEnd (.array :: brackets)))
  | .openObject => .ok (r.goTo (.skip .keyOrEnd (.object :: brackets)))
  | .plain _ none | .string _ none => .ok (r.afterSkipped brackets)
  | .plain _ (some e) | .string _ (some e) => .error e
  | _ => .error .malformed

/-- Passes over a key. -/
def skipKey (r : Reading) (brackets : List Bracket) (t : Token) : Except ReadError Reading :=
  match t with
  | .string _ none => .ok (r.goTo (.skip .colon brackets))
  | .string _ (some e) => .error e
  | _ => .error .malformed

/-- One token inside a value that is passed over. -/
def skipStep (r : Reading) (phase : SkipPhase) (brackets : List Bracket) (t : Token) : Except ReadError Reading :=
  match phase, t, brackets with
  | .valueOrEnd, .closeArray, _ :: outer => .ok (r.afterSkipped outer)
  | .keyOrEnd, .closeObject, _ :: outer => .ok (r.afterSkipped outer)
  | .value, _, _ | .valueOrEnd, _, _ => r.skipValue brackets t
  | .key, _, _ | .keyOrEnd, _, _ => r.skipKey brackets t
  | .colon, .colon, _ => .ok (r.goTo (.skip .value brackets))
  | .commaOrEnd, .comma, .array :: _ => .ok (r.goTo (.skip .value brackets))
  | .commaOrEnd, .comma, .object :: _ => .ok (r.goTo (.skip .key brackets))
  | .commaOrEnd, .closeArray, .array :: outer => .ok (r.afterSkipped outer)
  | .commaOrEnd, .closeObject, .object :: outer => .ok (r.afterSkipped outer)
  | _, _, _ => .error .malformed

/-- One token at the start of the text. -/
def startStep (r : Reading) (t : Token) : Except ReadError Reading :=
  match t with
  | .openObject => .ok { r with bracket := .object, place := .key true }
  | .openArray => .ok { r with bracket := .array, place := .item true }
  | .plain (.error e) _ | .string (.error e) _ => .error e
  | .plain (.ok _) _ | .string (.ok _) _ => .error .wrongData
  | _ => .error .malformed

/-- A key of the object; a role that has its list already cannot have another. -/
def keyStep (r : Reading) (t : Token) : Except ReadError Reading :=
  match t with
  | .string (.ok key) _ =>
    match FieldRole.ofKey? key with
    | none => .ok (r.goTo (.colon none))
    | some role =>
      if r.entries.any (·.1 == role) then .error .wrongData else .ok (r.goTo (.colon (some role)))
  | .string (.error e) _ => .error e
  | _ => .error .malformed

/-- One token. -/
def step (r : Reading) (t : Token) : Except ReadError Reading :=
  match r.place, t with
  | .start, _ => r.startStep t
  | .key true, .closeObject => .ok (r.goTo .done)
  | .key _, _ => r.keyStep t
  | .colon (some role), .colon => .ok (r.goTo (.value role))
  | .colon none, .colon => .ok (r.goTo (.skip .value []))
  | .value role, _ => r.startValue role t
  | .item true, .closeArray => .ok (r.goTo .done)
  | .item _, _ =>
    match r.nextRole? with
    | some role => r.startValue role t
    | none => .error .malformed
  | .names role .nameOrEnd _, .closeArray => .ok (r.record role (some []))
  | .names role .nameOrEnd names, _ | .names role .name names, _ => r.addName role names t
  | .names role .commaOrEnd names, .comma => .ok (r.goTo (.names role .name names))
  | .names role .commaOrEnd names, .closeArray => .ok (r.record role (some names.reverse))
  | .skip phase brackets, _ => r.skipStep phase brackets t
  | .next, .comma =>
    match r.bracket with
    | .object => .ok (r.goTo (.key false))
    | .array => if r.nextRole?.isSome then .ok (r.goTo (.item false)) else .error .malformed
  | .next, .closeObject => if r.bracket = .object then .ok (r.goTo .done) else .error .malformed
  | .next, .closeArray => if r.bracket = .array then .ok (r.goTo .done) else .error .malformed
  | _, _ => .error .malformed

/-- The reading after a list of tokens. -/
def run : Reading → List Token → Except ReadError Reading
  | r, [] => .ok r
  | r, t :: ts =>
    match r.step t with
    | .error e => .error e
    | .ok r' => r'.run ts

end Reading

end Policy

namespace FieldPolicy

/-- Reads the JSON text of a policy; names that a list repeats are dropped and reported. -/
def ofJsonText (s : String) : Except Json.ReadError (FieldPolicy × List DroppedName) :=
  match Policy.Reading.initial.run (Json.tokens s.toList) with
  | .error e => .error e
  | .ok r => if r.place = .done then .ok (ofEntries r.entries.reverse) else .error .endOfInput

end FieldPolicy

end CompactSearch

/-
Field policies: which fields a bare value is looked for in, which fields are matched by pattern, and which hold
points in time. Each list is absent or present, and an absent list differs from an empty one.
-/
namespace CompactSearch

/-- The three lists of a policy. -/
inductive FieldRole where
  /-- Fields that a bare value is looked for in. -/
  | any
  /-- Fields that are matched by substring instead of equality. -/
  | isString
  /-- Fields whose values are points in time. -/
  | isDate
deriving DecidableEq, Repr

namespace FieldRole

def name : FieldRole → String
  | any => "any"
  | isString => "isString"
  | isDate => "isDate"

/-- The roles in the order in which they are written. -/
def every : List FieldRole := [any, isString, isDate]

end FieldRole

/-- Which fields play which role. -/
structure FieldPolicy where
  any : Option (List String) := none
  isString : Option (List String) := none
  isDate : Option (List String) := none
deriving DecidableEq, Repr

/-- A field name that was dropped from a list because the list has it already. -/
structure DroppedName where
  list : String
  field : String
deriving DecidableEq, Repr

namespace DroppedName

def message (w : DroppedName) : String :=
  "policy list=" ++ w.list ++ " duplicate field=" ++ w.field ++ " dropped"

end DroppedName

/-! ## Duplicates -/

/-- The names that are not in `seen` and occur for the first time, and all other names, each in order. -/
def splitRepeated (seen : List String) : List String → List String × List String
  | [] => ([], [])
  | x :: xs =>
    if x ∈ seen then
      let (kept, dropped) := splitRepeated seen xs
      (kept, x :: dropped)
    else
      let (kept, dropped) := splitRepeated (x :: seen) xs
      (x :: kept, dropped)

/-- A list of names without repetitions, with a report of each name dropped under the given list name. -/
def distinctNames (list : String) (fields : List String) : List String × List DroppedName :=
  let (kept, dropped) := splitRepeated [] fields
  (kept, dropped.map (⟨list, ·⟩))

namespace FieldPolicy

/-- The policy without lists. -/
def empty : FieldPolicy := {}

def get (p : FieldPolicy) : FieldRole → Option (List String)
  | .any => p.any
  | .isString => p.isString
  | .isDate => p.isDate

/-- Replaces the list of one role as it is. -/
def put (p : FieldPolicy) (role : FieldRole) (fields : Option (List String)) : FieldPolicy :=
  match role with
  | .any => { p with any := fields }
  | .isString => { p with isString := fields }
  | .isDate => { p with isDate := fields }

/-- Replaces the list of one role by the distinct names among `fields`. -/
def set (p : FieldPolicy) (role : FieldRole) (fields : List String) : FieldPolicy × List DroppedName :=
  let (kept, dropped) := distinctNames role.name fields
  (p.put role (some kept), dropped)

/-- Puts the lists that a stored policy holds in place, in the order in which they are met; each is cleared of repeated
names. -/
def ofEntries : List (FieldRole × Option (List String)) → FieldPolicy × List DroppedName
  | [] => (empty, [])
  | (role, fields) :: rest =>
    let (p, later) := ofEntries rest
    match fields with
    | none => (p.put role none, later)
    | some xs =>
      let (kept, dropped) := distinctNames "policy" xs
      (p.put role (some kept), dropped ++ later)

/-- The fields that a bare value is looked for in: the list `any` if it has entries, otherwise the list `isString` if
that has some. -/
def bareFields? (p : FieldPolicy) : Option (List String) :=
  [p.any, p.isString].findSome? fun fields =>
    match fields with
    | some (x :: xs) => some (x :: xs)
    | _ => none

/-- Whether a field is matched by substring; without a list every field is. -/
def isStringField (p : FieldPolicy) (field : String) : Bool :=
  match p.isString with
  | none => true
  | some fields => fields.contains field

/-- Whether a field holds points in time. -/
def isDateField (p : FieldPolicy) (field : String) : Bool :=
  match p.isDate with
  | none => false
  | some fields => fields.contains field

end FieldPolicy

end CompactSearch

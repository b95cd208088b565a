import BoundaryHeap.Double.Basic

/-!
JSON values. An object is the list of its members in the order in which they are written;
`normalize` gives every object inside a value the canonical order, by key and without repetition.
-/

namespace BoundaryHeap.Json

/-- A number, by the form in which it was written. -/
inductive Number where
  /-- A whole number from zero on. -/
  | natural (value : Nat)
  /-- The opposite of a whole number. -/
  | negative (value : Nat)
  /-- Any other number. -/
  | real (value : Double)
  deriving Repr, DecidableEq

/-- A JSON value. -/
inductive Value where
  | null
  | bool (value : Bool)
  | number (value : Number)
  | string (value : String)
  | array (items : List Value)
  | object (members : List (String × Value))

namespace Value

/-- A whole number as a value. -/
def natural (value : Nat) : Value := number (.natural value)

/-- Puts a member into a list sorted by key, in place of one with the same key. -/
def insertMember (key : String) (value : Value) : List (String × Value) → List (String × Value)
  | [] => [(key, value)]
  | (other, held) :: rest =>
    if key < other then (key, value) :: (other, held) :: rest
    else if key = other then (key, value) :: rest
    else (other, held) :: insertMember key value rest

/-- The members of a list sorted by key. Of members with the same key the last one counts. -/
def sortMembers (members : List (String × Value)) : List (String × Value) :=
  members.foldl (fun sorted member => insertMember member.1 member.2 sorted) []

/-- The object with the members of a list, sorted by key. -/
def ofMembers (members : List (String × Value)) : Value := object (sortMembers members)

mutual

/-- The same value with the members of every object in it sorted. -/
def normalize : Value → Value
  | array items => array (normalizeItems items)
  | object members => ofMembers (normalizeMembers members)
  | value => value

/-- Normalizes every value of a list. -/
def normalizeItems : List Value → List Value
  | [] => []
  | value :: rest => normalize value :: normalizeItems rest

/-- Normalizes the value of every member of a list. -/
def normalizeMembers : List (String × Value) → List (String × Value)
  | [] => []
  | (key, value) :: rest => (key, normalize value) :: normalizeMembers rest

end

end Value

end BoundaryHeap.Json

import ArgumentContract.Json.Shape
import ArgumentContract.Json.Skipping

/-!
# Records

A record is written as an object with one member for each field, or as the list of its fields in
the order of their declaration.  In an object the order is free and further keys are passed over,
but no field may come twice.  Some fields may be left out; in a list only from the end.

Reading starts from a record with every field at its default and sets one field after the other.
-/

namespace ArgumentContract.Json

/-- A field of a record of type `σ`. -/
structure Field (σ : Type) where
  name : String
  /-- Whether an object has to have the field. -/
  neededInObject : Bool
  /-- Whether a list has to reach the field. -/
  neededInList : Bool
  /-- Reads the value of the field and sets it. -/
  read : Nat → σ → Reader σ

/-- How records of type `σ` are written. -/
structure Record (σ : Type) where
  title : String
  fields : List (Field σ)
  /-- The record with every field at its default. -/
  blank : σ

namespace Record

variable {σ : Type}

/-- Reads one member of an object behind its key, given the names of the fields read so far. -/
def readMember (record : Record σ) (depth : Nat) (seen : List String) (state : σ)
    (key : String) : Reader (List String × σ) := fun text =>
  match record.fields.find? (·.name = key) with
  | some field =>
      if seen.contains key then .error (.duplicateField key)
      else do
        let (state, rest) ← field.read depth state (← readColon text)
        return ((key :: seen, state), rest)
  | none => do
      let rest ← skipDocument (← readColon text)
      return ((seen, state), rest)

def readMembers (record : Record σ) (depth : Nat) :
    Nat → Bool → List String → σ → Reader (List String × σ)
  | 0, _, _, _, _ => .error (.unfinished .object)
  | count + 1, first, seen, state, text => do
      match ← nextKey first text with
      | .closed rest => return ((seen, state), rest)
      | .element rest =>
          let (key, rest) ← readString rest
          let ((seen, state), rest) ← record.readMember depth seen state key rest
          record.readMembers depth count false seen state rest

/-- Reads a record behind the brace that opens it. -/
def readObject (record : Record σ) (depth : Nat) : Reader σ := fun text => do
  let ((seen, state), rest) ←
    record.readMembers depth text.length true [] record.blank text
  match record.fields.find? fun field => field.neededInObject && !seen.contains field.name with
  | some field => .error (.missingField field.name)
  | none => return (state, rest)

/-- Reads the remaining fields of a record from a list, after `count` of them. -/
def readPositions (record : Record σ) (depth : Nat) :
    Nat → List (Field σ) → σ → Reader σ
  | _, [], state, text => do return (state, ← closeList text)
  | count, field :: fields, state, text => do
      match ← nextItem (count = 0) text with
      | .closed rest =>
          if (field :: fields).any (·.neededInList) then
            .error (.wrongLength count record.title record.fields.length)
          else return (state, rest)
      | .element rest =>
          let (state, rest) ← field.read depth state rest
          record.readPositions depth (count + 1) fields state rest

def read (record : Record σ) (depth : Nat) : Reader σ := fun text =>
  match skipBlanks text with
  | '[' :: rest =>
      match depth with
      | 0 => .error .nestedTooDeeply
      | depth + 1 => record.readPositions depth 0 record.fields record.blank rest
  | '\x7b' :: rest =>
      match depth with
      | 0 => .error .nestedTooDeeply
      | depth + 1 => record.readObject depth rest
  | _ => .error (wrongShape (.record record.title) text)

end Record

end ArgumentContract.Json

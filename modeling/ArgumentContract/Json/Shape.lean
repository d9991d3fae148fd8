import ArgumentContract.Json.Tree

/-!
# Reading documents of a known shape

Where only one shape will do, a document of another shape is a fault that names what was found.
Numbers and strings are read for that as a whole, so that their own faults come first; lists and
objects are not looked into.
-/

namespace ArgumentContract.Json

/-- An atom as a fault mentions it. -/
def Found.ofAtom : Json → Found
  | .null => .null
  | .bool b => .bool b
  | .number n => .number n
  | .string text => .string text
  | .array _ => .sequence
  | .object _ => .map

/-- The fault of a text that starts with a document of another shape than was wanted. -/
def wrongShape (wanted : Wanted) (text : List Char) : Fault :=
  match skipBlanks text with
  | '[' :: _ => .wrongType .sequence wanted
  | '\x7b' :: _ => .wrongType .map wanted
  | text =>
      match readAtom text with
      | .ok (atom, _) => .wrongType (Found.ofAtom atom) wanted
      | .error fault => fault

def readText : Reader String := fun text =>
  match skipBlanks text with
  | '"' :: rest => readString rest
  | _ => .error (wrongShape .string text)

def readUnit (text : List Char) : Except Fault (List Char) :=
  match skipBlanks text with
  | 'n' :: rest => readWord "ull".toList rest
  | _ => .error (wrongShape .unit text)

def readOptional {α : Type} (reader : Reader α) : Reader (Option α) := fun text =>
  match skipBlanks text with
  | 'n' :: rest => do return (none, ← readWord "ull".toList rest)
  | _ => do
      let (found, rest) ← reader text
      return (some found, rest)

/-- Reads an unsigned 64-bit integer. -/
def readNatural : Reader Nat := fun text =>
  match skipBlanks text with
  | c :: rest =>
      if startsNumber c then do
        let (n, rest) ← readNumber (c :: rest)
        match n with
        | .integer n =>
            if 0 ≤ n then return (n.toNat, rest)
            else .error (.wrongValue (.number (.integer n)) .natural)
        | .real x => .error (.wrongType (.number (.real x)) .natural)
      else .error (wrongShape .natural text)
  | [] => .error (wrongShape .natural text)

/-- Reads a list whose elements have a known shape. -/
def readList {α : Type} (item : Nat → Reader α) (depth : Nat) : Reader (List α) := fun text =>
  match skipBlanks text with
  | '[' :: rest =>
      match depth with
      | 0 => .error .nestedTooDeeply
      | depth + 1 => readItems (item depth) rest.length true rest
  | _ => .error (wrongShape .sequence text)

/-- Reads one of several names.  A name may also be the only key of an object, with null as its
value. -/
def readVariant {α : Type} (ofName? : String → Option α) (names : List String)
    (depth : Nat) : Reader α := fun text =>
  let choose (name : String) : Except Fault α :=
    match ofName? name with
    | some variant => .ok variant
    | none => .error (.unknownVariant name names)
  match skipBlanks text with
  | [] => .error (.unfinished .value)
  | '"' :: rest => do
      let (name, rest) ← readString rest
      return (← choose name, rest)
  | '\x7b' :: rest =>
      if depth = 0 then .error .nestedTooDeeply
      else do
        match ← nextKey true rest with
        | .closed _ => .error .expectedValue
        | .element rest =>
            let (name, rest) ← readString rest
            let variant ← choose name
            let rest ← readUnit (← readColon rest)
            match skipBlanks rest with
            | [] => .error (.unfinished .object)
            | '\x7d' :: rest => return (variant, rest)
            | _ => .error .expectedValue
  | _ => .error .expectedValue

end ArgumentContract.Json

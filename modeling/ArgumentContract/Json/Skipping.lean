import ArgumentContract.Json.Tree

/-!
# Passing over documents

The value of a key that nobody asked for is passed over.  It still has to be a document, but it
may be nested to any depth, its numbers may have any size and its strings may hold halves of
pairs.  The lists and objects that are open are kept on a stack.
-/

namespace ArgumentContract.Json

inductive Container
  | list
  | object
deriving DecidableEq, Repr

namespace Container

def closing : Container → Char
  | list => ']'
  | object => '\x7d'

def unfinished : Container → Fault
  | list => .unfinished .list
  | object => .unfinished .object

def expectedSeparator : Container → Fault
  | list => .expectedListSeparator
  | object => .expectedObjectSeparator

end Container

/-- Where the reading of a document that is passed over stands. -/
inductive Position
  /-- A value has to follow. -/
  | value
  /-- The innermost container was just opened. -/
  | opened
  /-- A value of the innermost container ended. -/
  | ended
deriving DecidableEq, Repr

def skipKey (text : List Char) : Except Fault (List Char) :=
  match skipBlanks text with
  | [] => .error (.unfinished .object)
  | '"' :: rest => do readColon (← skipString rest)
  | _ => .error .keyNotString

/-- Passes over whatever stands in front of a value in a container. -/
def Container.enter (container : Container) (text : List Char) : Except Fault (List Char) :=
  match container with
  | list => .ok text
  | object => skipKey text

/-- Passes over a value that is neither a list nor an object. -/
def skipAtom : List Char → Except Fault (List Char)
  | [] => .error (.unfinished .value)
  | 'n' :: text => readWord "ull".toList text
  | 't' :: text => readWord "rue".toList text
  | 'f' :: text => readWord "alse".toList text
  | '"' :: text => skipString text
  | c :: text => if startsNumber c then skipNumber (c :: text) else .error .expectedValue

/-- Passes over the rest of a document with the given containers open.  A step that takes no
character only turns to the first element of a list, or finds that no container is open. -/
def skipOpen : Nat → Position → List Container → List Char → Except Fault (List Char)
  | 0, _, _, _ => .error (.unfinished .value)
  | count + 1, .value, stack, text =>
      match skipBlanks text with
      | '[' :: rest => skipOpen count .opened (.list :: stack) rest
      | '\x7b' :: rest => skipOpen count .opened (.object :: stack) rest
      | text => do skipOpen count .ended stack (← skipAtom text)
  | _ + 1, .opened, [], text | _ + 1, .ended, [], text => .ok text
  | count + 1, .opened, container :: stack, text =>
      match skipBlanks text with
      | [] => .error container.unfinished
      | c :: rest =>
          if c = container.closing then skipOpen count .ended stack rest
          else do
            skipOpen count .value (container :: stack) (← container.enter (c :: rest))
  | count + 1, .ended, container :: stack, text =>
      match skipBlanks text with
      | [] => .error container.unfinished
      | c :: rest =>
          if c = container.closing then skipOpen count .ended stack rest
          else if c = ',' then do
            skipOpen count .value (container :: stack) (← container.enter rest)
          else .error container.expectedSeparator

def skipDocument (text : List Char) : Except Fault (List Char) :=
  skipOpen (2 * text.length + 2) .value [] text

end ArgumentContract.Json

import ArgumentContract.Report.Restatement

/-!
# Restating in one pass

A restatement can also be made in one pass that walks over the tokens of the message with an index
and keeps the byte offset up to which the message has been dealt with.  Here offsets are unsigned,
and parts of the message may only be cut out from one character boundary to a later one; a pass that
broke this rule would stop with a fault.

Where an occurrence would start is computed whenever its first and its last token are words,
whatever the tokens in between are.  What comes of a difference below zero is a matter of the
arithmetic.
-/

namespace ArgumentContract.Restatement

/-- How unsigned arithmetic takes a difference below zero. -/
inductive Arithmetic
  | checked
  /-- Offsets have 64 bits, and a difference wraps around. -/
  | wrapping
deriving DecidableEq, Repr

/-- How a pass can go wrong. -/
inductive PassFault
  /-- An offset would lie in front of the message. -/
  | negativeOffset (stop count : Nat)
  /-- A part of the message was asked for that is none. -/
  | badCut (part : Span)
deriving DecidableEq, Repr

/-- The offset that lies `count` bytes in front of another one. -/
def Arithmetic.minus (arithmetic : Arithmetic) (stop count : Nat) : Except PassFault Nat :=
  if count ≤ stop then .ok (stop - count)
  else
    match arithmetic with
    | checked => .error (.negativeOffset stop count)
    | wrapping => .ok (0x10000000000000000 + stop - count)

/-- Whether an offset lies between two characters of a text or at one of its ends. -/
def isBoundary (text : List Char) (offset : Nat) : Bool :=
  Text.width (Text.takeBytes offset text) == offset

/-- The part of a text from one offset to another. -/
def cut (text : List Char) (part : Span) : Except PassFault (List Char) :=
  if part.start ≤ part.stop ∧ isBoundary text part.start ∧ isBoundary text part.stop then
    .ok (Text.takeBytes (part.stop - part.start) (Text.dropBytes part.start text))
  else .error (.badCut part)

/-- The tokens between the first word of an occurrence and its type name. -/
def middle : List Token :=
  [.space, .word "instance".toList, .space, .word "of".toList, .space]

/-- The part of the message that a phrase replaces, if the tokens begin with an occurrence. -/
def occurrenceByOffset (arithmetic : Arithmetic) :
    List Located → Except PassFault (Option Span)
  | ⟨.word first, leadSpan⟩ :: second :: third :: fourth :: fifth :: sixth ::
      ⟨.word _, typeSpan⟩ :: _ => do
      let start ← arithmetic.minus leadSpan.stop (Text.width "an".toList)
      let between := [second, third, fourth, fifth, sixth].map Located.token
      return if "an".toList <:+ first ∧ between = middle then some ⟨start, typeSpan.stop⟩
        else none
  | _ => return none

/-- How far a pass has come. -/
structure Progress where
  /-- The token that is looked at next. -/
  index : Nat
  /-- The offset behind the last occurrence that was found. -/
  copied : Nat
  written : List Char
deriving DecidableEq, Repr

/-- A pass over a message. -/
structure Pass where
  arithmetic : Arithmetic
  message : String
  phrase : String

namespace Pass

def start : Progress := ⟨0, 0, []⟩

/-- Looks for an occurrence at the next token. -/
def advance (pass : Pass) (progress : Progress) : Except PassFault Progress := do
  let unread := (tokenize pass.message).drop progress.index
  match ← occurrenceByOffset pass.arithmetic unread with
  | some part =>
      let kept ← cut pass.message.toList ⟨progress.copied, part.start⟩
      return {
        index := progress.index + occurrenceLength
        copied := part.stop
        written := progress.written ++ kept ++ pass.phrase.toList
      }
  | none => return { progress with index := progress.index + 1 }

theorem index_lt_of_advance
    {pass : Pass} {progress next : Progress} (hnext : pass.advance progress = .ok next) :
    progress.index < next.index := by
  simp only [advance, bind, Except.bind, pure, Except.pure] at hnext
  split at hnext
  next => contradiction
  next =>
    split at hnext
    next =>
      split at hnext
      next => contradiction
      next =>
        rw [← Except.ok.inj hnext]
        exact Nat.lt_add_of_pos_right (by decide)
    next =>
      rw [← Except.ok.inj hnext]
      exact Nat.lt_succ_self _

/-- Goes on to the end of the message and copies what is left of it. -/
def finish (pass : Pass) (progress : Progress) : Except PassFault (List Char) :=
  if progress.index < (tokenize pass.message).length then
    match _hnext : pass.advance progress with
    | .error fault => .error fault
    | .ok next => finish pass next
  else do
    let rest ← cut pass.message.toList ⟨progress.copied, Text.width pass.message.toList⟩
    return progress.written ++ rest
termination_by (tokenize pass.message).length - progress.index
decreasing_by
  have hlt := index_lt_of_advance _hnext
  omega

end Pass

/-- States a phrase in place of each occurrence, in one pass. -/
def restateInOnePass (arithmetic : Arithmetic) (message phrase : String) :
    Except PassFault String := do
  return String.ofList (← Pass.finish ⟨arithmetic, message, phrase⟩ Pass.start)

end ArgumentContract.Restatement

import ArgumentContract.Message.Token

/-!
# Stating a contract in a message

The words `an instance of` and the type name after them are replaced by a phrase, wherever they
occur in a message; all other text is kept as it is.  Occurrences are found on the tokens of the
message, from left to right and without overlap.  The first word of an occurrence only has to end
in `an`: what precedes these two letters is kept.
-/

namespace ArgumentContract.Restatement

def occurrenceLength : Nat := 7

/-- The part of the message that a phrase replaces, if the tokens begin with an occurrence. -/
def occurrence? : List Located → Option Span
  | ⟨.word lead, leadSpan⟩ :: ⟨.space, _⟩ :: ⟨.word second, _⟩ :: ⟨.space, _⟩ ::
      ⟨.word third, _⟩ :: ⟨.space, _⟩ :: ⟨.word _, typeSpan⟩ :: _ =>
      if "an".toList <:+ lead ∧ second = "instance".toList ∧ third = "of".toList then
        some ⟨leadSpan.stop - Text.width "an".toList, typeSpan.stop⟩
      else none
  | _ => none

/-- The token streams at which an occurrence is looked for, in order, when the first `skipped`
tokens are passed over.  The tokens of an occurrence that was found are passed over as well. -/
def attempts (skipped : Nat) : List Located → List (List Located)
  | [] => []
  | token :: rest =>
      match skipped with
      | skipped + 1 => attempts skipped rest
      | 0 =>
          let passed :=
            if (occurrence? (token :: rest)).isSome then occurrenceLength - 1 else 0
          (token :: rest) :: attempts passed rest

/-- The parts of a message that a phrase replaces, from left to right. -/
def occurrences (tokens : List Located) : List Span :=
  (attempts 0 tokens).filterMap occurrence?

/-- Replaces parts of a text by a phrase.  `text` is what is left of the message from the byte
offset `copied` on. -/
def splice (phrase : List Char) (copied : Nat) (text : List Char) : List Span → List Char
  | [] => text
  | span :: spans =>
      Text.takeBytes (span.start - copied) text ++ phrase ++
        splice phrase span.stop (Text.dropBytes (span.stop - copied) text) spans

/-- States a phrase in place of each occurrence. -/
def restate (message phrase : String) : String :=
  String.ofList (splice phrase.toList 0 message.toList (occurrences (tokenize message)))

end ArgumentContract.Restatement

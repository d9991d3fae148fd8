import ArgumentContract.Text.Width

/-!
# Tokens of a message

A message is cut into words, single spaces, the marks `::`, `()` and `,`, and single other
characters.  Words are taken as long as possible and two-character marks win over their first
character alone.  Every character lands in exactly one token, so that the texts of the tokens
make up the message again.

Tokens are found in order; `tokenize` also records the byte span of each.
-/

namespace ArgumentContract

/-- ASCII letters, digits and the underscore make up words. -/
def isWordChar (c : Char) : Bool := c.isAlphanum || c == '_'

/-- A piece of a message.  `other` is any character that no other kind covers. -/
inductive Token
  | space
  | scopeMark
  | parens
  | comma
  | word (letters : List Char)
  | other (c : Char)
deriving DecidableEq, Repr

namespace Token

/-- The characters of the message that a token stands for. -/
def text : Token → List Char
  | space => [' ']
  | scopeMark => [':', ':']
  | parens => ['(', ')']
  | comma => [',']
  | word letters => letters
  | other c => [c]

/-- How a token is named in an explanation. -/
def display : Token → String
  | space => "' '"
  | scopeMark => "::"
  | parens => "()"
  | comma => ","
  | word letters => String.ofList letters
  | other _ => "<unknown>"

/-- The token of a character that belongs to no word and to no two-character mark. -/
def single : Char → Token
  | ' ' => space
  | ',' => comma
  | c => other c

/-- Puts a word character in front of a token stream, into its first word if it starts with
one. -/
def joinLetter (c : Char) : List Token → List Token
  | word letters :: rest => word (c :: letters) :: rest
  | tokens => word [c] :: tokens

def scan : List Char → List Token
  | [] => []
  | ':' :: ':' :: rest => scopeMark :: scan rest
  | '(' :: ')' :: rest => parens :: scan rest
  | c :: rest =>
      if isWordChar c then
        joinLetter c (scan rest)
      else single c :: scan rest

theorem text_single (c : Char) : (single c).text = [c] := by
  unfold single
  split <;> rfl

theorem flatMap_text_joinLetter (c : Char) (tokens : List Token) :
    (joinLetter c tokens).flatMap text = c :: tokens.flatMap text := by
  unfold joinLetter
  split <;> simp [text]

/-- Nothing of the message is lost or invented. -/
theorem flatMap_text_scan (message : List Char) :
    (scan message).flatMap text = message := by
  fun_induction scan message with
  | case1 => rfl
  | case2 rest ih => simp [text, ih]
  | case3 rest ih => simp [text, ih]
  | case4 c rest _ _ hword ih =>
      rw [flatMap_text_joinLetter, ih]
  | case5 c rest _ _ hword ih =>
      simp [text_single, ih]

end Token

/-- A half-open range of byte offsets. -/
structure Span where
  start : Nat
  stop : Nat
deriving DecidableEq, Repr

/-- A token together with its place in the message. -/
structure Located where
  token : Token
  span : Span
deriving DecidableEq, Repr

/-- Places tokens one after the other, the first one at `offset`. -/
def locate (offset : Nat) : List Token → List Located
  | [] => []
  | token :: rest =>
      let stop := offset + Text.width token.text
      ⟨token, ⟨offset, stop⟩⟩ :: locate stop rest

def tokenize (message : String) : List Located :=
  locate 0 (Token.scan message.toList)

theorem map_token_locate (offset : Nat) (tokens : List Token) :
    (locate offset tokens).map Located.token = tokens := by
  induction tokens generalizing offset with
  | nil => rfl
  | cons token rest ih => simp [locate, ih]

theorem length_locate (offset : Nat) (tokens : List Token) :
    (locate offset tokens).length = tokens.length := by
  rw [← List.length_map Located.token, map_token_locate]

theorem locate_append (offset : Nat) (left right : List Token) :
    locate offset (left ++ right) =
      locate offset left ++ locate (offset + Text.width (left.flatMap Token.text)) right := by
  induction left generalizing offset with
  | nil => rfl
  | cons token left ih =>
      simp only [List.cons_append, locate, ih, List.flatMap_cons, Text.width_append,
        Nat.add_assoc]

end ArgumentContract

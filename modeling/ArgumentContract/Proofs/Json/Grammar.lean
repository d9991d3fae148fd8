import ArgumentContract.Json.Tree
import Mathlib.Data.List.Forall2

/-!
# The grammar of JSON texts

Which texts are JSON, told without a reader.  A `Source` is a document as it is written: numbers
keep the parts of their literals, so that a source may hold numbers out of range, and strings may
hold half of a pair of code units without the other half.  A text spells a source if it is written
by the rules of the grammar, with any blanks between the parts and with any choice of escapes.

Lists and objects are counted as they are opened: `Spells depth` allows `depth` of them at once.
-/

namespace ArgumentContract.Json

/-- A character of a string literal, or an escaped half of a pair that stands alone. -/
inductive Letter
  | char (c : Char)
  | half (unit : Nat)
deriving DecidableEq, Repr

/-- A document as it is written. -/
inductive Source
  | null
  | bool (b : Bool)
  | number (parts : NumberParts)
  | string (letters : List Letter)
  | array (items : List Source)
  | object (members : List (List Letter × Source))

def IsBlanks (text : List Char) : Prop := ∀ c ∈ text, isBlank c = true

/-! ## Numbers -/

/-- A run of digits, at least one. -/
def IsDigits (digits : List Char) : Prop := digits ≠ [] ∧ ∀ c ∈ digits, c.isDigit = true

/-- Digits without a superfluous zero in front. -/
def IsWhole (digits : List Char) : Prop :=
  IsDigits digits ∧ ∀ c more, digits ≠ '0' :: c :: more

inductive SpellsFraction : List Char → Option (List Char) → Prop
  | absent : SpellsFraction [] none
  | digits {digits : List Char} (hdigits : IsDigits digits) :
      SpellsFraction ('.' :: digits) (some digits)

inductive SpellsExponent : List Char → Option Int → Prop
  | absent : SpellsExponent [] none
  | positive {mark : Char} {sign digits : List Char} (hmark : mark = 'e' ∨ mark = 'E')
      (hsign : sign = [] ∨ sign = ['+']) (hdigits : IsDigits digits) :
      SpellsExponent (mark :: (sign ++ digits)) (some (Text.decimalValue digits))
  | negative {mark : Char} {digits : List Char} (hmark : mark = 'e' ∨ mark = 'E')
      (hdigits : IsDigits digits) :
      SpellsExponent (mark :: '-' :: digits) (some (-Text.decimalValue digits))

def minusSign (negative : Bool) : List Char := if negative then ['-'] else []

def SpellsNumber (text : List Char) (parts : NumberParts) : Prop :=
  ∃ fraction exponent,
    text = minusSign parts.negative ++ (parts.whole ++ (fraction ++ exponent)) ∧
      IsWhole parts.whole ∧ SpellsFraction fraction parts.fraction ∧
      SpellsExponent exponent parts.exponent

/-! ## Strings -/

inductive SpellsLetter : List Char → Letter → Prop
  | plain {c : Char} (hquote : c ≠ '"') (hbackslash : c ≠ '\\') (hcontrol : 0x20 ≤ c.toNat) :
      SpellsLetter [c] (.char c)
  | escaped {mark c : Char} (hescaped : escapedChar? mark = some c) :
      SpellsLetter ['\\', mark] (.char c)
  | unit {a b c d : Char} {unit : Nat} (hunit : codeUnit? a b c d = some unit)
      (hleading : isLeading unit = false) (htrailing : isTrailing unit = false) :
      SpellsLetter ['\\', 'u', a, b, c, d] (.char (Char.ofNat unit))
  | pair {a b c d e f g h : Char} {leading trailing : Nat}
      (hleadingUnit : codeUnit? a b c d = some leading) (hleading : isLeading leading = true)
      (htrailingUnit : codeUnit? e f g h = some trailing)
      (htrailing : isTrailing trailing = true) :
      SpellsLetter ['\\', 'u', a, b, c, d, '\\', 'u', e, f, g, h]
        (.char (pairedChar leading trailing))
  | half {a b c d : Char} {unit : Nat} (hunit : codeUnit? a b c d = some unit)
      (hhalf : isLeading unit = true ∨ isTrailing unit = true) :
      SpellsLetter ['\\', 'u', a, b, c, d] (.half unit)

/-- Two halves in a row that make up a pair, and are therefore one character. -/
def IsPair : Letter → List Letter → Prop
  | .half leading, .half trailing :: _ =>
      isLeading leading = true ∧ isTrailing trailing = true
  | _, _ => False

inductive SpellsLetters : List Char → List Letter → Prop
  | nil : SpellsLetters [] []
  | cons {front rest : List Char} {letter : Letter} {letters : List Letter}
      (hletter : SpellsLetter front letter) (hletters : SpellsLetters rest letters)
      (halone : ¬ IsPair letter letters) : SpellsLetters (front ++ rest) (letter :: letters)

/-- Characters that are written one by one stand for themselves. -/
theorem SpellsLetters.flatMap
    {write : Char → List Char} {chars : List Char}
    (hwrite : ∀ c ∈ chars, SpellsLetter (write c) (.char c)) :
    SpellsLetters (chars.flatMap write) (chars.map .char) := by
  induction chars with
  | nil => exact .nil
  | cons c chars ih =>
      rw [List.forall_mem_cons] at hwrite
      exact .cons hwrite.1 (ih hwrite.2) nofun

/-! ## Documents -/

/-- A part of a list or an object with the blanks around it. -/
structure Element where
  before : List Char
  text : List Char
  after : List Char
  source : Source

namespace Element

def padded (element : Element) : List Char := element.before ++ (element.text ++ element.after)

def IsPadded (element : Element) : Prop := IsBlanks element.before ∧ IsBlanks element.after

end Element

/-- A member of an object with the blanks around its key and its value. -/
structure Member where
  before : List Char
  key : List Char
  after : List Char
  letters : List Letter
  value : Element

namespace Member

def padded (member : Member) : List Char :=
  member.before ++ '"' :: (member.key ++ '"' :: (member.after ++ ':' :: member.value.padded))

def source (member : Member) : List Letter × Source := (member.letters, member.value.source)

structure IsKeyed (member : Member) : Prop where
  before : IsBlanks member.before
  after : IsBlanks member.after
  value : member.value.IsPadded
  letters : SpellsLetters member.key member.letters

end Member

/-- A text spells a document with at most `depth` lists and objects open at once. -/
inductive Spells : Nat → List Char → Source → Prop
  | null (depth : Nat) : Spells depth "null".toList .null
  | bool (depth : Nat) (b : Bool) :
      Spells depth (if b then "true" else "false").toList (.bool b)
  | number (depth : Nat) {text : List Char} {parts : NumberParts}
      (hnumber : SpellsNumber text parts) : Spells depth text (.number parts)
  | string (depth : Nat) {text : List Char} {letters : List Letter}
      (hletters : SpellsLetters text letters) :
      Spells depth ('"' :: (text ++ ['"'])) (.string letters)
  | array {depth : Nat} {blanks : List Char} {elements : List Element}
      (hblanks : IsBlanks blanks) (hpadded : ∀ element ∈ elements, element.IsPadded)
      (helements : ∀ element ∈ elements, Spells depth element.text element.source) :
      Spells (depth + 1)
        ('[' :: (blanks ++ (separate [','] (elements.map Element.padded) ++ [']'])))
        (.array (elements.map Element.source))
  | object {depth : Nat} {blanks : List Char} {members : List Member}
      (hblanks : IsBlanks blanks) (hkeyed : ∀ member ∈ members, member.IsKeyed)
      (hmembers : ∀ member ∈ members, Spells depth member.value.text member.value.source) :
      Spells (depth + 1)
        ('\x7b' :: (blanks ++ (separate [','] (members.map Member.padded) ++ ['\x7d'])))
        (.object (members.map Member.source))

/-- A text spells a document with any blanks around it. -/
def SpellsDocument (depth : Nat) (text : String) (source : Source) : Prop :=
  ∃ before core after, text.toList = before ++ (core ++ after) ∧ IsBlanks before ∧
    IsBlanks after ∧ Spells depth core source

/-! ## What a source stands for -/

theorem mapM_eq_some_iff
    {α β : Type} {f : α → Option β} {R : α → β → Prop} {items : List α} {found : List β}
    (hf : ∀ item ∈ items, ∀ x, f item = some x ↔ R item x) :
    items.mapM f = some found ↔ List.Forall₂ R items found := by
  induction items generalizing found with
  | nil => cases found <;> simp
  | cons item items ih =>
      rw [List.forall_mem_cons] at hf
      simp only [List.mapM_cons, Option.bind_eq_bind, Option.bind_eq_some_iff, hf.1,
        ih hf.2, Option.pure_def, Option.some.injEq, List.forall₂_cons_left_iff]
      constructor
      · rintro ⟨x, hx, rest, hrest, rfl⟩
        exact ⟨x, rest, hx, hrest, rfl⟩
      · rintro ⟨x, rest, hx, hrest, rfl⟩
        exact ⟨x, hx, rest, hrest, rfl⟩

theorem mapM_eq_none_iff {α β : Type} {f : α → Option β} {items : List α} :
    items.mapM f = none ↔ ∃ item ∈ items, f item = none := by
  induction items with
  | nil => simp
  | cons item items ih =>
      simp only [List.mapM_cons, List.mem_cons, or_and_right, exists_or, exists_eq_left, ← ih]
      cases f item <;> cases items.mapM f <;> simp

def Letter.char? : Letter → Option Char
  | char c => some c
  | half _ => none

/-- The text of a string literal, unless a half stands alone in it. -/
def textOf? (letters : List Letter) : Option String :=
  (letters.mapM Letter.char?).map String.ofList

/-- The letters of a string literal in which no half stands alone. -/
def lettersOf (text : String) : List Letter := text.toList.map .char

theorem SpellsLetters.of_plain
    {text : String} (hplain : ∀ c ∈ text.toList, c ≠ '"' ∧ c ≠ '\\' ∧ 0x20 ≤ c.toNat) :
    SpellsLetters text.toList (lettersOf text) := by
  have hspells : SpellsLetters (text.toList.flatMap fun c => [c]) (lettersOf text) :=
    .flatMap fun c hmem => .plain (hplain c hmem).1 (hplain c hmem).2.1 (hplain c hmem).2.2
  rw [List.flatMap_singleton'] at hspells
  exact hspells

theorem mapM_char?_eq_some_iff {letters : List Letter} {chars : List Char} :
    letters.mapM Letter.char? = some chars ↔ letters = chars.map .char := by
  have hchar : ∀ letter ∈ letters, ∀ c, letter.char? = some c ↔ letter = .char c := by
    intro letter _ c
    cases letter <;> simp [Letter.char?]
  rw [mapM_eq_some_iff hchar, ← List.forall₂_map_right_iff (f := Letter.char),
    List.forall₂_eq_eq_eq]

theorem textOf?_eq_some_iff {letters : List Letter} {text : String} :
    textOf? letters = some text ↔ letters = lettersOf text := by
  rw [textOf?, Option.map_eq_some_iff, lettersOf]
  constructor
  · rintro ⟨chars, hchars, rfl⟩
    rw [String.toList_ofList]
    exact mapM_char?_eq_some_iff.mp hchars
  · intro hletters
    exact ⟨text.toList, mapM_char?_eq_some_iff.mpr hletters, String.ofList_toList⟩

theorem textOf?_lettersOf (text : String) : textOf? (lettersOf text) = some text :=
  textOf?_eq_some_iff.mpr rfl

theorem lettersOf_inj {left right : String} : lettersOf left = lettersOf right ↔ left = right := by
  constructor
  · intro hletters
    have htext := textOf?_lettersOf left
    rw [hletters, textOf?_lettersOf] at htext
    exact (Option.some.inj htext).symm
  · intro heq
    rw [heq]

namespace Source

/-- No number of a document is out of range, and no half stands alone in its strings. -/
inductive Complete : Source → Prop
  | null : Complete .null
  | bool (b : Bool) : Complete (.bool b)
  | number {parts : NumberParts} (hrange : parts.real? ≠ none) : Complete (.number parts)
  | string (text : String) : Complete (.string (lettersOf text))
  | array {items : List Source} (hitems : ∀ item ∈ items, Complete item) :
      Complete (.array items)
  | object {members : List (List Letter × Source)}
      (hkeys : ∀ member ∈ members, ∃ key, member.1 = lettersOf key)
      (hvalues : ∀ member ∈ members, Complete member.2) : Complete (.object members)

mutual

/-- The document that is written, unless a number is out of range or a half stands alone. -/
def document? : Source → Option Json
  | null => some .null
  | bool b => some (.bool b)
  | number parts => parts.number?.map .number
  | string letters => (textOf? letters).map .string
  | array items => (itemDocuments? items).map .array
  | object members => (memberDocuments? members).map .object

def itemDocuments? : List Source → Option (List Json)
  | [] => some []
  | item :: rest => do
      let head ← document? item
      let tail ← itemDocuments? rest
      return head :: tail

def memberDocuments? : List (List Letter × Source) → Option (List (String × Json))
  | [] => some []
  | (letters, value) :: rest => do
      let key ← textOf? letters
      let head ← document? value
      let tail ← memberDocuments? rest
      return (key, head) :: tail

end

theorem itemDocuments?_eq_mapM (items : List Source) :
    itemDocuments? items = items.mapM document? := by
  induction items with
  | nil => rfl
  | cons item rest ih => rw [itemDocuments?, ih, List.mapM_cons]

/-- A member that is written, with its value taken for what `read` makes of it. -/
def member? {α : Type} (read : Source → Option α) (member : List Letter × Source) :
    Option (String × α) := do
  let key ← textOf? member.1
  return (key, ← read member.2)

theorem memberDocuments?_eq_mapM (members : List (List Letter × Source)) :
    memberDocuments? members = members.mapM (member? document?) := by
  induction members with
  | nil => rfl
  | cons member rest ih =>
      rw [memberDocuments?, ih, List.mapM_cons, member?]
      simp [Option.bind_assoc]

end Source

end ArgumentContract.Json

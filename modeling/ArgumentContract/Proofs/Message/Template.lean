import ArgumentContract.Message.Grammar
import ArgumentContract.Proofs.Message.Position
import ArgumentContract.Proofs.Message.Tiling

/-!
# The tokens of the template

A violation can be told from its message if its position is at least one and all of its names are
runs of word characters.  The rendering of such a violation is scanned into one fixed sequence of
tokens, whatever text is appended to it: only the last word, `given`, can grow.  Conversely, a
message whose tokens begin with this sequence begins with the rendering.
-/

namespace ArgumentContract

theorem isWordChar_of_isDigit {c : Char} (hdigit : c.isDigit = true) :
    isWordChar c = true := by
  rw [isWordChar, Char.isAlphanum, hdigit, Bool.or_true, Bool.true_or]

theorem ArgumentIndex.isName_digits (index : ArgumentIndex) :
    IsName index.digits.toList :=
  ⟨index.digits_ne_nil, fun c hmem => isWordChar_of_isDigit (index.digits_isDigit c hmem)⟩

/-- The tokens of a function name with an optional scope. -/
def Grammar.calleeTokens : Option (List Char) → List Char → List Token
  | some scope, function => [.word scope, .scopeMark, .word function, .parens]
  | none, function => [.word function, .parens]

namespace Violation

open Token

/-- A violation that its own message tells again. -/
structure WellFormed (violation : Violation) : Prop where
  index_pos : 1 ≤ violation.index.value
  scope_isName : ∀ scope ∈ violation.scope, IsName scope.toList
  function_isName : IsName violation.function.toList
  expected_isName : IsName violation.expected.toList
  given_isName : IsName violation.given.toList

/-- The tokens of the rendering in front of its last word. -/
def tokens (violation : Violation) : List Token :=
  Grammar.beforeIndex ++ word violation.index.digits.toList ::
    (Grammar.beforeCallee ++
      (Grammar.calleeTokens (violation.scope.map String.toList) violation.function.toList ++
        (Grammar.beforeExpected ++ word violation.expected.toList ::
          (Grammar.beforeGiven ++ [word violation.given.toList, space]))))

/-! ## The texts of the tokens -/

theorem flatMap_text_calleeTokens (violation : Violation) :
    (Grammar.calleeTokens (violation.scope.map String.toList)
        violation.function.toList).flatMap text =
      violation.qualifiedName.toList ++ "()".toList := by
  unfold qualifiedName
  cases violation.scope with
  | none => rfl
  | some scope =>
      simp only [Option.map_some, Grammar.calleeTokens, List.flatMap_cons, List.flatMap_nil,
        text, String.toList_append, List.append_assoc]
      rfl

theorem render_eq (violation : Violation) :
    violation.render =
      "Argument " ++ violation.index.digits
        ++ " passed to " ++ violation.qualifiedName
        ++ "() must be an instance of " ++ violation.expected
        ++ ", " ++ violation.given ++ " given" := rfl

theorem flatMap_text_tokens (violation : Violation) :
    violation.tokens.flatMap text ++ "given".toList = violation.render.toList := by
  rw [render_eq]
  simp only [tokens, flatMap_text_calleeTokens, Grammar.beforeIndex, Grammar.beforeCallee,
    Grammar.beforeExpected, Grammar.beforeGiven, keyword, text, List.flatMap_append,
    List.flatMap_cons, List.flatMap_nil, String.toList_append, List.append_assoc,
    List.append_nil]
  rfl

theorem toList_render_append (violation : Violation) (trailing : String) :
    (violation.render ++ trailing).toList =
      violation.tokens.flatMap text ++ ("given".toList ++ trailing.toList) := by
  rw [String.toList_append, ← flatMap_text_tokens, List.append_assoc]

/-! ## The tokens stand on their own -/

theorem tiles_beforeIndex (rest : List Char) : Tiles rest Grammar.beforeIndex :=
  ⟨⟨by decide, rfl⟩, trivial, trivial⟩

theorem tiles_beforeCallee (rest : List Char) : Tiles rest Grammar.beforeCallee :=
  ⟨trivial, ⟨by decide, rfl⟩, trivial, ⟨by decide, rfl⟩, trivial, trivial⟩

theorem tiles_beforeExpected (rest : List Char) : Tiles rest Grammar.beforeExpected :=
  ⟨trivial, ⟨by decide, rfl⟩, trivial, ⟨by decide, rfl⟩, trivial, ⟨by decide, rfl⟩, trivial,
    ⟨by decide, rfl⟩, trivial, ⟨by decide, rfl⟩, trivial, trivial⟩

theorem WellFormed.tiles_calleeTokens
    {violation : Violation} (hwell : violation.WellFormed) (rest : List Char) :
    Tiles rest
      (Grammar.calleeTokens (violation.scope.map String.toList)
        violation.function.toList) := by
  have hfunction := hwell.function_isName
  cases hscope : violation.scope with
  | none => exact ⟨⟨hfunction, rfl⟩, trivial, trivial⟩
  | some scope =>
      have hname := hwell.scope_isName scope hscope
      exact ⟨⟨hname, rfl⟩, trivial, ⟨hfunction, rfl⟩, trivial, trivial⟩

theorem WellFormed.tiles_tokens
    {violation : Violation} (hwell : violation.WellFormed) (rest : List Char) :
    Tiles rest violation.tokens := by
  have hgiven :
      Tiles rest (Grammar.beforeGiven ++ [word violation.given.toList, space]) :=
    ⟨trivial, trivial, ⟨hwell.given_isName, rfl⟩, trivial, trivial⟩
  have hcontract :
      Tiles rest (Grammar.beforeExpected ++ word violation.expected.toList ::
        (Grammar.beforeGiven ++ [word violation.given.toList, space])) :=
    tiles_append.mpr ⟨tiles_beforeExpected _, ⟨hwell.expected_isName, rfl⟩, hgiven⟩
  have hcallee := tiles_append.mpr ⟨hwell.tiles_calleeTokens _, hcontract⟩
  have hheader := tiles_append.mpr ⟨tiles_beforeCallee _, hcallee⟩
  exact tiles_append.mpr
    ⟨tiles_beforeIndex _, ⟨violation.index.isName_digits, rfl⟩, hheader⟩

/-- The rendering is scanned into the tokens of the template.  The text after it can only make
the last word longer. -/
theorem WellFormed.scan_render_append
    {violation : Violation} (hwell : violation.WellFormed) (trailing : String) :
    ∃ letters rest,
      scan (violation.render ++ trailing).toList =
        violation.tokens ++ word ("given".toList ++ letters) :: rest := by
  refine ⟨trailing.toList.takeWhile isWordChar,
    scan (trailing.toList.dropWhile isWordChar), ?_⟩
  have hgiven : IsName "given".toList := by decide
  have hlast :
      IsName ("given".toList ++ trailing.toList.takeWhile isWordChar) := by
    refine ⟨List.cons_ne_nil _ _, fun c hmem => ?_⟩
    rcases List.mem_append.mp hmem with hmem | hmem
    · exact hgiven.2 c hmem
    · exact List.mem_takeWhile_imp hmem
  rw [toList_render_append, (hwell.tiles_tokens _).scan_append,
    ← scan_name_append hlast (startsWord_dropWhile trailing.toList), List.append_assoc,
    List.takeWhile_append_dropWhile]

/-! ## Messages whose tokens begin with the template -/

theorem wellFormed_of_named
    {violation : Violation} (hindex : 1 ≤ violation.index.value)
    (hnamed : Named violation.tokens) :
    violation.WellFormed := by
  refine ⟨hindex, fun scope hscope => ?_, ?_, ?_, ?_⟩
  · apply hnamed
    simp [tokens, Grammar.calleeTokens, Option.mem_def.mp hscope]
  · apply hnamed
    cases hscope : violation.scope <;> simp [tokens, Grammar.calleeTokens, hscope]
  · apply hnamed
    simp [tokens]
  · apply hnamed
    simp [tokens]

theorem wellFormed_of_scan
    {message : List Char} {violation : Violation} {rest : List Token}
    (hindex : 1 ≤ violation.index.value)
    (hscan : scan message = violation.tokens ++ rest) :
    violation.WellFormed := by
  have hnamed := (tiles_scan message).named
  rw [hscan, named_append] at hnamed
  exact wellFormed_of_named hindex hnamed.1

theorem exists_trailing_of_scan
    {message : String} {violation : Violation} {letters : List Char} {rest : List Token}
    (hscan : scan message.toList =
      violation.tokens ++ word ("given".toList ++ letters) :: rest) :
    ∃ trailing, message = violation.render ++ trailing := by
  refine ⟨String.ofList (letters ++ rest.flatMap text), ?_⟩
  have htext := flatMap_text_scan message.toList
  rw [hscan, List.flatMap_append, List.flatMap_cons] at htext
  have htrailing :
      (String.ofList (letters ++ rest.flatMap text)).toList = letters ++ rest.flatMap text :=
    String.toList_ofList
  apply String.toList_inj.mp
  rw [toList_render_append, htrailing, ← htext, text, List.append_assoc]

end Violation

end ArgumentContract

import ArgumentContract.Proofs.Message.Template

/-!
# Which messages report a violation

A reader of the grammar succeeds on exactly the token streams that begin with what it reads, and
this determines its result.  Put together, a message is taken for a violation exactly if its
tokens begin with the tokens of that violation and a word that starts with `given`.  Through the
tokens of the template this becomes a statement about the text of the message alone, in which
every open place is filled in one way only.
-/

namespace ArgumentContract

namespace Grammar

open Token

theorem bind_eq_ok_iff
    {ε α β : Type} {first : Except ε α} {next : α → Except ε β} {result : β} :
    (first >>= next) = .ok result ↔ ∃ value, first = .ok value ∧ next value = .ok result := by
  cases first with
  | error failure =>
      constructor
      · intro h
        contradiction
      · intro h
        obtain ⟨value, hvalue, -⟩ := h
        contradiction
  | ok value =>
      constructor
      · intro h
        exact ⟨value, rfl, h⟩
      · intro h
        obtain ⟨other, hother, hnext⟩ := h
        rw [Except.ok.injEq] at hother
        subst hother
        exact hnext

theorem expect_eq_ok_iff {wanted stream rest : List Token} :
    expect wanted stream = .ok rest ↔ stream = wanted ++ rest := by
  induction wanted generalizing stream with
  | nil => simp [expect]
  | cons token wanted ih =>
      cases stream with
      | nil => simp [expect, depart]
      | cons found stream =>
          by_cases hfound : found = token
          · simp [expect, hfound, ih]
          · simp [expect, depart, hfound]

theorem readName_eq_ok_iff {stream rest : List Token} {letters : List Char} :
    readName stream = .ok (letters, rest) ↔ stream = word letters :: rest := by
  unfold readName
  split
  next => simp
  next hhead =>
    constructor
    · intro h
      contradiction
    · intro h
      exact absurd h (hhead letters rest)

theorem readIndex_eq_ok_iff {stream rest : List Token} {index : ArgumentIndex} :
    readIndex stream = .ok (index, rest) ↔
      1 ≤ index.value ∧ stream = word index.digits.toList :: rest := by
  unfold readIndex
  rw [bind_eq_ok_iff]
  constructor
  · intro h
    obtain ⟨⟨letters, others⟩, hname, h⟩ := h
    rw [readName_eq_ok_iff] at hname
    subst hname
    dsimp only at h
    split at h
    next => contradiction
    next found hfound =>
      split at h
      next => contradiction
      next hpos =>
        simp only [Except.ok.injEq, Prod.mk.injEq] at h
        obtain ⟨rfl, rfl⟩ := h
        rw [ArgumentIndex.ofDigits?_eq_some_iff] at hfound
        rw [hfound, String.toList_ofList]
        exact ⟨Nat.one_le_iff_ne_zero.mpr hpos, rfl⟩
  · intro h
    obtain ⟨hpos, rfl⟩ := h
    refine ⟨(index.digits.toList, rest), readName_eq_ok_iff.mpr rfl, ?_⟩
    have hzero : ¬ index.value = 0 := Nat.one_le_iff_ne_zero.mp hpos
    simp [ArgumentIndex.ofDigits?_digits, hzero]

theorem readCallee_eq_ok_iff
    {stream rest : List Token} {scope : Option (List Char)} {function : List Char} :
    readCallee stream = .ok ((scope, function), rest) ↔
      stream = calleeTokens scope function ++ rest := by
  constructor
  · intro h
    unfold readCallee at h
    split at h
    next found stream =>
      rw [Except.ok.injEq, Prod.mk.injEq, Prod.mk.injEq] at h
      obtain ⟨⟨rfl, rfl⟩, rfl⟩ := h
      rfl
    next found other stream =>
      rw [Except.ok.injEq, Prod.mk.injEq, Prod.mk.injEq] at h
      obtain ⟨⟨rfl, rfl⟩, rfl⟩ := h
      rfl
    all_goals contradiction
  · intro h
    subst h
    cases scope <;> rfl

theorem readGiven_eq_ok_iff {stream : List Token} {result : Unit} :
    readGiven stream = .ok result ↔
      ∃ letters rest, stream = word ("given".toList ++ letters) :: rest := by
  unfold readGiven
  split
  next letters stream =>
    split
    next hgiven =>
      obtain ⟨more, rfl⟩ := hgiven
      simp
    next hgiven =>
      constructor
      · intro h
        contradiction
      · intro h
        obtain ⟨more, rest, heq⟩ := h
        rw [List.cons.injEq, word.injEq] at heq
        exact absurd ⟨more, heq.1.symm⟩ hgiven
  next hhead =>
    constructor
    · intro h
      contradiction
    · intro h
      obtain ⟨letters, rest, rfl⟩ := h
      exact absurd rfl (hhead _ _)

theorem readViolation_tokens_append
    {violation : Violation} (hindex : 1 ≤ violation.index.value)
    (letters : List Char) (rest : List Token) :
    readViolation (violation.tokens ++ word ("given".toList ++ letters) :: rest) =
      .ok violation := by
  simp only [Violation.tokens, List.append_assoc, List.cons_append]
  refine bind_eq_ok_iff.mpr ⟨_, expect_eq_ok_iff.mpr rfl, ?_⟩
  refine bind_eq_ok_iff.mpr ⟨_, readIndex_eq_ok_iff.mpr ⟨hindex, rfl⟩, ?_⟩
  refine bind_eq_ok_iff.mpr ⟨_, expect_eq_ok_iff.mpr rfl, ?_⟩
  refine bind_eq_ok_iff.mpr ⟨_, readCallee_eq_ok_iff.mpr rfl, ?_⟩
  refine bind_eq_ok_iff.mpr ⟨_, expect_eq_ok_iff.mpr rfl, ?_⟩
  refine bind_eq_ok_iff.mpr ⟨_, readName_eq_ok_iff.mpr rfl, ?_⟩
  refine bind_eq_ok_iff.mpr ⟨_, expect_eq_ok_iff.mpr rfl, ?_⟩
  refine bind_eq_ok_iff.mpr ⟨_, readName_eq_ok_iff.mpr rfl, ?_⟩
  refine bind_eq_ok_iff.mpr ⟨_, expect_eq_ok_iff.mpr rfl, ?_⟩
  refine bind_eq_ok_iff.mpr ⟨(), readGiven_eq_ok_iff.mpr ⟨letters, rest, rfl⟩, ?_⟩
  simp [pure, Except.pure, Option.map_map, Function.comp_def]

theorem eq_tokens_of_readViolation
    {stream : List Token} {violation : Violation}
    (hread : readViolation stream = .ok violation) :
    1 ≤ violation.index.value ∧
      ∃ letters rest,
        stream = violation.tokens ++ word ("given".toList ++ letters) :: rest := by
  -- Every reader on the way has succeeded; each says what it took off the stream.
  obtain ⟨_, hstart, hread⟩ := bind_eq_ok_iff.mp hread
  obtain ⟨⟨index, _⟩, hindex, hread⟩ := bind_eq_ok_iff.mp hread
  obtain ⟨_, hheader, hread⟩ := bind_eq_ok_iff.mp hread
  obtain ⟨⟨⟨scope, function⟩, _⟩, hcallee, hread⟩ := bind_eq_ok_iff.mp hread
  obtain ⟨_, hcontract, hread⟩ := bind_eq_ok_iff.mp hread
  obtain ⟨⟨expected, _⟩, hexpected, hread⟩ := bind_eq_ok_iff.mp hread
  obtain ⟨_, hcomma, hread⟩ := bind_eq_ok_iff.mp hread
  obtain ⟨⟨given, _⟩, hgiven, hread⟩ := bind_eq_ok_iff.mp hread
  obtain ⟨_, hspace, hread⟩ := bind_eq_ok_iff.mp hread
  obtain ⟨_, hlast, hread⟩ := bind_eq_ok_iff.mp hread
  obtain ⟨letters, rest, hlast⟩ := readGiven_eq_ok_iff.mp hlast
  have hviolation := Except.ok.inj hread
  subst hviolation
  rw [expect_eq_ok_iff] at hstart hheader hcontract hcomma hspace
  rw [readName_eq_ok_iff] at hexpected hgiven
  rw [readIndex_eq_ok_iff] at hindex
  rw [readCallee_eq_ok_iff] at hcallee
  refine ⟨hindex.1, letters, rest, ?_⟩
  have hscope : (scope.map String.ofList).map String.toList = scope := by
    simp [Option.map_map, Function.comp_def]
  rw [hstart, hindex.2, hheader, hcallee, hcontract, hexpected, hcomma, hgiven, hspace, hlast]
  simp [Violation.tokens, hscope]

end Grammar

namespace Violation

theorem parse_eq_ok_iff_readViolation (message : String) (violation : Violation) :
    parse message = .ok violation ↔
      Grammar.readViolation (Token.scan message.toList) = .ok violation := by
  unfold parse
  split
  next found hfound => rw [hfound, Except.ok.injEq, Except.ok.injEq]
  next departure hdeparture => simp [hdeparture]

/-- A message reports exactly the well-formed violation that it begins with the rendering of. -/
theorem parse_eq_ok_iff (message : String) (violation : Violation) :
    parse message = .ok violation ↔
      violation.WellFormed ∧ ∃ trailing, message = violation.render ++ trailing := by
  rw [parse_eq_ok_iff_readViolation]
  constructor
  · intro hread
    obtain ⟨hindex, letters, rest, hscan⟩ := Grammar.eq_tokens_of_readViolation hread
    exact ⟨wellFormed_of_scan hindex hscan, exists_trailing_of_scan hscan⟩
  · intro h
    obtain ⟨hwell, trailing, rfl⟩ := h
    obtain ⟨letters, rest, hscan⟩ := hwell.scan_render_append trailing
    rw [hscan]
    exact Grammar.readViolation_tokens_append hwell.index_pos letters rest

end Violation

/-! ## The template as a text -/

/-- What fills the open places of the template, and the text that follows the template. -/
structure Filling where
  digits : String
  scope : Option String
  function : String
  expected : String
  given : String
  trailing : String
deriving DecidableEq, Repr

namespace Filling

/-- The template with its open places filled. -/
def text (filling : Filling) : String :=
  "Argument " ++ filling.digits
    ++ " passed to " ++ (match filling.scope with
      | some scope => scope ++ "::" ++ filling.function
      | none => filling.function)
    ++ "() must be an instance of " ++ filling.expected
    ++ ", " ++ filling.given ++ " given" ++ filling.trailing

/-- The digits denote a position that is at least one, and names are non-empty runs of word
characters.  Any text may follow. -/
structure IsLegal (filling : Filling) : Prop where
  digits_isDigit : ∀ c ∈ filling.digits.toList, c.isDigit = true
  digits_ne_zero : ∃ c ∈ filling.digits.toList, c ≠ '0'
  scope_isName : ∀ scope ∈ filling.scope, IsName scope.toList
  function_isName : IsName filling.function.toList
  expected_isName : IsName filling.expected.toList
  given_isName : IsName filling.given.toList

end Filling

namespace Violation

def filling (violation : Violation) (trailing : String) : Filling where
  digits := violation.index.digits
  scope := violation.scope
  function := violation.function
  expected := violation.expected
  given := violation.given
  trailing := trailing

theorem text_filling (violation : Violation) (trailing : String) :
    (violation.filling trailing).text = violation.render ++ trailing := rfl

theorem WellFormed.isLegal_filling
    {violation : Violation} (hwell : violation.WellFormed) (trailing : String) :
    (violation.filling trailing).IsLegal where
  digits_isDigit := violation.index.digits_isDigit
  digits_ne_zero := violation.index.one_le_value_iff.mp hwell.index_pos
  scope_isName := hwell.scope_isName
  function_isName := hwell.function_isName
  expected_isName := hwell.expected_isName
  given_isName := hwell.given_isName

end Violation

theorem Filling.IsLegal.exists_violation
    {filling : Filling} (hlegal : filling.IsLegal) :
    ∃ violation : Violation,
      violation.WellFormed ∧ violation.filling filling.trailing = filling := by
  obtain ⟨c, hmem, hne⟩ := hlegal.digits_ne_zero
  let index : ArgumentIndex :=
    { digits := filling.digits
      digits_ne_nil := List.ne_nil_of_mem hmem
      digits_isDigit := hlegal.digits_isDigit }
  refine ⟨⟨index, filling.scope, filling.function, filling.expected, filling.given⟩,
    ⟨?_, hlegal.scope_isName, hlegal.function_isName, hlegal.expected_isName,
      hlegal.given_isName⟩, rfl⟩
  exact index.one_le_value_iff.mpr ⟨c, hmem, hne⟩

namespace Violation

theorem parse_text_of_isLegal
    {filling : Filling} (hlegal : filling.IsLegal) :
    ∃ violation, parse filling.text = .ok violation ∧
      violation.filling filling.trailing = filling := by
  obtain ⟨violation, hwell, hfilling⟩ := hlegal.exists_violation
  refine ⟨violation, (parse_eq_ok_iff _ _).mpr ⟨hwell, filling.trailing, ?_⟩, hfilling⟩
  rw [← text_filling, hfilling]

theorem filling_injective
    {violation : Violation} {first second : String}
    (htext : violation.render ++ first = violation.render ++ second) :
    violation.filling first = violation.filling second := by
  have hlists := congrArg String.toList htext
  rw [String.toList_append, String.toList_append, List.append_cancel_left_eq,
    String.toList_inj] at hlists
  rw [hlists]

theorem filling_eq_of_text_eq
    {first second : Filling} (hfirst : first.IsLegal) (hsecond : second.IsLegal)
    (htext : first.text = second.text) :
    first = second := by
  obtain ⟨violation, hparse, hfilling⟩ := parse_text_of_isLegal hfirst
  obtain ⟨other, hother, hfillingOther⟩ := parse_text_of_isLegal hsecond
  have hsame : violation = other := by
    rw [htext, hother] at hparse
    exact (Except.ok.inj hparse).symm
  subst hsame
  rw [← hfilling, ← hfillingOther] at htext ⊢
  exact filling_injective htext

/-- A message is taken for a violation exactly if it fills the template legally.  It does so in
one way only, and the fields of the violation are what fills the open places. -/
theorem parse_ok_iff_filling (message : String) :
    ((∃ violation, parse message = .ok violation) ↔
        ∃ filling : Filling, filling.IsLegal ∧ filling.text = message) ∧
      (∀ first second : Filling,
        first.IsLegal → first.text = message →
          second.IsLegal → second.text = message → first = second) ∧
      ∀ filling : Filling, filling.IsLegal → filling.text = message →
        ∃ violation, parse message = .ok violation ∧
          violation.index.digits = filling.digits ∧
          violation.scope = filling.scope ∧
          violation.function = filling.function ∧
          violation.expected = filling.expected ∧
          violation.given = filling.given := by
  refine ⟨⟨?_, ?_⟩, ?_, ?_⟩
  · intro h
    obtain ⟨violation, hparse⟩ := h
    obtain ⟨hwell, trailing, htext⟩ := (parse_eq_ok_iff message violation).mp hparse
    exact ⟨violation.filling trailing, hwell.isLegal_filling trailing, htext.symm⟩
  · intro h
    obtain ⟨filling, hlegal, htext⟩ := h
    obtain ⟨violation, hparse, -⟩ := parse_text_of_isLegal hlegal
    rw [htext] at hparse
    exact ⟨violation, hparse⟩
  · intro first second hfirst hfirstText hsecond hsecondText
    exact filling_eq_of_text_eq hfirst hsecond (hfirstText.trans hsecondText.symm)
  · intro filling hlegal htext
    obtain ⟨violation, hparse, hfilling⟩ := parse_text_of_isLegal hlegal
    rw [htext] at hparse
    refine ⟨violation, hparse, ?_⟩
    rw [← hfilling]
    exact ⟨rfl, rfl, rfl, rfl, rfl⟩

theorem parse_padded_index_glued_given :
    (Filling.mk "007" (some "Foo") "bar" "int" "string" "an instance of X").IsLegal ∧
      ∃ violation,
        parse ("Argument 007 passed to Foo::bar() must be an instance of int, "
            ++ "string givenan instance of X") = .ok violation ∧
          violation.index.digits = "007" ∧ violation.scope = some "Foo" ∧
          violation.function = "bar" ∧ violation.expected = "int" ∧
          violation.given = "string" := by
  have hlegal :
      (Filling.mk "007" (some "Foo") "bar" "int" "string" "an instance of X").IsLegal :=
    ⟨List.all_eq_true.mp rfl, ⟨'7', by decide, by decide⟩, by decide, by decide, by decide,
      by decide⟩
  exact ⟨hlegal, (parse_ok_iff_filling _).2.2 _ hlegal (by decide)⟩

/-! ## Rendering and reading back -/

theorem WellFormed.parse_render_append
    {violation : Violation} (hwell : violation.WellFormed) (trailing : String) :
    parse (violation.render ++ trailing) = .ok violation :=
  (parse_eq_ok_iff _ _).mpr ⟨hwell, trailing, rfl⟩

theorem WellFormed.parse_render
    {violation : Violation} (hwell : violation.WellFormed) :
    parse violation.render = .ok violation := by
  simpa using hwell.parse_render_append ""

theorem render_injOn_wellFormed :
    Set.InjOn render {violation | violation.WellFormed} := by
  intro first hfirst second hsecond hrender
  have hparse := WellFormed.parse_render hfirst
  rw [hrender, WellFormed.parse_render hsecond] at hparse
  exact (Except.ok.inj hparse).symm

theorem render_eq_digits_append (violation : Violation) :
    ∃ rest, violation.render =
      "Argument " ++ violation.index.digits ++ " passed to " ++ rest := by
  refine ⟨violation.qualifiedName ++ "() must be an instance of " ++ violation.expected
    ++ ", " ++ violation.given ++ " given", ?_⟩
  apply String.toList_inj.mp
  rw [render_eq]
  simp only [String.toList_append, List.append_assoc]

/-- Reading undoes rendering exactly on well-formed violations, whatever text follows.  A message
that reports a violation begins with its rendering, digits of the position included. -/
theorem parse_render_iff_wellFormed (violation : Violation) :
    (violation.WellFormed →
        ∀ trailing, parse (violation.render ++ trailing) = .ok violation) ∧
      (parse violation.render = .ok violation → violation.WellFormed) ∧
      (violation.WellFormed → ∀ other : Violation, other.WellFormed →
        violation.render = other.render → violation = other) ∧
      ∀ message, parse message = .ok violation →
        parse violation.render = .ok violation ∧
          ∃ tail trailing,
            violation.render =
                "Argument " ++ violation.index.digits ++ " passed to " ++ tail ∧
              message = violation.render ++ trailing := by
  refine ⟨?_, ?_, ?_, ?_⟩
  · intro hwell trailing
    exact hwell.parse_render_append trailing
  · intro hparse
    exact ((parse_eq_ok_iff _ _).mp hparse).1
  · intro hwell other hother hrender
    exact render_injOn_wellFormed hwell hother hrender
  · intro message hparse
    obtain ⟨hwell, trailing, htext⟩ := (parse_eq_ok_iff _ _).mp hparse
    obtain ⟨tail, htail⟩ := violation.render_eq_digits_append
    exact ⟨hwell.parse_render, tail, trailing, htail, htext⟩

theorem parse_render_saturated_index :
    ∃ violation : Violation,
      violation.index.digits = "0018446744073709551616" ∧ violation.WellFormed ∧
        parse (violation.render ++ "X") = .ok violation ∧
        parse violation.render = .ok violation := by
  let violation : Violation :=
    { index := ⟨"0018446744073709551616", by decide, List.all_eq_true.mp rfl⟩
      scope := some "Foo"
      function := "bar"
      expected := "int"
      given := "string" }
  have hindex : 1 ≤ violation.index.value :=
    violation.index.one_le_value_iff.mpr ⟨'1', by decide, by decide⟩
  have hwell : violation.WellFormed :=
    ⟨hindex, by decide, by decide, by decide, by decide⟩
  obtain ⟨hforward, -, -, hreread⟩ := parse_render_iff_wellFormed violation
  exact ⟨violation, rfl, hwell, hforward hwell "X", (hreread _ (hforward hwell "X")).1⟩

end Violation

end ArgumentContract

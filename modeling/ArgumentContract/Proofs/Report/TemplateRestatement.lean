import ArgumentContract.Proofs.Message.Template
import ArgumentContract.Proofs.Report.Replacement

/-!
# Restating the contract of a violation message

The first occurrence in the rendering of a violation is the one of the template, with the expected
type as its type name.  No word in front of it ends in `an` and is followed by ` instance`: the
names are followed by punctuation, and the position by ` passed`.  The given type is followed by
` given`.  So the template is restated at this one place, and what happens to the text after it does
not depend on the template at all.
-/

namespace ArgumentContract.Restatement

open Token

variable {phrase : List Char}

/-! ## Tokens in which no occurrence begins -/

/-- In none of the tokens an occurrence begins when `rest` follows the last of them. -/
def Quiet (rest : List Char) : List Token → Prop
  | [] => True
  | token :: tokens =>
      ¬ BeginsIn token (tokens.flatMap Token.text ++ rest) ∧ Quiet rest tokens

theorem quiet_append {rest : List Char} {left right : List Token} :
    Quiet rest (left ++ right) ↔
      Quiet (right.flatMap Token.text ++ rest) left ∧ Quiet rest right := by
  induction left with
  | nil => simp [Quiet]
  | cons token left ih => simp [Quiet, ih, and_assoc]

theorem Quiet.replace_append
    {tokens : List Token} {rest : List Char} (hquiet : Quiet rest tokens)
    (htiles : Tiles rest tokens) :
    replace phrase (tokens.flatMap Token.text ++ rest) =
      tokens.flatMap Token.text ++ replace phrase rest := by
  induction tokens with
  | nil => rfl
  | cons token tokens ih =>
      obtain ⟨hnot, hquiet⟩ := hquiet
      obtain ⟨hstands, htiles⟩ := htiles
      rw [List.flatMap_cons, List.append_assoc, replace_text_append hstands hnot,
        ih hquiet htiles, List.append_assoc]

theorem quiet_of_not_suffix
    (rest : List Char) {tokens : List Token}
    (hnot : ∀ token ∈ tokens, ¬ "an".toList <:+ token.text) :
    Quiet rest tokens := by
  induction tokens with
  | nil => trivial
  | cons token tokens ih =>
      rw [List.forall_mem_cons] at hnot
      refine ⟨?_, ih hnot.2⟩
      intro hbegins
      obtain ⟨stem, rfl, -⟩ := hbegins
      exact hnot.1 ⟨stem, rfl⟩

theorem not_beginsIn_of_ne_word
    {token : Token} (rest : List Char) (hne : ∀ letters, token ≠ word letters) :
    ¬ BeginsIn token rest := by
  intro hbegins
  obtain ⟨stem, htoken, -⟩ := hbegins
  exact hne _ htoken

theorem not_beginsIn_cons
    {token : Token} {c d : Char} {more : List Char} (hne : ¬ (c = ' ' ∧ d = 'i')) :
    ¬ BeginsIn token (c :: d :: more) := by
  intro hbegins
  obtain ⟨stem, -, ⟨after, hlead⟩, -⟩ := hbegins
  -- The third and fourth characters of `lead` are the first two of the text after the word.
  rw [lead_append] at hlead
  obtain ⟨-, hlead⟩ := List.cons.inj hlead
  obtain ⟨-, hlead⟩ := List.cons.inj hlead
  obtain ⟨hc, hlead⟩ := List.cons.inj hlead
  obtain ⟨hd, -⟩ := List.cons.inj hlead
  exact hne ⟨hc.symm, hd.symm⟩

end ArgumentContract.Restatement

namespace ArgumentContract.Violation

open Token Restatement

/-- The tokens of the template up to the contract. -/
def tokensBeforeContract (violation : Violation) : List Token :=
  Grammar.beforeIndex ++ word violation.index.digits.toList ::
    (Grammar.beforeCallee ++
      (Grammar.calleeTokens (violation.scope.map String.toList) violation.function.toList ++
        [space, keyword "must", space, keyword "be", space]))

/-- The tokens of the template between the contract and its last word. -/
def tokensAfterContract (violation : Violation) : List Token :=
  [comma, space, word violation.given.toList, space]

theorem tokens_eq_contract (violation : Violation) :
    violation.tokens =
      violation.tokensBeforeContract ++
        (occurrenceTokens [] violation.expected.toList ++ violation.tokensAfterContract) := by
  simp only [tokens, tokensBeforeContract, List.append_assoc, List.cons_append]
  rfl

theorem flatMap_text_tokensBeforeContract (violation : Violation) :
    violation.tokensBeforeContract.flatMap text =
      ("Argument " ++ violation.index.digits
        ++ " passed to " ++ violation.qualifiedName ++ "() must be ").toList := by
  simp only [tokensBeforeContract, flatMap_text_calleeTokens, Grammar.beforeIndex,
    Grammar.beforeCallee, keyword, text, List.flatMap_append, List.flatMap_cons,
    List.flatMap_nil, String.toList_append, List.append_assoc, List.append_nil]
  rfl

theorem flatMap_text_tokensAfterContract (violation : Violation) :
    violation.tokensAfterContract.flatMap text =
      (", " ++ violation.given ++ " ").toList := by
  simp only [tokensAfterContract, text, List.flatMap_cons, List.flatMap_nil,
    String.toList_append, List.append_assoc, List.append_nil]
  rfl

/-! ## No occurrence begins in the template outside of the contract -/

theorem quiet_calleeTokens
    (rest : List Char) (scope : Option (List Char)) (function : List Char) :
    Quiet rest (Grammar.calleeTokens scope function) := by
  have hparens : ¬ BeginsIn parens rest := not_beginsIn_of_ne_word rest (by simp)
  cases scope with
  | none => exact ⟨not_beginsIn_cons (by decide), hparens, trivial⟩
  | some scope =>
      exact ⟨not_beginsIn_cons (by decide), not_beginsIn_of_ne_word _ (by simp),
        not_beginsIn_cons (by decide), hparens, trivial⟩

theorem quiet_tokensBeforeContract (violation : Violation) (rest : List Char) :
    Quiet rest violation.tokensBeforeContract := by
  have hmust : Quiet rest [space, keyword "must", space, keyword "be", space] :=
    quiet_of_not_suffix rest (by decide)
  have hcallee := quiet_append.mpr
    ⟨quiet_calleeTokens _ (violation.scope.map String.toList) violation.function.toList, hmust⟩
  have hheader := quiet_append.mpr
    ⟨quiet_of_not_suffix _ (show ∀ token ∈ Grammar.beforeCallee, _ by decide), hcallee⟩
  exact quiet_append.mpr
    ⟨quiet_of_not_suffix _ (by decide), not_beginsIn_cons (by decide), hheader⟩

theorem quiet_tokensAfterContract
    (violation : Violation) {c : Char} (rest : List Char) (hc : c ≠ 'i') :
    Quiet (c :: rest) violation.tokensAfterContract :=
  ⟨not_beginsIn_of_ne_word _ (by simp), not_beginsIn_of_ne_word _ (by simp),
    not_beginsIn_cons (fun h => hc h.2), not_beginsIn_of_ne_word _ (by simp), trivial⟩

theorem WellFormed.replace_render_append
    {violation : Violation} (hwell : violation.WellFormed)
    (phrase trailing : List Char) :
    replace phrase (violation.tokens.flatMap text ++ ("given".toList ++ trailing)) =
      violation.tokensBeforeContract.flatMap text ++
        (phrase ++ (violation.tokensAfterContract.flatMap text ++
          replace phrase ("given".toList ++ trailing))) := by
  have htiles := hwell.tiles_tokens ("given".toList ++ trailing)
  rw [tokens_eq_contract, tiles_append, tiles_append] at htiles
  obtain ⟨hbefore, -, hafter⟩ := htiles
  have hquietAfter :
      Quiet ("given".toList ++ trailing) violation.tokensAfterContract :=
    quiet_tokensAfterContract violation _ (by decide)
  have hcontract :
      replace phrase
          (lead ++ violation.expected.toList ++
            (violation.tokensAfterContract.flatMap text ++ ("given".toList ++ trailing))) =
        phrase ++ replace phrase
          (violation.tokensAfterContract.flatMap text ++ ("given".toList ++ trailing)) :=
    replace_occurrence_append hwell.expected_isName rfl
  rw [tokens_eq_contract]
  simp only [List.flatMap_append, List.append_assoc] at hbefore ⊢
  rw [(violation.quiet_tokensBeforeContract _).replace_append hbefore,
    flatMap_text_occurrenceTokens, List.nil_append, hcontract,
    hquietAfter.replace_append hafter]

/-- A violation message is restated by stating the phrase in the place of the contract, and by
restating the text from `given` on. -/
theorem WellFormed.restate_render_append
    {violation : Violation} (hwell : violation.WellFormed) (trailing phrase : String) :
    restate (violation.render ++ trailing) phrase =
      "Argument " ++ violation.index.digits
        ++ " passed to " ++ violation.qualifiedName ++ "() must be " ++ phrase
        ++ ", " ++ violation.given ++ " " ++ restate ("given" ++ trailing) phrase := by
  apply String.toList_inj.mp
  rw [restate_eq_ofList_replace, restate_eq_ofList_replace, String.toList_ofList,
    toList_render_append, hwell.replace_render_append, flatMap_text_tokensBeforeContract,
    flatMap_text_tokensAfterContract]
  simp only [String.toList_append, String.toList_ofList, List.append_assoc]

end ArgumentContract.Violation

import ArgumentContract.Proofs.Message.Departure
import ArgumentContract.Proofs.Message.LongestTiles

/-!
# Where messages are rejected

A message is rejected at its first token that no violation message has there, or at its end if
more tokens would make it a violation message.  Text that is appended to a message only touches
the last token.  A rejection in front of that token is therefore final.
-/

namespace ArgumentContract

open Text

/-- The token at its place behind some others. -/
def locatedAfter (front : List Token) (token : Token) : Located :=
  ⟨token, ⟨width (front.flatMap Token.text),
    width (front.flatMap Token.text) + width token.text⟩⟩

theorem length_tokenize (message : String) :
    (tokenize message).length = (Token.scan message.toList).length :=
  length_locate 0 _

theorem getElem?_tokenize_of_scan_eq
    {message : String} {front others : List Token} {token : Token}
    (hscan : Token.scan message.toList = front ++ token :: others) :
    (tokenize message)[front.length]? = some (locatedAfter front token) := by
  rw [tokenize, hscan, locate_append, List.getElem?_append_right (by rw [length_locate]),
    length_locate, Nat.sub_self, Nat.zero_add]
  rfl

theorem spanOfUnread_length_cons
    {message : String} {front others : List Token} {token : Token}
    (hscan : Token.scan message.toList = front ++ token :: others) :
    spanOfUnread message (token :: others).length = (locatedAfter front token).span := by
  have hindex : (tokenize message).length - (token :: others).length = front.length := by
    rw [length_tokenize, hscan, List.length_append, Nat.add_sub_cancel]
  simp only [spanOfUnread, hindex, getElem?_tokenize_of_scan_eq hscan]

theorem spanOfUnread_zero (message : String) :
    spanOfUnread message 0 = ⟨width message.toList, width message.toList⟩ := by
  simp [spanOfUnread]

/-! ## Tokens as the grammar sees them -/

/-- What the grammar tells of a token.  Characters of no word and no mark are all alike. -/
def Token.masked : Token → Token
  | other _ => other '*'
  | token => token

/-- The tokens of a message, as far as the grammar tells them apart. -/
def tokenStream (message : String) : List Token :=
  ((tokenize message).map Located.token).map Token.masked

theorem tokenStream_eq (message : String) :
    tokenStream message = (Token.scan message.toList).map Token.masked := by
  rw [tokenStream, tokenize, map_token_locate]

/-- Tokens that the grammar tells apart from all others. -/
def Token.Plain (tokens : List Token) : Prop :=
  ∀ c, .other c ∉ tokens

theorem Token.eq_of_masked_eq
    {token found : Token} (hplain : ∀ c, .other c ≠ found)
    (hmasked : token.masked = found.masked) :
    token = found := by
  cases found with
  | other c => exact absurd rfl (hplain c)
  | space | scopeMark | parens | comma | word letters =>
      cases token <;> simp_all [masked]

theorem eq_of_map_masked_eq
    {left right : List Token} (hplain : Token.Plain right)
    (hmasked : left.map Token.masked = right.map Token.masked) :
    left = right := by
  induction left generalizing right with
  | nil => simpa using hmasked.symm
  | cons token left ih =>
      cases right with
      | nil => simp at hmasked
      | cons found right =>
          rw [List.map_cons, List.map_cons, List.cons.injEq] at hmasked
          have htoken : token = found := by
            refine Token.eq_of_masked_eq (fun c hc => hplain c ?_) hmasked.1
            rw [hc]
            exact List.mem_cons_self ..
          have htail : Token.Plain right := fun c hmem => hplain c (List.mem_cons_of_mem found hmem)
          rw [htoken, ih htail hmasked.2]

/-- One of two streams begins with the other one if the grammar sees it so, as long as one of them
is plain. -/
theorem prefix_of_map_masked
    {left right : List Token} (hplain : Token.Plain left ∨ Token.Plain right)
    (hbegins : left.map Token.masked <+: right.map Token.masked) :
    left <+: right := by
  rw [List.prefix_iff_eq_take, List.length_map, ← List.map_take] at hbegins
  rw [List.prefix_iff_eq_take]
  rcases hplain with hleft | hright
  · exact (eq_of_map_masked_eq hleft hbegins.symm).symm
  · exact eq_of_map_masked_eq (fun c hmem => hright c (List.mem_of_mem_take hmem)) hbegins

theorem Violation.plain_tokens (violation : Violation) (letters : List Char) :
    Token.Plain (violation.tokens ++ [.word letters]) := by
  intro c hmem
  cases hscope : violation.scope <;>
    simp [tokens, hscope, Grammar.calleeTokens, Grammar.beforeIndex, Grammar.beforeCallee,
      Grammar.beforeExpected, Grammar.beforeGiven, Token.keyword] at hmem

namespace Violation

open Token

/-! ## The departure behind a rejection -/

theorem parse_eq_error_iff {message : String} {rejection : Rejection} :
    parse message = .error rejection ↔
      ∃ departure, Grammar.readViolation (scan message.toList) = .error departure ∧
        rejection = ⟨departure.reason, spanOfUnread message departure.unread.length⟩ := by
  unfold parse
  split
  next violation hread => simp [hread]
  next departure hread => simp [hread, eq_comm]

/-- The tokens of a rejected message, cut in front of the offending one. -/
structure RejectedAfter
    (message : String) (rejection : Rejection) (front unread : List Token) : Prop where
  scan_eq : scan message.toList = front ++ unread
  read_eq : Grammar.readViolation (scan message.toList) = .error ⟨rejection.reason, unread⟩
  settled : Grammar.Settled Grammar.readViolation front ⟨rejection.reason, unread⟩
  front_viable : ∃ violation : Violation, violation.WellFormed ∧ front <+: violation.tokens
  span_eq : rejection.span = spanOfUnread message unread.length

theorem exists_rejectedAfter
    {message : String} {rejection : Rejection} (hparse : parse message = .error rejection) :
    ∃ front unread, RejectedAfter message rejection front unread := by
  obtain ⟨departure, hread, rfl⟩ := parse_eq_error_iff.mp hparse
  obtain ⟨front, hscan, hsettled, hfront⟩ :=
    Grammar.exists_front_of_readViolation_eq_error (tiles_scan message.toList).named hread
  exact ⟨front, departure.unread, hscan, hread, hsettled, hfront, rfl⟩

theorem exists_scan_of_parse_eq_ok
    {message : String} {violation : Violation} (hparse : parse message = .ok violation) :
    1 ≤ violation.index.value ∧
      ∃ letters, violation.tokens ++ [word ("given".toList ++ letters)] <+:
        scan message.toList := by
  rw [parse_eq_ok_iff_readViolation] at hparse
  obtain ⟨hindex, letters, rest, hscan⟩ := Grammar.eq_tokens_of_readViolation hparse
  exact ⟨hindex, letters, rest, by simp [hscan]⟩

theorem WellFormed.scan_render
    {violation : Violation} (hwell : violation.WellFormed) :
    ∃ rest, rest ≠ [] ∧ scan violation.render.toList = violation.tokens ++ rest := by
  obtain ⟨letters, rest, hscan⟩ := hwell.scan_render_append ""
  rw [String.append_empty] at hscan
  exact ⟨_, List.cons_ne_nil _ _, hscan⟩

/-! ## The first impossible token -/

namespace RejectedAfter

variable {message : String} {rejection : Rejection} {front unread after : List Token}
  {token : Token}

theorem span_of_end (hrejected : RejectedAfter message rejection front []) :
    rejection.span = ⟨width message.toList, width message.toList⟩ := by
  rw [hrejected.span_eq]
  exact spanOfUnread_zero message

theorem span_of_token (hrejected : RejectedAfter message rejection front (token :: after)) :
    rejection.span = (locatedAfter front token).span := by
  rw [hrejected.span_eq]
  exact spanOfUnread_length_cons hrejected.scan_eq

theorem exists_accepted (hrejected : RejectedAfter message rejection front unread) :
    ∃ accepted violation, parse accepted = .ok violation ∧
      front.map masked <+: tokenStream accepted ∧
      front.length < (tokenStream accepted).length := by
  obtain ⟨violation, hwell, hfront⟩ := hrejected.front_viable
  obtain ⟨rest, hrest, hrender⟩ := hwell.scan_render
  have hstream :
      tokenStream violation.render = violation.tokens.map masked ++ rest.map masked := by
    rw [tokenStream_eq, hrender, List.map_append]
  refine ⟨violation.render, violation, hwell.parse_render, ?_, ?_⟩
  · rw [hstream]
    exact (hfront.map masked).trans (List.prefix_append _ _)
  · have hle := hfront.length_le
    have hpos := List.length_pos_of_ne_nil hrest
    rw [hstream, List.length_append, List.length_map, List.length_map]
    omega

theorem not_begins (hrejected : RejectedAfter message rejection front (token :: after))
    {accepted : String} {violation : Violation} (hparse : parse accepted = .ok violation) :
    ¬ (front ++ [token]).map masked <+: tokenStream accepted := by
  intro hbegins
  rw [tokenStream_eq] at hbegins
  obtain ⟨hindex, letters, htemplate⟩ := exists_scan_of_parse_eq_ok hparse
  have hplain := violation.plain_tokens ("given".toList ++ letters)
  rcases List.prefix_or_prefix_of_prefix hbegins (htemplate.map masked) with hshort | hlong
  · -- The template of the accepted message goes through the offending token.
    obtain ⟨others, hothers⟩ :=
      (prefix_of_map_masked (.inr hplain) hshort).trans htemplate
    rw [parse_eq_ok_iff_readViolation, ← hothers, List.append_assoc,
      List.singleton_append, hrejected.settled token after rfl] at hparse
    contradiction
  · -- The rejected message has the whole template of the accepted one.
    refine Grammar.not_template_prefix_of_readViolation_eq_error hrejected.read_eq hindex letters
      ((prefix_of_map_masked (.inl hplain) hlong).trans ?_)
    rw [hrejected.scan_eq]
    exact ⟨after, by simp⟩

end RejectedAfter

/-- A message is rejected at the first token that no message which reports a violation has there,
or at its end if it could go on to be such a message. -/
theorem parse_error_at_first_impossible
    (message : String) (rejection : Rejection) (hparse : parse message = .error rejection) :
    (∃ k piece, (tokenize message)[k]? = some piece ∧ rejection.span = piece.span ∧
        (∃ accepted violation, parse accepted = .ok violation ∧
          (tokenStream message).take k <+: tokenStream accepted) ∧
        ∀ accepted violation, parse accepted = .ok violation →
          ¬ (tokenStream message).take (k + 1) <+: tokenStream accepted) ∨
      (rejection.span = ⟨width message.toList, width message.toList⟩ ∧
        ∃ accepted violation, parse accepted = .ok violation ∧
          tokenStream message <+: tokenStream accepted ∧
          tokenStream message ≠ tokenStream accepted) := by
  obtain ⟨front, unread, hrejected⟩ := exists_rejectedAfter hparse
  obtain ⟨accepted, violation, haccepted, hfront, hlonger⟩ := hrejected.exists_accepted
  have hstream : tokenStream message = front.map masked ++ unread.map masked := by
    rw [tokenStream_eq, hrejected.scan_eq, List.map_append]
  cases unread with
  | nil =>
      right
      rw [List.map_nil, List.append_nil] at hstream
      refine ⟨hrejected.span_of_end, accepted, violation, haccepted, ?_, ?_⟩
      · rw [hstream]
        exact hfront
      · intro hsame
        rw [← hsame, hstream, List.length_map] at hlonger
        exact absurd hlonger (lt_irrefl _)
  | cons token after =>
      left
      refine ⟨front.length, locatedAfter front token,
        getElem?_tokenize_of_scan_eq hrejected.scan_eq, hrejected.span_of_token,
        ⟨accepted, violation, haccepted, ?_⟩, ?_⟩
      · rw [hstream, List.take_left' (List.length_map masked)]
        exact hfront
      · intro other found hother
        have htake :
            (tokenStream message).take (front.length + 1) = (front ++ [token]).map masked := by
          rw [hstream, List.map_append, List.map_cons, List.map_singleton,
            ← List.singleton_append, ← List.append_assoc]
          exact List.take_left' (by simp)
        rw [htake]
        exact hrejected.not_begins hother

/-- The parentheses are missing where the space stands, and not before. -/
theorem parse_error_at_missing_parens :
    let message := "Argument 01 passed to Foo::bar must be an instance of int, string given"
    parse message = .error ⟨.unexpected (some .space) (.exactly .parens), ⟨30, 31⟩⟩ ∧
      ∃ k piece, (tokenize message)[k]? = some piece ∧ piece.span = ⟨30, 31⟩ ∧
        (∃ accepted violation, parse accepted = .ok violation ∧
          (tokenStream message).take k <+: tokenStream accepted) ∧
        ∀ accepted violation, parse accepted = .ok violation →
          ¬ (tokenStream message).take (k + 1) <+: tokenStream accepted := by
  intro message
  have hparse :
      parse message = .error ⟨.unexpected (some .space) (.exactly .parens), ⟨30, 31⟩⟩ := by
    unfold message
    rfl
  refine ⟨hparse, ?_⟩
  rcases parse_error_at_first_impossible message _ hparse with h | ⟨hspan, -⟩
  · obtain ⟨k, piece, hpiece, hspan, hviable, himpossible⟩ := h
    exact ⟨k, piece, hpiece, hspan.symm, hviable, himpossible⟩
  · exact absurd hspan (by decide)

/-! ## Appending text -/

theorem RejectedAfter.parse_append
    {message : String} {rejection : Rejection} {front after : List Token} {token : Token}
    (hrejected : RejectedAfter message rejection front (token :: after)) (hafter : after ≠ [])
    (trailing : String) :
    parse (message ++ trailing) = .error rejection := by
  have hscan : scan message.toList = (front ++ [token]) ++ after := by
    rw [hrejected.scan_eq, List.append_assoc, List.singleton_append]
  have happend := scan_append_of_scan_eq hscan hafter trailing.toList
  rw [← String.toList_append, List.append_assoc, List.singleton_append] at happend
  have hread := hrejected.settled token after rfl (scan (after.flatMap text ++ trailing.toList))
  rw [← happend] at hread
  refine parse_eq_error_iff.mpr ⟨_, hread, ?_⟩
  rw [spanOfUnread_length_cons happend, ← hrejected.span_of_token]

theorem tokenize_of_scan_eq_concat
    {message : String} {front : List Token} {token : Token}
    (hscan : scan message.toList = front ++ [token]) :
    tokenize message = locate 0 front ++ [locatedAfter front token] := by
  rw [tokenize, hscan, locate_append, Nat.zero_add]
  rfl

theorem span_ne_of_mem_dropLast
    {message : String} {front : List Token} {token : Token}
    (hscan : scan message.toList = front ++ [token])
    {piece : Located} (hmem : piece ∈ (tokenize message).dropLast) :
    piece.span ≠ (locatedAfter front token).span := by
  have hnonempty :=
    (isTiling_tokenize message).nonempty piece (List.mem_of_mem_dropLast hmem)
  rw [tokenize_of_scan_eq_concat hscan, List.dropLast_concat] at hmem
  obtain ⟨before, after, htext, -, hstop⟩ := isSlice_of_mem_locate [] hmem
  have hwidth := congrArg width htext
  rw [List.nil_append, width_append, hstop] at hwidth
  intro hspan
  have hstart : piece.span.start = width (front.flatMap text) := by
    rw [hspan]
    rfl
  omega

/-- A rejection in front of the last token stays, whatever text is appended. -/
theorem parse_append_of_error_before_last
    (message : String) (rejection : Rejection) (hparse : parse message = .error rejection) :
    ((∃ piece ∈ (tokenize message).dropLast, rejection.span = piece.span) →
        ∀ trailing, parse (message ++ trailing) = .error rejection) ∧
      ∀ trailing, parse (message ++ trailing) ≠ .error rejection →
        rejection.span = ⟨width message.toList, width message.toList⟩ ∨
          ∃ piece, (tokenize message).getLast? = some piece ∧ rejection.span = piece.span := by
  obtain ⟨front, unread, hrejected⟩ := exists_rejectedAfter hparse
  match unread with
  | [] =>
      refine ⟨?_, fun _ _ => .inl hrejected.span_of_end⟩
      rintro ⟨piece, hmem, hspan⟩
      have hnonempty :=
        (isTiling_tokenize message).nonempty piece (List.mem_of_mem_dropLast hmem)
      rw [← hspan, hrejected.span_of_end] at hnonempty
      exact absurd hnonempty (lt_irrefl _)
  | [token] =>
      have htokens := tokenize_of_scan_eq_concat hrejected.scan_eq
      refine ⟨?_, fun _ _ => .inr ⟨locatedAfter front token, ?_, hrejected.span_of_token⟩⟩
      · rintro ⟨piece, hmem, hspan⟩
        rw [hrejected.span_of_token] at hspan
        exact absurd hspan.symm (span_ne_of_mem_dropLast hrejected.scan_eq hmem)
      · rw [htokens, List.getLast?_concat]
  | token :: next :: after =>
      have hfinal := hrejected.parse_append (List.cons_ne_nil next after)
      exact ⟨fun _ => hfinal, fun trailing hmoved => absurd (hfinal trailing) hmoved⟩

theorem parse_append_after_missing_parens :
    let message := "Argument 01 passed to Foo::bar must"
    parse message = .error ⟨.unexpected (some .space) (.exactly .parens), ⟨30, 31⟩⟩ ∧
      (∃ piece ∈ (tokenize message).dropLast, (⟨30, 31⟩ : Span) = piece.span) ∧
      parse (message ++ "_not()") =
        .error ⟨.unexpected (some .space) (.exactly .parens), ⟨30, 31⟩⟩ := by
  intro message
  have hparse :
      parse message = .error ⟨.unexpected (some .space) (.exactly .parens), ⟨30, 31⟩⟩ := by
    unfold message
    rfl
  have hpiece : ∃ piece ∈ (tokenize message).dropLast, (⟨30, 31⟩ : Span) = piece.span :=
    ⟨⟨.space, ⟨30, 31⟩⟩, by decide, rfl⟩
  exact ⟨hparse, hpiece,
    (parse_append_of_error_before_last message _ hparse).1 hpiece "_not()"⟩

end Violation

end ArgumentContract

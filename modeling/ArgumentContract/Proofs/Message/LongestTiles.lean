import ArgumentContract.Proofs.Message.Tiling

/-!
# The tokens of a message are its longest tiles

A message can be cut into tokens in many ways: a word may be cut in two, and `::` into two colons.
This file says without a scan which cut is meant.  The spans of the tokens cover the message from
its first byte to its last one, each token is properly spelled and is the text at its span, and no
two neighbours could have been taken together.  There is exactly one such cut, because the last
condition settles every boundary from the two tokens that meet there.
-/

namespace ArgumentContract

open Text

namespace Token

/-- Whether a token is properly spelled, whatever surrounds it. -/
def IsSpelled : Token → Prop
  | word letters => IsName letters
  | other c => isWordChar c = false ∧ c ≠ ' ' ∧ c ≠ ','
  | space | scopeMark | parens | comma => True

/-- Neighbours that are rightly told apart: their characters where they meet belong neither to one
word nor to one of the marks `::` and `()`. -/
structure Apart (token next : Token) : Prop where
  words : ∀ letters more, ¬ (token = word letters ∧ next = word more)
  scopeMark : token = other ':' → next.text.head? ≠ some ':'
  parens : token = other '(' → next.text.head? ≠ some ')'

end Token

/-- Spans that lead from one offset to another, each one beginning where the one before it ends. -/
def Covers : List Span → Nat → Nat → Prop
  | [], start, stop => start = stop
  | span :: rest, start, stop => span.start = start ∧ Covers rest span.stop stop

/-- The characters of a text from one character boundary to another. -/
def IsSlice (text : List Char) (span : Span) (part : List Char) : Prop :=
  ∃ before after, text = before ++ part ++ after ∧
    width before = span.start ∧ width (before ++ part) = span.stop

/-- A cut of a message into tokens that are as long as possible. -/
structure IsTiling (message : String) (pieces : List Located) : Prop where
  nonempty : ∀ piece ∈ pieces, piece.span.start < piece.span.stop
  covers : Covers (pieces.map Located.span) 0 (width message.toList)
  slice : ∀ piece ∈ pieces, IsSlice message.toList piece.span piece.token.text
  spelled : ∀ piece ∈ pieces, piece.token.IsSpelled
  apart : (pieces.map Located.token).IsChain Token.Apart

/-! ## Neighbours decide whether tokens stand on their own -/

namespace Token

theorem standsBefore_nil_iff {token : Token} :
    token.StandsBefore [] ↔ token.IsSpelled := by
  cases token <;> simp [StandsBefore, IsSpelled]

theorem IsSpelled.text_ne_nil {token : Token} (hspelled : token.IsSpelled) :
    token.text ≠ [] :=
  (standsBefore_nil_iff.mpr hspelled).text_ne_nil

theorem head?_flatMap_text_cons
    {rest : List Char} {next : Token} {tokens : List Token}
    (htiles : Tiles rest (next :: tokens)) :
    ((next :: tokens).flatMap text ++ rest).head? = next.text.head? := by
  rw [List.flatMap_cons, List.append_assoc,
    List.head?_append_of_ne_nil _ htiles.1.text_ne_nil]

theorem standsBefore_next_iff
    {rest : List Char} {token next : Token} {tokens : List Token}
    (htiles : Tiles rest (next :: tokens)) :
    token.StandsBefore ((next :: tokens).flatMap text ++ rest) ↔
      token.IsSpelled ∧ Apart token next := by
  have hstarts := htiles.startsWord_iff
  have hhead := head?_flatMap_text_cons htiles
  constructor
  · intro hstands
    cases token with
    | word letters =>
        obtain ⟨hname, hend⟩ := hstands
        refine ⟨hname, ⟨?_, by simp, by simp⟩⟩
        rintro _ more ⟨-, hnext⟩
        rw [hstarts.mpr ⟨more, hnext⟩] at hend
        contradiction
    | other c =>
        obtain ⟨hword, hspace, hcomma, hscope, hparens⟩ := hstands
        rw [hhead] at hscope hparens
        refine ⟨⟨hword, hspace, hcomma⟩, ⟨by simp, ?_, ?_⟩⟩
        · intro hc hcolon
          exact hscope ⟨other.inj hc, hcolon⟩
        · intro hc hclose
          exact hparens ⟨other.inj hc, hclose⟩
    | space | scopeMark | parens | comma =>
        exact ⟨trivial, ⟨by simp, by simp, by simp⟩⟩
  · intro h
    obtain ⟨hspelled, hapart⟩ := h
    cases token with
    | word letters =>
        refine ⟨hspelled, ?_⟩
        rw [← Bool.not_eq_true, hstarts]
        rintro ⟨more, hnext⟩
        exact hapart.words letters more ⟨rfl, hnext⟩
    | other c =>
        obtain ⟨hword, hspace, hcomma⟩ := hspelled
        refine ⟨hword, hspace, hcomma, ?_, ?_⟩
        · rintro ⟨rfl, hcolon⟩
          exact hapart.scopeMark rfl (hhead ▸ hcolon)
        · rintro ⟨rfl, hclose⟩
          exact hapart.parens rfl (hhead ▸ hclose)
    | space | scopeMark | parens | comma => trivial

/-- Tokens stand on their own if each is properly spelled and neighbours are rightly told apart. -/
theorem tiles_nil_iff {tokens : List Token} :
    Tiles [] tokens ↔ (∀ token ∈ tokens, token.IsSpelled) ∧ tokens.IsChain Apart := by
  induction tokens with
  | nil => simp [Tiles]
  | cons token tokens ih =>
      cases tokens with
      | nil => simp [Tiles, standsBefore_nil_iff]
      | cons next tokens =>
          rw [List.forall_mem_cons, List.isChain_cons_cons]
          constructor
          · intro h
            obtain ⟨hstands, htiles⟩ := h
            obtain ⟨hspelled, hapart⟩ := (standsBefore_next_iff htiles).mp hstands
            obtain ⟨hallSpelled, hallApart⟩ := ih.mp htiles
            exact ⟨⟨hspelled, hallSpelled⟩, hapart, hallApart⟩
          · intro h
            obtain ⟨⟨hspelled, hallSpelled⟩, hapart, hallApart⟩ := h
            have htiles := ih.mpr ⟨hallSpelled, hallApart⟩
            exact ⟨(standsBefore_next_iff htiles).mpr ⟨hspelled, hapart⟩, htiles⟩

end Token

/-! ## Texts and spans of located tokens -/

theorem covers_locate (offset : Nat) (tokens : List Token) :
    Covers ((locate offset tokens).map Located.span) offset
      (offset + width (tokens.flatMap Token.text)) := by
  induction tokens generalizing offset with
  | nil => rfl
  | cons token tokens ih =>
      have hrest := ih (offset + width token.text)
      rw [Nat.add_assoc, ← width_append] at hrest
      exact ⟨rfl, hrest⟩

theorem isSlice_of_mem_locate
    (before : List Char) {tokens : List Token} {piece : Located}
    (hmem : piece ∈ locate (width before) tokens) :
    IsSlice (before ++ tokens.flatMap Token.text) piece.span piece.token.text := by
  induction tokens generalizing before with
  | nil => contradiction
  | cons token tokens ih =>
      rw [List.flatMap_cons, ← List.append_assoc]
      rcases List.mem_cons.mp hmem with rfl | hmem
      · exact ⟨before, tokens.flatMap Token.text, rfl, rfl, width_append before token.text⟩
      · rw [← width_append] at hmem
        exact ih _ hmem

/-- Located tokens that cover the end of a text, and are its slices there, make up that end. -/
theorem eq_locate_of_covers
    {pieces : List Located} (before after : List Char)
    (hcovers : Covers (pieces.map Located.span) (width before) (width (before ++ after)))
    (hslice : ∀ piece ∈ pieces, IsSlice (before ++ after) piece.span piece.token.text) :
    after = (pieces.map Located.token).flatMap Token.text ∧
      pieces = locate (width before) (pieces.map Located.token) := by
  induction pieces generalizing before after with
  | nil =>
      have hempty : width before = width (before ++ after) := hcovers
      rw [width_append] at hempty
      exact ⟨width_eq_zero_iff.mp (by omega), rfl⟩
  | cons piece pieces ih =>
      obtain ⟨token, span⟩ := piece
      obtain ⟨hstart, hcovers⟩ := hcovers
      obtain ⟨⟨front, rest, htext, hfront, hstop⟩, hslices⟩ := List.forall_mem_cons.mp hslice
      rw [List.append_assoc] at htext
      have hwidth : width before = width front := hstart.symm.trans hfront.symm
      obtain ⟨rfl, rfl⟩ := eq_of_append_eq_of_width_eq htext hwidth
      rw [← List.append_assoc] at hcovers hslices
      dsimp only at hstart hstop hcovers
      rw [← hstop] at hcovers
      obtain ⟨hrest, hpieces⟩ := ih _ rest hcovers hslices
      refine ⟨by rw [hrest]; rfl, ?_⟩
      have hspan : span = ⟨width before, width before + width token.text⟩ := by
        rw [Span.mk.injEq]
        exact ⟨hstart, by rw [← hstop, width_append]⟩
      rw [List.map_cons, locate, ← width_append, ← hpieces, hspan, width_append]

/-! ## Messages -/

theorem isTiling_tokenize (message : String) : IsTiling message (tokenize message) := by
  have htext := Token.flatMap_text_scan message.toList
  have htiles := Token.tiles_scan message.toList
  obtain ⟨hspelled, hapart⟩ := Token.tiles_nil_iff.mp htiles
  have hslice : ∀ piece ∈ tokenize message,
      IsSlice message.toList piece.span piece.token.text := by
    intro piece hmem
    have hpiece := isSlice_of_mem_locate [] hmem
    rwa [List.nil_append, htext] at hpiece
  have htoken : ∀ piece ∈ tokenize message, piece.token ∈ Token.scan message.toList := by
    intro piece hmem
    rw [← map_token_locate 0 (Token.scan message.toList)]
    exact List.mem_map_of_mem hmem
  have hcovers := covers_locate 0 (Token.scan message.toList)
  rw [Nat.zero_add, htext] at hcovers
  refine ⟨?_, hcovers, hslice, fun piece hmem => hspelled _ (htoken piece hmem), ?_⟩
  · intro piece hmem
    obtain ⟨before, after, -, hstart, hstop⟩ := hslice piece hmem
    have hne := (hspelled _ (htoken piece hmem)).text_ne_nil
    have hpos := width_pos hne
    rw [width_append] at hstop
    omega
  · rw [tokenize, map_token_locate]
    exact hapart

/-- A message is cut in exactly one way into tokens that are as long as possible, and it is the
texts of these tokens one after the other. -/
theorem isTiling_iff_eq_tokenize (message : String) (pieces : List Located) :
    (IsTiling message pieces ↔ pieces = tokenize message) ∧
      (tokenize message).flatMap (·.token.text) = message.toList := by
  constructor
  · constructor
    · intro htiling
      obtain ⟨htext, hpieces⟩ :=
        eq_locate_of_covers [] message.toList htiling.covers htiling.slice
      have hspelled : ∀ token ∈ pieces.map Located.token, token.IsSpelled :=
        List.forall_mem_map.mpr htiling.spelled
      have hscan := (Token.tiles_nil_iff.mpr ⟨hspelled, htiling.apart⟩).scan_append
      rw [List.append_nil, ← htext, Token.scan, List.append_nil] at hscan
      rw [hpieces, tokenize, hscan]
      rfl
    · rintro rfl
      exact isTiling_tokenize message
  · rw [← List.flatMap_map, tokenize, map_token_locate, Token.flatMap_text_scan]

end ArgumentContract

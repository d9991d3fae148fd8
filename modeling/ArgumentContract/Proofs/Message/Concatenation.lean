import ArgumentContract.Proofs.Message.Tiling

/-!
# Tokens of texts that are put together

A message that is put together from two texts has the tokens of the left one and, further on, those
of the right one, unless a token of the whole reaches over the place where they meet.  A word does
if the texts meet between two word characters.  A mark does if its first character was left over at
the end of the left text.  For `(` this is told by the text alone.  A colon at the end, however, may
be the second one of a mark, so that the last token has to be asked.

Where the cut is not clean, only the last token of the left text can change.
-/

namespace ArgumentContract

open Text

theorem IsName.any_getLast?
    {letters : List Char} (hname : IsName letters) :
    letters.getLast?.any isWordChar = true := by
  rw [List.getLast?_eq_some_getLast hname.1]
  exact hname.2 _ (List.getLast_mem hname.1)

namespace Token

/-- Two texts meet where no token of the whole reaches over. -/
structure CleanCut (left right : List Char) : Prop where
  words : ¬ (left.getLast?.any isWordChar = true ∧ startsWord right = true)
  scopeMark : ¬ ((scan left).getLast? = some (other ':') ∧ right.head? = some ':')
  parens : ¬ (left.getLast? = some '(' ∧ right.head? = some ')')

/-! ## The last token of the left text -/

theorem tiles_nil_concat {front : List Token} {token : Token} :
    Tiles [] (front ++ [token]) ↔ Tiles token.text front ∧ token.StandsBefore [] := by
  rw [tiles_append]
  simp [Tiles]

/-- Tokens stand on their own in front of another text as soon as the last one does. -/
theorem tiles_concat_iff
    {front : List Token} {token : Token} (htiles : Tiles [] (front ++ [token]))
    (right : List Char) :
    Tiles right (front ++ [token]) ↔ token.StandsBefore right := by
  rw [tiles_nil_concat] at htiles
  have hfront := htiles.1.append htiles.2.text_ne_nil right
  rw [tiles_append]
  simp [Tiles, hfront]

theorem standsBefore_nil_of_scan_eq_concat
    {left : List Char} {front : List Token} {token : Token}
    (hscan : scan left = front ++ [token]) :
    token.StandsBefore [] := by
  have htiles := tiles_scan left
  rw [hscan, tiles_nil_concat] at htiles
  exact htiles.2

theorem getLast?_of_scan_eq_concat
    {left : List Char} {front : List Token} {token : Token}
    (hscan : scan left = front ++ [token]) :
    left.getLast? = token.text.getLast? := by
  have hstands := standsBefore_nil_of_scan_eq_concat hscan
  rw [← flatMap_text_scan left, hscan, List.flatMap_append, List.flatMap_singleton,
    List.getLast?_append_of_ne_nil _ hstands.text_ne_nil]

theorem StandsBefore.cleanCut
    {left right : List Char} {front : List Token} {token : Token}
    (hstands : token.StandsBefore right) (hscan : scan left = front ++ [token]) :
    CleanCut left right := by
  have hlast := getLast?_of_scan_eq_concat hscan
  refine ⟨?_, ?_, ?_⟩
  · rintro ⟨hword, hstarts⟩
    rw [hlast] at hword
    cases token with
    | word letters => simp [hstands.2] at hstarts
    | other c => simp [text, hstands.1] at hword
    | space | scopeMark | parens | comma => simp [text, isWordChar] at hword
  · rintro ⟨hother, hcolon⟩
    rw [hscan, List.getLast?_concat, Option.some.injEq] at hother
    subst hother
    obtain ⟨-, -, -, hscope, -⟩ := hstands
    exact hscope ⟨rfl, hcolon⟩
  · rintro ⟨hopen, hclose⟩
    rw [hlast] at hopen
    cases token with
    | word letters =>
        have hword := hstands.1.any_getLast?
        rw [text] at hopen
        simp [hopen, isWordChar] at hword
    | other c =>
        obtain ⟨-, -, -, -, hparens⟩ := hstands
        exact hparens ⟨by simpa [text] using hopen, hclose⟩
    | space | scopeMark | parens | comma => simp [text] at hopen

theorem CleanCut.standsBefore
    {left right : List Char} {front : List Token} {token : Token}
    (hclean : CleanCut left right) (hscan : scan left = front ++ [token]) :
    token.StandsBefore right := by
  have hlast := getLast?_of_scan_eq_concat hscan
  have halone := standsBefore_nil_of_scan_eq_concat hscan
  cases token with
  | word letters =>
      refine ⟨halone.1, ?_⟩
      rw [← Bool.not_eq_true]
      intro hstarts
      refine hclean.words ⟨?_, hstarts⟩
      rw [hlast]
      exact halone.1.any_getLast?
  | other c =>
      obtain ⟨hword, hspace, hcomma, -, -⟩ := halone
      refine ⟨hword, hspace, hcomma, ?_, ?_⟩
      · rintro ⟨rfl, hcolon⟩
        exact hclean.scopeMark ⟨by rw [hscan, List.getLast?_concat], hcolon⟩
      · rintro ⟨rfl, hclose⟩
        exact hclean.parens ⟨hlast, hclose⟩
  | space | scopeMark | parens | comma => trivial

/-! ## Clean cuts -/

theorem cleanCut_nil (right : List Char) : CleanCut [] right :=
  ⟨by simp, by simp [scan], by simp⟩

theorem tiles_scan_iff_cleanCut (left right : List Char) :
    Tiles right (scan left) ↔ CleanCut left right := by
  rcases List.eq_nil_or_concat' (scan left) with hnil | ⟨front, token, hscan⟩
  · obtain rfl := scan_eq_nil_iff.mp hnil
    exact iff_of_true trivial (cleanCut_nil right)
  · have htiles := tiles_scan left
    rw [hscan] at htiles ⊢
    rw [tiles_concat_iff htiles]
    exact ⟨fun hstands => hstands.cleanCut hscan, fun hclean => hclean.standsBefore hscan⟩

/-- The tokens of both texts are the tokens of the whole exactly where the cut is clean. -/
theorem scan_append_iff_cleanCut (left right : List Char) :
    scan (left ++ right) = scan left ++ scan right ↔ CleanCut left right := by
  rw [← tiles_scan_iff_cleanCut]
  constructor
  · intro hscan
    have htiles := tiles_scan (left ++ right)
    rw [hscan, tiles_append, flatMap_text_scan, List.append_nil] at htiles
    exact htiles.1
  · intro htiles
    have hscan := htiles.scan_append
    rwa [flatMap_text_scan] at hscan

theorem dropLast_scan_isPrefix (left right : List Char) :
    (scan left).dropLast <+: scan (left ++ right) := by
  rcases List.eq_nil_or_concat' (scan left) with hnil | ⟨front, token, hscan⟩
  · rw [hnil]
    exact List.nil_prefix
  · rw [hscan, List.dropLast_concat,
      scan_append_of_scan_eq hscan (List.cons_ne_nil token []) right]
    exact List.prefix_append front _

end Token

/-! ## Places in the whole -/

/-- The same token `offset` bytes further on. -/
def Located.shift (offset : Nat) (located : Located) : Located :=
  ⟨located.token, ⟨offset + located.span.start, offset + located.span.stop⟩⟩

theorem locate_add (offset start : Nat) (tokens : List Token) :
    locate (offset + start) tokens = (locate start tokens).map (Located.shift offset) := by
  induction tokens generalizing start with
  | nil => rfl
  | cons token tokens ih =>
      simp only [locate, List.map_cons, ← ih, Nat.add_assoc]
      rfl

theorem dropLast_locate (offset : Nat) (tokens : List Token) :
    (locate offset tokens).dropLast = locate offset tokens.dropLast := by
  rcases List.eq_nil_or_concat' tokens with rfl | ⟨front, token, rfl⟩
  · rfl
  · rw [locate_append, List.dropLast_concat]
    exact List.dropLast_concat

theorem locate_isPrefix
    {front tokens : List Token} (hfront : front <+: tokens) (offset : Nat) :
    locate offset front <+: locate offset tokens := by
  obtain ⟨rest, rfl⟩ := hfront
  rw [locate_append]
  exact List.prefix_append _ _

theorem tokenize_append_iff_cleanCut (left right : String) :
    tokenize (left ++ right) =
        tokenize left ++ (tokenize right).map (Located.shift (width left.toList)) ↔
      Token.CleanCut left.toList right.toList := by
  have hplaces :
      locate 0 (Token.scan left.toList ++ Token.scan right.toList) =
        tokenize left ++ (tokenize right).map (Located.shift (width left.toList)) := by
    rw [locate_append, Token.flatMap_text_scan, Nat.zero_add, ← Nat.add_zero (width _),
      locate_add]
    rfl
  rw [← hplaces, ← Token.scan_append_iff_cleanCut, tokenize, String.toList_append]
  constructor
  · intro htokens
    have hmap := congrArg (List.map Located.token) htokens
    rwa [map_token_locate, map_token_locate] at hmap
  · intro hscan
    rw [hscan]

/-- Putting texts together at a clean cut puts their tokens together, those of the right text
further on by the width of the left one.  At no other cut does it, but all tokens of the left text
except for the last one are still the first ones of the whole. -/
theorem tokenize_append (left right : String) :
    (Token.CleanCut left.toList right.toList ↔
        tokenize (left ++ right) =
          tokenize left ++ (tokenize right).map (Located.shift (width left.toList))) ∧
      (tokenize left).dropLast <+: tokenize (left ++ right) := by
  refine ⟨(tokenize_append_iff_cleanCut left right).symm, ?_⟩
  rw [tokenize, tokenize, dropLast_locate, String.toList_append]
  exact locate_isPrefix (Token.dropLast_scan_isPrefix left.toList right.toList) 0

/-- The last colon of the left text is not the second one of a mark. -/
example :
    tokenize (":::" ++ ":") = [⟨.scopeMark, ⟨0, 2⟩⟩, ⟨.scopeMark, ⟨2, 4⟩⟩] := by
  decide +kernel

end ArgumentContract

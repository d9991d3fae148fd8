import ArgumentContract.Message.Token
import Mathlib.Data.List.TakeWhile
import Mathlib.Tactic

/-!
# Tokens tile a message

A scan cuts a text into tokens each of which stands on its own: it is properly spelled, and it
does not reach into what follows it.  This file shows that the condition is also sufficient.
Tokens that stand on their own in front of some text are exactly the tokens that a scan takes off
that text first, whatever the text is.  Everything said about messages as texts is carried over to
their tokens, and back, by these two facts.
-/

namespace ArgumentContract

/-- Whether a text begins with a word character. -/
def startsWord : List Char → Bool
  | [] => false
  | c :: _ => isWordChar c

/-- A non-empty run of word characters. -/
def IsName (letters : List Char) : Prop :=
  letters ≠ [] ∧ ∀ c ∈ letters, isWordChar c = true

theorem isName_iff (letters : List Char) :
    letters.isEmpty = false ∧ letters.all isWordChar = true ↔ IsName letters := by
  rw [List.isEmpty_eq_false_iff, List.all_eq_true]
  rfl

instance (letters : List Char) : Decidable (IsName letters) :=
  decidable_of_iff _ (isName_iff letters)

@[simp] theorem startsWord_nil : startsWord [] = false := rfl

@[simp] theorem startsWord_cons (c : Char) (rest : List Char) :
    startsWord (c :: rest) = isWordChar c := rfl

theorem IsName.startsWord_append
    {letters : List Char} (hname : IsName letters) (rest : List Char) :
    startsWord (letters ++ rest) = true := by
  cases letters with
  | nil => exact absurd rfl hname.1
  | cons c more => exact hname.2 c (List.mem_cons_self ..)

theorem startsWord_dropWhile (text : List Char) :
    startsWord (text.dropWhile isWordChar) = false := by
  have hhead := List.head?_dropWhile_not isWordChar text
  cases hdrop : text.dropWhile isWordChar with
  | nil => rfl
  | cons c rest => simpa [hdrop] using hhead

theorem exists_name_of_startsWord
    {text : List Char} (hstarts : startsWord text = true) :
    ∃ letters rest, text = letters ++ rest ∧ IsName letters ∧ startsWord rest = false := by
  refine ⟨text.takeWhile isWordChar, text.dropWhile isWordChar,
    List.takeWhile_append_dropWhile.symm, ⟨?_, ?_⟩, startsWord_dropWhile text⟩
  · cases text with
    | nil => simp at hstarts
    | cons c rest =>
        rw [startsWord_cons] at hstarts
        simp [hstarts]
  · intro c hmem
    exact List.mem_takeWhile_imp hmem

namespace Token

/-- A token in front of `following` stands on its own: it is properly spelled, and a scan that
reads it does not go on into `following`. -/
def StandsBefore (following : List Char) : Token → Prop
  | word letters => IsName letters ∧ startsWord following = false
  | other c =>
      isWordChar c = false ∧ c ≠ ' ' ∧ c ≠ ',' ∧
        ¬ (c = ':' ∧ following.head? = some ':') ∧
        ¬ (c = '(' ∧ following.head? = some ')')
  | space | scopeMark | parens | comma => True

/-- Every one of the tokens stands on its own, the last one in front of `rest`. -/
def Tiles (rest : List Char) : List Token → Prop
  | [] => True
  | token :: tokens =>
      token.StandsBefore (tokens.flatMap text ++ rest) ∧ Tiles rest tokens

theorem tiles_append {rest : List Char} {left right : List Token} :
    Tiles rest (left ++ right) ↔
      Tiles (right.flatMap text ++ rest) left ∧ Tiles rest right := by
  induction left with
  | nil => simp [Tiles]
  | cons token left ih => simp [Tiles, ih, and_assoc]

/-- The words among the tokens are names. -/
def Named (tokens : List Token) : Prop :=
  ∀ letters, word letters ∈ tokens → IsName letters

theorem named_nil : Named [] := by
  intro letters hmem
  contradiction

theorem named_append {left right : List Token} :
    Named (left ++ right) ↔ Named left ∧ Named right := by
  simp only [Named, List.mem_append, or_imp, forall_and]

theorem Tiles.named
    {rest : List Char} {tokens : List Token} (htiles : Tiles rest tokens) :
    Named tokens := by
  intro letters hmem
  induction tokens with
  | nil => contradiction
  | cons token tokens ih =>
      rcases List.mem_cons.mp hmem with hhead | htail
      · have hstands := htiles.1
        rw [← hhead] at hstands
        exact hstands.1
      · exact ih htiles.2 htail

theorem StandsBefore.text_ne_nil
    {token : Token} {following : List Char} (hstands : token.StandsBefore following) :
    token.text ≠ [] := by
  cases token with
  | word letters => exact hstands.1.1
  | other c => exact List.cons_ne_nil c []
  | space | scopeMark | parens | comma => exact List.cons_ne_nil _ _

/-! ## The tokens of a text stand on their own -/

theorem startsWord_text_append
    {token : Token} {following : List Char} (hstands : token.StandsBefore following) :
    startsWord (token.text ++ following) = true ↔ ∃ letters, token = word letters := by
  cases token with
  | word letters => simpa [text] using hstands.1.startsWord_append following
  | other c => simpa [text] using hstands.1
  | space | scopeMark | parens | comma => simp [text, isWordChar]

theorem Tiles.startsWord_iff
    {rest : List Char} {token : Token} {tokens : List Token}
    (htiles : Tiles rest (token :: tokens)) :
    startsWord ((token :: tokens).flatMap text ++ rest) = true ↔
      ∃ letters, token = word letters := by
  rw [List.flatMap_cons, List.append_assoc]
  exact startsWord_text_append htiles.1

theorem tiles_joinLetter
    {c : Char} (hword : isWordChar c = true)
    {tokens : List Token} (htiles : Tiles [] tokens) :
    Tiles [] (joinLetter c tokens) := by
  unfold joinLetter
  split
  next letters rest =>
    obtain ⟨⟨⟨hne, hletters⟩, hafter⟩, hrest⟩ := htiles
    refine ⟨⟨⟨by simp, ?_⟩, hafter⟩, hrest⟩
    intro d hmem
    rcases List.mem_cons.mp hmem with rfl | hmem
    · exact hword
    · exact hletters d hmem
  next _ hhead =>
    refine ⟨⟨⟨by simp, by simpa using hword⟩, ?_⟩, htiles⟩
    cases tokens with
    | nil => rfl
    | cons token rest =>
        rw [← Bool.not_eq_true, htiles.startsWord_iff]
        intro h
        obtain ⟨letters, rfl⟩ := h
        exact hhead letters rest rfl

theorem standsBefore_single
    {c : Char} {rest : List Char} (hword : isWordChar c = false)
    (hscope : ¬ (c = ':' ∧ rest.head? = some ':'))
    (hparens : ¬ (c = '(' ∧ rest.head? = some ')')) :
    (single c).StandsBefore rest := by
  unfold single
  split
  next => trivial
  next => trivial
  next c hspace hcomma =>
    exact ⟨hword, hspace, hcomma, hscope, hparens⟩

theorem tiles_scan (message : List Char) : Tiles [] (scan message) := by
  fun_induction scan message with
  | case1 => trivial
  | case2 rest ih => exact ⟨trivial, ih⟩
  | case3 rest ih => exact ⟨trivial, ih⟩
  | case4 c rest _ _ hword ih => exact tiles_joinLetter hword ih
  | case5 c rest hscope hparens hword ih =>
      refine ⟨?_, ih⟩
      rw [flatMap_text_scan, List.append_nil]
      apply standsBefore_single (by simpa using hword)
      · intro h
        obtain ⟨rfl, hhead⟩ := h
        obtain ⟨more, rfl⟩ := List.head?_eq_some_iff.mp hhead
        exact hscope more rfl rfl
      · intro h
        obtain ⟨rfl, hhead⟩ := h
        obtain ⟨more, rfl⟩ := List.head?_eq_some_iff.mp hhead
        exact hparens more rfl rfl

theorem scan_eq_cons
    {message : List Char} {token : Token} {tokens : List Token}
    (hscan : scan message = token :: tokens) :
    message = token.text ++ tokens.flatMap text ∧
      token.StandsBefore (tokens.flatMap text) := by
  have htext := flatMap_text_scan message
  have htiles := tiles_scan message
  rw [hscan] at htext htiles
  exact ⟨htext.symm, by simpa using htiles.1⟩

theorem scan_eq_nil_iff {message : List Char} : scan message = [] ↔ message = [] := by
  constructor
  · intro hscan
    have htext := flatMap_text_scan message
    rw [hscan, List.flatMap_nil] at htext
    exact htext.symm
  · rintro rfl
    rfl

/-! ## Tokens that stand on their own are scanned off -/

theorem scan_cons_word
    {c : Char} (hword : isWordChar c = true) (rest : List Char) :
    scan (c :: rest) = joinLetter c (scan rest) := by
  have hcolon : c ≠ ':' := by rintro rfl; simp [isWordChar] at hword
  have hopen : c ≠ '(' := by rintro rfl; simp [isWordChar] at hword
  rw [scan]
  · simp [hword]
  · intro more hc
    exact absurd hc hcolon
  · intro more hc
    exact absurd hc hopen

theorem scan_cons_single
    {c : Char} {rest : List Char} (hword : isWordChar c = false)
    (hscope : ¬ (c = ':' ∧ rest.head? = some ':'))
    (hparens : ¬ (c = '(' ∧ rest.head? = some ')')) :
    scan (c :: rest) = single c :: scan rest := by
  rw [scan]
  · simp [hword]
  · rintro more rfl rfl
    simp at hscope
  · rintro more rfl rfl
    simp at hparens

theorem joinLetter_scan_of_not_startsWord
    (c : Char) {rest : List Char} (hrest : startsWord rest = false) :
    joinLetter c (scan rest) = word [c] :: scan rest := by
  unfold joinLetter
  split
  next letters tokens hscan =>
    obtain ⟨rfl, hname, -⟩ := scan_eq_cons hscan
    rw [text, hname.startsWord_append] at hrest
    contradiction
  next => rfl

theorem scan_name_append
    {letters rest : List Char} (hname : IsName letters)
    (hrest : startsWord rest = false) :
    scan (letters ++ rest) = word letters :: scan rest := by
  obtain ⟨hne, hletters⟩ := hname
  induction letters with
  | nil => exact absurd rfl hne
  | cons c more ih =>
      -- A scan joins a letter to the word that the rest of the run has become.
      have hword := hletters c (List.mem_cons_self ..)
      rw [List.cons_append, scan_cons_word hword]
      cases more with
      | nil => exact joinLetter_scan_of_not_startsWord c hrest
      | cons d others =>
          rw [ih (by simp) fun e hmem => hletters e (List.mem_cons_of_mem c hmem)]
          rfl

theorem scan_text_append
    {token : Token} {following : List Char} (hstands : token.StandsBefore following) :
    scan (token.text ++ following) = token :: scan following := by
  cases token with
  | space => exact scan_cons_single (by decide) (by simp) (by simp)
  | comma => exact scan_cons_single (by decide) (by simp) (by simp)
  | scopeMark => rfl
  | parens => rfl
  | word letters => exact scan_name_append hstands.1 hstands.2
  | other c =>
      obtain ⟨hword, hspace, hcomma, hscope, hparens⟩ := hstands
      have hsingle : single c = other c := by
        unfold single
        split
        next => exact absurd rfl hspace
        next => exact absurd rfl hcomma
        next => rfl
      rw [text, List.singleton_append, scan_cons_single hword hscope hparens, hsingle]

theorem exists_rest_of_scan_eq_cons
    {message : List Char} {token : Token} {tokens : List Token}
    (hscan : scan message = token :: tokens) :
    ∃ rest, message = token.text ++ rest ∧ token.StandsBefore rest ∧ tokens = scan rest := by
  obtain ⟨htext, hstands⟩ := scan_eq_cons hscan
  refine ⟨tokens.flatMap text, htext, hstands, ?_⟩
  rw [htext, scan_text_append hstands, List.cons.injEq] at hscan
  exact hscan.2.symm

/-- Tokens that stand on their own are scanned off, whatever follows them. -/
theorem Tiles.scan_append
    {tokens : List Token} {rest : List Char} (htiles : Tiles rest tokens) :
    scan (tokens.flatMap text ++ rest) = tokens ++ scan rest := by
  induction tokens with
  | nil => rfl
  | cons token tokens ih =>
      obtain ⟨hstands, htiles⟩ := htiles
      rw [List.flatMap_cons, List.append_assoc, scan_text_append hstands, ih htiles]
      rfl

/-! ## Texts that go on -/

theorem startsWord_append_of_ne_nil
    {following : List Char} (hne : following ≠ []) (more : List Char) :
    startsWord (following ++ more) = startsWord following := by
  obtain ⟨c, rest, rfl⟩ := List.exists_cons_of_ne_nil hne
  rfl

theorem StandsBefore.append
    {token : Token} {following : List Char} (hstands : token.StandsBefore following)
    (hne : following ≠ []) (more : List Char) :
    token.StandsBefore (following ++ more) := by
  cases token with
  | word letters =>
      refine ⟨hstands.1, ?_⟩
      rw [startsWord_append_of_ne_nil hne]
      exact hstands.2
  | other c =>
      unfold StandsBefore
      rw [List.head?_append_of_ne_nil _ hne]
      exact hstands
  | space | scopeMark | parens | comma => trivial

/-- Whether tokens stand on their own is settled by the first character that follows them. -/
theorem Tiles.append
    {tokens : List Token} {rest : List Char} (htiles : Tiles rest tokens)
    (hne : rest ≠ []) (more : List Char) :
    Tiles (rest ++ more) tokens := by
  induction tokens with
  | nil => trivial
  | cons token tokens ih =>
      refine ⟨?_, ih htiles.2⟩
      rw [← List.append_assoc]
      exact htiles.1.append (List.append_ne_nil_of_right_ne_nil _ hne) more

theorem Tiles.flatMap_text_ne_nil
    {tokens : List Token} {rest : List Char} (htiles : Tiles rest tokens) (hne : tokens ≠ []) :
    tokens.flatMap text ≠ [] := by
  obtain ⟨token, others, rfl⟩ := List.exists_cons_of_ne_nil hne
  rw [List.flatMap_cons]
  exact List.append_ne_nil_of_left_ne_nil htiles.1.text_ne_nil _

/-- Text that is appended to a message leaves all of its tokens but the last one as they are. -/
theorem scan_append_of_scan_eq
    {message : List Char} {front rest : List Token} (hscan : scan message = front ++ rest)
    (hne : rest ≠ []) (more : List Char) :
    scan (message ++ more) = front ++ scan (rest.flatMap text ++ more) := by
  have htext := flatMap_text_scan message
  have htiles := tiles_scan message
  rw [hscan, List.flatMap_append] at htext
  rw [hscan, tiles_append, List.append_nil] at htiles
  have hrest := htiles.2.flatMap_text_ne_nil hne
  rw [← htext, List.append_assoc, (htiles.1.append hrest more).scan_append]

end Token

end ArgumentContract

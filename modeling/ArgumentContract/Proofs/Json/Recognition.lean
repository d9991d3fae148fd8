import ArgumentContract.Proofs.Json.SpelledTree
import ArgumentContract.Proofs.Message.Recognition

/-!
# What is read is spelled

A reader takes nothing off a text but what the grammar allows there.  Every part is recovered from
the reader of that part, and `Recognizes` says so of the readers of documents.  Together with the
converse, a text is read as a document exactly if it is spelled and what it spells stands for that
document: the grammar describes all texts that are read and no others.
-/

namespace ArgumentContract.Json

open Grammar (bind_eq_ok_iff)

/-! ## Blanks and words -/

theorem IsBlanks.append {left right : List Char} (hleft : IsBlanks left) (hright : IsBlanks right) :
    IsBlanks (left ++ right) :=
  List.forall_mem_append.mpr ⟨hleft, hright⟩

theorem eq_append_of_readWord
    {word text rest : List Char} (hread : readWord word text = .ok rest) : text = word ++ rest := by
  induction word generalizing text with
  | nil => exact Except.ok.inj hread
  | cons c word ih =>
      cases text with
      | nil => contradiction
      | cons d text =>
          rw [readWord] at hread
          split at hread
          next hsame => rw [hsame, List.cons_append, ← ih hread]
          next => contradiction

/-! ## Numbers -/

theorem eq_append_of_readDigits
    {text digits rest : List Char} (hread : readDigits text = .ok (digits, rest)) :
    text = digits ++ rest ∧ IsDigits digits := by
  rw [readDigits] at hread
  split at hread
  next => contradiction
  next hne =>
    obtain ⟨rfl, rfl⟩ := Prod.mk.inj (Except.ok.inj hread)
    rw [List.isEmpty_iff] at hne
    exact ⟨List.takeWhile_append_dropWhile.symm, hne, fun _ hmem => List.mem_takeWhile_imp hmem⟩

theorem eq_append_of_readWhole
    {text whole rest : List Char} (hread : readWhole text = .ok (whole, rest)) :
    text = whole ++ rest ∧ IsWhole whole := by
  obtain ⟨⟨digits, after⟩, hfront, hread⟩ := bind_eq_ok_iff.mp hread
  simp only at hread
  split at hread
  next => contradiction
  next hplain =>
    obtain ⟨rfl, rfl⟩ := Prod.mk.inj (Except.ok.inj hread)
    obtain ⟨htext, hdigits⟩ := eq_append_of_readDigits hfront
    exact ⟨htext, hdigits, hplain⟩

theorem exists_front_of_readFraction
    {text rest : List Char} {fraction : Option (List Char)}
    (hread : readFraction text = .ok (fraction, rest)) :
    ∃ front, text = front ++ rest ∧ SpellsFraction front fraction := by
  unfold readFraction at hread
  split at hread
  next text =>
    obtain ⟨⟨digits, after⟩, hfront, hread⟩ := bind_eq_ok_iff.mp hread
    obtain ⟨rfl, rfl⟩ := Prod.mk.inj (Except.ok.inj hread)
    obtain ⟨rfl, hdigits⟩ := eq_append_of_readDigits hfront
    exact ⟨'.' :: digits, rfl, .digits hdigits⟩
  next =>
    obtain ⟨rfl, rfl⟩ := Prod.mk.inj (Except.ok.inj hread)
    exact ⟨[], rfl, .absent⟩

theorem eq_append_of_readSign
    {text unsigned : List Char} {negative : Bool} (hread : readSign text = (negative, unsigned)) :
    (negative = false ∧ ∃ sign, (sign = [] ∨ sign = ['+']) ∧ text = sign ++ unsigned) ∨
      (negative = true ∧ text = '-' :: unsigned) := by
  unfold readSign at hread
  split at hread
  all_goals obtain ⟨rfl, rfl⟩ := Prod.mk.inj hread
  · exact Or.inl ⟨rfl, ['+'], Or.inr rfl, rfl⟩
  · exact Or.inr ⟨rfl, rfl⟩
  · exact Or.inl ⟨rfl, [], Or.inl rfl, rfl⟩

theorem exists_front_of_readExponent
    {text rest : List Char} {exponent : Option Int}
    (hread : readExponent text = .ok (exponent, rest)) :
    ∃ front, text = front ++ rest ∧ SpellsExponent front exponent := by
  cases text with
  | nil =>
      obtain ⟨rfl, rfl⟩ := Prod.mk.inj (Except.ok.inj hread)
      exact ⟨[], rfl, .absent⟩
  | cons mark text =>
      rw [readExponent] at hread
      split at hread
      next hmark =>
        rcases hsign : readSign text with ⟨negative, unsigned⟩
        rw [hsign] at hread
        obtain ⟨⟨digits, after⟩, hfront, hread⟩ := bind_eq_ok_iff.mp hread
        obtain ⟨rfl, rfl⟩ := Prod.mk.inj (Except.ok.inj hread)
        obtain ⟨rfl, hdigits⟩ := eq_append_of_readDigits hfront
        rcases eq_append_of_readSign hsign with ⟨rfl, sign, hplus, rfl⟩ | ⟨rfl, rfl⟩
        · exact ⟨mark :: (sign ++ digits), by simp, .positive hmark hplus hdigits⟩
        · exact ⟨mark :: '-' :: digits, rfl, .negative hmark hdigits⟩
      next =>
        obtain ⟨rfl, rfl⟩ := Prod.mk.inj (Except.ok.inj hread)
        exact ⟨[], rfl, .absent⟩

theorem readNumberParts_eq (text : List Char) :
    ∃ negative unsigned, text = minusSign negative ++ unsigned ∧
      readNumberParts text = do
        let (whole, text) ← readWhole unsigned
        let (fraction, text) ← readFraction text
        let (exponent, text) ← readExponent text
        return (⟨negative, whole, fraction, exponent⟩, text) := by
  unfold readNumberParts
  split
  next negative unsigned hsign =>
    split at hsign
    all_goals obtain ⟨rfl, rfl⟩ := Prod.mk.inj hsign
    · exact ⟨true, _, rfl, rfl⟩
    · exact ⟨false, _, rfl, rfl⟩

theorem exists_front_of_readNumberParts
    {text rest : List Char} {parts : NumberParts}
    (hread : readNumberParts text = .ok (parts, rest)) :
    ∃ front, text = front ++ rest ∧ SpellsNumber front parts := by
  obtain ⟨negative, unsigned, htext, hparts⟩ := readNumberParts_eq text
  rw [hparts] at hread
  obtain ⟨⟨whole, afterWhole⟩, hwhole, hread⟩ := bind_eq_ok_iff.mp hread
  obtain ⟨⟨fraction, afterFraction⟩, hfraction, hread⟩ := bind_eq_ok_iff.mp hread
  obtain ⟨⟨exponent, afterExponent⟩, hexponent, hread⟩ := bind_eq_ok_iff.mp hread
  obtain ⟨rfl, rfl⟩ := Prod.mk.inj (Except.ok.inj hread)
  obtain ⟨hunsigned, hwhole⟩ := eq_append_of_readWhole hwhole
  obtain ⟨fractionText, hafterWhole, hfraction⟩ := exists_front_of_readFraction hfraction
  obtain ⟨exponentText, hafterFraction, hexponent⟩ := exists_front_of_readExponent hexponent
  refine ⟨minusSign negative ++ (whole ++ (fractionText ++ exponentText)), ?_,
    fractionText, exponentText, rfl, hwhole, hfraction, hexponent⟩
  rw [htext, hunsigned, hafterWhole, hafterFraction]
  simp only [List.append_assoc]

theorem exists_front_of_readNumber
    {text rest : List Char} {number : JsonNumber} (hread : readNumber text = .ok (number, rest)) :
    ∃ front parts, text = front ++ rest ∧ SpellsNumber front parts ∧
      parts.number? = some number := by
  unfold readNumber at hread
  split at hread
  next => contradiction
  next => contradiction
  next parts after hparts =>
    split at hread
    next hnumber =>
      obtain ⟨rfl, rfl⟩ := Prod.mk.inj (Except.ok.inj hread)
      obtain ⟨front, htext, hspells⟩ := exists_front_of_readNumberParts hparts
      exact ⟨front, parts, htext, hspells, hnumber⟩
    next => contradiction

/-! ## Strings -/

/-- The text of a literal stands in front of its closing quote. -/
def ClosesWith (text content rest : List Char) : Prop :=
  ∃ front, text = front ++ '"' :: rest ∧ SpellsLetters front (content.map .char)

theorem SpellsLetter.closesWith
    {front text content rest : List Char} {c : Char} (hletter : SpellsLetter front (.char c))
    (htext : ∀ more, readChars text = .ok (more, rest) → ClosesWith text more rest)
    (hread : prepend c (readChars text) = .ok (content, rest)) :
    ClosesWith (front ++ text) content rest := by
  cases hmore : readChars text with
  | error fault =>
      rw [hmore, prepend] at hread
      cases hread
  | ok found =>
      obtain ⟨more, after⟩ := found
      rw [hmore, prepend] at hread
      obtain ⟨rfl, rfl⟩ := Prod.mk.inj (Except.ok.inj hread)
      obtain ⟨back, rfl, hletters⟩ := htext more hmore
      exact ⟨front ++ back, (List.append_assoc ..).symm, .cons hletter hletters nofun⟩

theorem closesWith_of_readChars
    {text content rest : List Char} (hread : readChars text = .ok (content, rest)) :
    ClosesWith text content rest := by
  fun_induction readChars text generalizing content with
  | case2 =>
      obtain ⟨rfl, rfl⟩ := Prod.mk.inj (Except.ok.inj hread)
      exact ⟨[], rfl, .nil⟩
  | case6 _ _ _ _ _ hleadingUnit _ hleading _ _ _ _ _ _ htrailingUnit htrailing ih =>
      exact (SpellsLetter.pair hleadingUnit hleading htrailingUnit htrailing).closesWith
        (fun _ => ih) hread
  | case9 _ _ _ _ _ _ hunit htrailing hleading ih =>
      exact (SpellsLetter.unit hunit (Bool.eq_false_iff.mpr hleading)
        (Bool.eq_false_iff.mpr htrailing)).closesWith (fun _ => ih) hread
  | case11 _ _ _ _ _ hescaped ih =>
      exact (SpellsLetter.escaped hescaped).closesWith (fun _ => ih) hread
  | case15 c text hquote _ _ hescape halone hcontrol ih =>
      have hbackslash : c ≠ '\\' := by
        intro hc
        cases text with
        | nil => exact halone hc rfl
        | cons next text => exact hescape next text hc rfl
      exact (SpellsLetter.plain hquote hbackslash (Nat.not_lt.mp hcontrol)).closesWith
        (fun _ => ih) hread
  | _ => contradiction

theorem exists_front_of_readString
    {text rest : List Char} {content : String} (hread : readString text = .ok (content, rest)) :
    ∃ front, text = front ++ '"' :: rest ∧ SpellsLetters front (lettersOf content) := by
  unfold readString at hread
  split at hread
  next chars after hchars =>
    obtain ⟨rfl, rfl⟩ := Prod.mk.inj (Except.ok.inj hread)
    rw [lettersOf, String.toList_ofList]
    exact closesWith_of_readChars hchars
  next => contradiction

/-! ## Elements of a list -/

/-- A reader takes nothing off a text but a spelled document with blanks in front, and what it makes
of it is what a function makes of the document. -/
def Recognizes {α : Type} (depth : Nat) (reader : Reader α) (read : Source → Option α) : Prop :=
  ∀ text found rest, reader text = .ok (found, rest) →
    ∃ before core source, text = before ++ (core ++ rest) ∧ IsBlanks before ∧
      Spells depth core source ∧ read source = some found

theorem exists_blanks_of_nextItem_closed
    {first : Bool} {text rest : List Char} (hnext : nextItem first text = .ok (.closed rest)) :
    ∃ blanks, IsBlanks blanks ∧ text = blanks ++ ']' :: rest := by
  obtain ⟨blanks, htext, hblanks⟩ := exists_blanks text
  refine ⟨blanks, hblanks, ?_⟩
  rw [htext]
  unfold nextItem at hnext
  split at hnext
  next => contradiction
  next hskipped =>
    obtain rfl := Next.closed.inj (Except.ok.inj hnext)
    rw [hskipped]
  next =>
    split at hnext
    next => cases hnext
    next => split at hnext <;> cases hnext
  next => split at hnext <;> cases hnext

theorem exists_blanks_of_nextItem_element
    {first : Bool} {text rest : List Char} (hnext : nextItem first text = .ok (.element rest)) :
    ∃ after before, IsBlanks after ∧ IsBlanks before ∧
      text = after ++ (comma first ++ (before ++ rest)) := by
  obtain ⟨after, htext, hafter⟩ := exists_blanks text
  unfold nextItem at hnext
  split at hnext
  next => contradiction
  next => cases hnext
  next behind hskipped =>
    split at hnext
    next hfirst =>
      obtain rfl := Next.element.inj (Except.ok.inj hnext)
      exact ⟨after, [], hafter, isBlanks_nil, by rw [htext, hskipped, hfirst]; rfl⟩
    next hfirst =>
      obtain ⟨before, hbehind, hbefore⟩ := exists_blanks behind
      refine ⟨after, before, hafter, hbefore, ?_⟩
      rw [Bool.not_eq_true] at hfirst
      split at hnext
      next => contradiction
      next => contradiction
      next =>
        obtain rfl := Next.element.inj (Except.ok.inj hnext)
        rw [htext, hskipped, hfirst, ← hbehind]
        rfl
  next hskipped =>
    split at hnext
    next hfirst =>
      obtain rfl := Next.element.inj (Except.ok.inj hnext)
      exact ⟨after, [], hafter, isBlanks_nil, by rw [hfirst]; exact htext⟩
    next => contradiction

/-- The elements of a list are spelled one by one. -/
theorem exists_elements_of_readItems
    {α : Type} {depth : Nat} {item : Reader α} {read : Source → Option α}
    (hitem : Recognizes depth item read) {count : Nat} {first : Bool} {text rest : List Char}
    {found : List α} (hread : readItems item count first text = .ok (found, rest)) :
    ∃ blanks, ∃ elements : List Element, IsBlanks blanks ∧
      text = blanks ++ (separated first (elements.map Element.padded) ++ ']' :: rest) ∧
      (∀ element ∈ elements, element.IsPadded) ∧
      (∀ element ∈ elements, Spells depth element.text element.source) ∧
      (elements.map Element.source).mapM read = some found := by
  induction count generalizing first text found with
  | zero => contradiction
  | succ count ih =>
      obtain ⟨next, hnext, hread⟩ := bind_eq_ok_iff.mp hread
      cases next with
      | closed behind =>
          obtain ⟨rfl, rfl⟩ := Prod.mk.inj (Except.ok.inj hread)
          obtain ⟨blanks, hblanks, rfl⟩ := exists_blanks_of_nextItem_closed hnext
          exact ⟨blanks, [], hblanks, by rw [List.map_nil, separated_nil]; rfl, nofun, nofun, rfl⟩
      | element behind =>
          obtain ⟨⟨head, afterHead⟩, hhead, hread⟩ := bind_eq_ok_iff.mp hread
          obtain ⟨⟨tail, afterTail⟩, htail, hread⟩ := bind_eq_ok_iff.mp hread
          obtain ⟨rfl, rfl⟩ := Prod.mk.inj (Except.ok.inj hread)
          obtain ⟨after, before, hafter, hbefore, rfl⟩ := exists_blanks_of_nextItem_element hnext
          obtain ⟨blanks, core, source, rfl, hblanks, hcore, hsource⟩ := hitem _ _ _ hhead
          obtain ⟨trail, elements, htrail, rfl, hpadded, hspells, helements⟩ := ih htail
          let element : Element := ⟨before ++ blanks, core, trail, source⟩
          refine ⟨after, element :: elements, hafter, ?_, ?_, ?_, ?_⟩
          · simp only [element, List.map_cons, separated_cons, Element.padded, List.append_assoc]
          · exact List.forall_mem_cons.mpr ⟨⟨hbefore.append hblanks, htrail⟩, hpadded⟩
          · exact List.forall_mem_cons.mpr ⟨hcore, hspells⟩
          · simp only [element, List.map_cons, List.mapM_cons, hsource, helements]
            rfl

/-! ## Members of an object -/

theorem exists_blanks_of_nextKey_closed
    {first : Bool} {text rest : List Char} (hnext : nextKey first text = .ok (.closed rest)) :
    ∃ blanks, IsBlanks blanks ∧ text = blanks ++ '\x7d' :: rest := by
  obtain ⟨blanks, htext, hblanks⟩ := exists_blanks text
  refine ⟨blanks, hblanks, ?_⟩
  rw [htext]
  unfold nextKey at hnext
  split at hnext
  next => contradiction
  next hskipped =>
    obtain rfl := Next.closed.inj (Except.ok.inj hnext)
    rw [hskipped]
  next =>
    split at hnext
    next => contradiction
    next => split at hnext <;> cases hnext
  next => split at hnext <;> cases hnext
  next => split at hnext <;> contradiction

theorem exists_blanks_of_nextKey_element
    {first : Bool} {text rest : List Char} (hnext : nextKey first text = .ok (.element rest)) :
    ∃ after before, IsBlanks after ∧ IsBlanks before ∧
      text = after ++ (comma first ++ (before ++ '"' :: rest)) := by
  obtain ⟨after, htext, hafter⟩ := exists_blanks text
  unfold nextKey at hnext
  split at hnext
  next => contradiction
  next => cases hnext
  next behind hskipped =>
    split at hnext
    next => contradiction
    next hfirst =>
      obtain ⟨before, hbehind, hbefore⟩ := exists_blanks behind
      refine ⟨after, before, hafter, hbefore, ?_⟩
      rw [Bool.not_eq_true] at hfirst
      split at hnext
      next => contradiction
      next hquote =>
        obtain rfl := Next.element.inj (Except.ok.inj hnext)
        rw [htext, hskipped, hfirst, hbehind, hquote]
        rfl
      next => contradiction
      next => contradiction
  next behind hskipped =>
    split at hnext
    next hfirst =>
      obtain rfl := Next.element.inj (Except.ok.inj hnext)
      exact ⟨after, [], hafter, isBlanks_nil, by rw [htext, hskipped, hfirst]; rfl⟩
    next => contradiction
  next => split at hnext <;> contradiction

theorem exists_blanks_of_readColon
    {text rest : List Char} (hread : readColon text = .ok rest) :
    ∃ blanks, IsBlanks blanks ∧ text = blanks ++ ':' :: rest := by
  obtain ⟨blanks, htext, hblanks⟩ := exists_blanks text
  unfold readColon at hread
  split at hread
  next => contradiction
  next behind hskipped =>
    obtain rfl := Except.ok.inj hread
    exact ⟨blanks, hblanks, by rw [htext, hskipped]⟩
  next => contradiction

/-- The members of an object are spelled one by one. -/
theorem exists_members_of_readMembers
    {α : Type} {depth : Nat} {value : Reader α} {read : Source → Option α}
    (hvalue : Recognizes depth value read) {count : Nat} {first : Bool} {text rest : List Char}
    {found : List (String × α)} (hread : readMembers value count first text = .ok (found, rest)) :
    ∃ blanks, ∃ members : List Member, IsBlanks blanks ∧
      text = blanks ++ (separated first (members.map Member.padded) ++ '\x7d' :: rest) ∧
      (∀ member ∈ members, member.IsKeyed) ∧
      (∀ member ∈ members, Spells depth member.value.text member.value.source) ∧
      (members.map Member.source).mapM (Source.member? read) = some found := by
  induction count generalizing first text found with
  | zero => contradiction
  | succ count ih =>
      obtain ⟨next, hnext, hread⟩ := bind_eq_ok_iff.mp hread
      cases next with
      | closed behind =>
          obtain ⟨rfl, rfl⟩ := Prod.mk.inj (Except.ok.inj hread)
          obtain ⟨blanks, hblanks, rfl⟩ := exists_blanks_of_nextKey_closed hnext
          exact ⟨blanks, [], hblanks, by rw [List.map_nil, separated_nil]; rfl, nofun, nofun, rfl⟩
      | element behind =>
          obtain ⟨⟨key, afterKey⟩, hkey, hread⟩ := bind_eq_ok_iff.mp hread
          obtain ⟨afterColon, hcolon, hread⟩ := bind_eq_ok_iff.mp hread
          obtain ⟨⟨head, afterHead⟩, hhead, hread⟩ := bind_eq_ok_iff.mp hread
          obtain ⟨⟨tail, afterTail⟩, htail, hread⟩ := bind_eq_ok_iff.mp hread
          obtain ⟨rfl, rfl⟩ := Prod.mk.inj (Except.ok.inj hread)
          obtain ⟨after, before, hafter, hbefore, rfl⟩ := exists_blanks_of_nextKey_element hnext
          obtain ⟨front, rfl, hletters⟩ := exists_front_of_readString hkey
          obtain ⟨gap, hgap, rfl⟩ := exists_blanks_of_readColon hcolon
          obtain ⟨blanks, core, source, rfl, hblanks, hcore, hsource⟩ := hvalue _ _ _ hhead
          obtain ⟨trail, members, htrail, rfl, hkeyed, hspells, hmembers⟩ := ih htail
          let member : Member := ⟨before, front, gap, lettersOf key, blanks, core, trail, source⟩
          refine ⟨after, member :: members, hafter, ?_, ?_, ?_, ?_⟩
          · simp only [member, List.map_cons, separated_cons, Member.padded, Element.padded,
              List.append_assoc, List.cons_append]
          · exact List.forall_mem_cons.mpr ⟨⟨hbefore, hgap, ⟨hblanks, htrail⟩, hletters⟩, hkeyed⟩
          · exact List.forall_mem_cons.mpr ⟨hcore, hspells⟩
          · simp only [member, List.map_cons, List.mapM_cons, Member.source, Source.member?,
              textOf?_lettersOf, hsource, hmembers]
            rfl

/-! ## Documents -/

theorem exists_front_of_readAtom
    {depth : Nat} {text rest : List Char} {document : Json}
    (hread : readAtom text = .ok (document, rest)) :
    ∃ front source, text = front ++ rest ∧ Spells depth front source ∧
      source.document? = some document := by
  unfold readAtom at hread
  split at hread
  next => contradiction
  next =>
    obtain ⟨after, hword, hread⟩ := bind_eq_ok_iff.mp hread
    obtain ⟨rfl, rfl⟩ := Prod.mk.inj (Except.ok.inj hread)
    obtain rfl := eq_append_of_readWord hword
    exact ⟨"null".toList, .null, rfl, .null depth, rfl⟩
  next =>
    obtain ⟨after, hword, hread⟩ := bind_eq_ok_iff.mp hread
    obtain ⟨rfl, rfl⟩ := Prod.mk.inj (Except.ok.inj hread)
    obtain rfl := eq_append_of_readWord hword
    exact ⟨"true".toList, .bool true, rfl, .bool depth true, rfl⟩
  next =>
    obtain ⟨after, hword, hread⟩ := bind_eq_ok_iff.mp hread
    obtain ⟨rfl, rfl⟩ := Prod.mk.inj (Except.ok.inj hread)
    obtain rfl := eq_append_of_readWord hword
    exact ⟨"false".toList, .bool false, rfl, .bool depth false, rfl⟩
  next =>
    obtain ⟨⟨content, after⟩, hcontent, hread⟩ := bind_eq_ok_iff.mp hread
    obtain ⟨rfl, rfl⟩ := Prod.mk.inj (Except.ok.inj hread)
    obtain ⟨front, rfl, hletters⟩ := exists_front_of_readString hcontent
    refine ⟨'"' :: (front ++ ['"']), .string (lettersOf content), by simp,
      .string depth hletters, ?_⟩
    rw [Source.document?, textOf?_lettersOf]
    rfl
  next =>
    split at hread
    next =>
      obtain ⟨⟨number, after⟩, hnumber, hread⟩ := bind_eq_ok_iff.mp hread
      obtain ⟨rfl, rfl⟩ := Prod.mk.inj (Except.ok.inj hread)
      obtain ⟨front, parts, htext, hspells, hparts⟩ := exists_front_of_readNumber hnumber
      refine ⟨front, .number parts, htext, .number depth hspells, ?_⟩
      rw [Source.document?, hparts]
      rfl
    next => contradiction

/-- Whatever is read as a document is spelled. -/
theorem recognizes_readTree (depth : Nat) : Recognizes depth (readTree depth) Source.document? := by
  induction depth using Nat.strong_induction_on with
  | h depth ih =>
      intro text document rest hread
      obtain ⟨before, htext, hbefore⟩ := exists_blanks text
      rw [readTree.eq_def] at hread
      split at hread
      next behind hskipped =>
        cases depth with
        | zero => contradiction
        | succ depth =>
            obtain ⟨⟨items, after⟩, hitems, hread⟩ := bind_eq_ok_iff.mp hread
            obtain ⟨rfl, rfl⟩ := Prod.mk.inj (Except.ok.inj hread)
            obtain ⟨blanks, elements, hblanks, rfl, hpadded, hspells, hfound⟩ :=
              exists_elements_of_readItems (ih depth (Nat.lt_succ_self depth)) hitems
            refine ⟨before, _, _, ?_, hbefore, .array hblanks hpadded hspells, ?_⟩
            · rw [htext, hskipped]
              simp [separated]
            · rw [Source.document?, Source.itemDocuments?_eq_mapM, hfound]
              rfl
      next behind hskipped =>
        cases depth with
        | zero => contradiction
        | succ depth =>
            obtain ⟨⟨members, after⟩, hmembers, hread⟩ := bind_eq_ok_iff.mp hread
            obtain ⟨rfl, rfl⟩ := Prod.mk.inj (Except.ok.inj hread)
            obtain ⟨blanks, members, hblanks, rfl, hkeyed, hspells, hfound⟩ :=
              exists_members_of_readMembers (ih depth (Nat.lt_succ_self depth)) hmembers
            refine ⟨before, _, _, ?_, hbefore, .object hblanks hkeyed hspells, ?_⟩
            · rw [htext, hskipped]
              simp [separated]
            · rw [Source.document?, Source.memberDocuments?_eq_mapM, hfound]
              rfl
      next =>
        obtain ⟨front, source, hfront, hspells, hdocument⟩ := exists_front_of_readAtom hread
        exact ⟨before, front, source, hfront ▸ htext, hbefore, hspells, hdocument⟩

/-- A reader that understands what is spelled and takes nothing else reads a text exactly if it is
spelled and stands for something. -/
theorem readDocument_eq_ok_iff
    {α : Type} {reader : Nat → Reader α} {read : Source → Option α}
    (hunderstands : Understands nestingLimit (reader nestingLimit) read)
    (hrecognizes : Recognizes nestingLimit (reader nestingLimit) read) {text : String} {found : α} :
    readDocument reader text = .ok found ↔
      ∃ source, SpellsDocument nestingLimit text source ∧ read source = some found := by
  constructor
  · intro hread
    obtain ⟨⟨first, rest⟩, hfirst, hread⟩ := bind_eq_ok_iff.mp hread
    simp only at hread
    split at hread
    next hend =>
      obtain rfl : first = found := Except.ok.inj hread
      obtain ⟨before, core, source, htext, hbefore, hspells, hsource⟩ := hrecognizes _ _ _ hfirst
      obtain ⟨blanks, hrest, hblanks⟩ := exists_blanks rest
      rw [List.isEmpty_iff.mp hend, List.append_nil] at hrest
      exact ⟨source, ⟨before, core, rest, htext, hbefore, hrest ▸ hblanks, hspells⟩, hsource⟩
    next => contradiction
  · rintro ⟨source, hspells, hsource⟩
    have hread := hunderstands.readDocument hspells
    rw [hsource] at hread
    exact eq_ok_of_toOption hread

/-- The texts that are read as documents of any shape are those of the grammar and no others. -/
theorem readDocument_readTree_eq_ok_iff {text : String} {document : Json} :
    readDocument readTree text = .ok document ↔
      ∃ source, SpellsDocument 127 text source ∧ source.document? = some document :=
  readDocument_eq_ok_iff (understands_readTree nestingLimit) (recognizes_readTree nestingLimit)

end ArgumentContract.Json

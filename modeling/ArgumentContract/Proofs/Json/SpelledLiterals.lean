import ArgumentContract.Proofs.Json.Grammar
import ArgumentContract.Proofs.Json.Printed
import ArgumentContract.Proofs.Value.NumeralGrammar

/-!
# Spelled literals are read

Every number and every string that the grammar allows is taken off a text as a whole, whatever its
spelling.  A number ends where the text goes on with a character that cannot belong to it.  A string
with a half that stands alone is a fault for a reader, and not for one that passes over it.
-/

namespace ArgumentContract.Json

open Numeral (StopsAt stopsAt_nil stopsAt_cons takeWhile_append_of_stopsAt
  dropWhile_append_of_stopsAt)

/-! ## Blanks -/

theorem exists_blanks (text : List Char) :
    ∃ blanks, text = blanks ++ skipBlanks text ∧ IsBlanks blanks :=
  ⟨text.takeWhile isBlank, List.takeWhile_append_dropWhile.symm,
    fun _ hmem => List.mem_takeWhile_imp hmem⟩

theorem skipBlanks_append {blanks : List Char} (hblanks : IsBlanks blanks) (text : List Char) :
    skipBlanks (blanks ++ text) = skipBlanks text :=
  List.dropWhile_append_of_pos hblanks

theorem skipBlanks_of_isBlanks {blanks : List Char} (hblanks : IsBlanks blanks) :
    skipBlanks blanks = [] := by
  have hskip := skipBlanks_append hblanks []
  rw [List.append_nil] at hskip
  exact hskip

theorem skipBlanks_append_cons
    {blanks : List Char} (hblanks : IsBlanks blanks) {c : Char} (hc : isBlank c = false)
    (text : List Char) :
    skipBlanks (blanks ++ c :: text) = c :: text := by
  rw [skipBlanks_append hblanks, skipBlanks_cons hc]

theorem continuesNumber_of_isBlank {c : Char} (hblank : isBlank c = true) :
    continuesNumber c = false := by
  simp only [isBlank, Bool.or_eq_true, beq_iff_eq] at hblank
  rcases hblank with ((rfl | rfl) | rfl) | rfl <;> rfl

theorem IsBlanks.endsNumber_append
    {blanks : List Char} (hblanks : IsBlanks blanks) {rest : List Char}
    (hrest : EndsNumber rest) :
    EndsNumber (blanks ++ rest) := by
  cases blanks with
  | nil => exact hrest
  | cons c blanks =>
      exact stopsAt_cons (continuesNumber_of_isBlank (hblanks c (List.mem_cons_self ..))) _

/-! ## Numbers -/

theorem IsDigits.readDigits_append
    {digits rest : List Char} (hdigits : IsDigits digits)
    (hrest : StopsAt Char.isDigit rest) :
    readDigits (digits ++ rest) = .ok (digits, rest) := by
  have hne : digits.isEmpty = false := List.isEmpty_eq_false_iff.mpr hdigits.1
  rw [readDigits, takeWhile_append_of_stopsAt hdigits.2 hrest,
    dropWhile_append_of_stopsAt hdigits.2 hrest]
  simp [hne]

theorem IsWhole.readWhole_append
    {whole rest : List Char} (hwhole : IsWhole whole) (hrest : StopsAt Char.isDigit rest) :
    readWhole (whole ++ rest) = .ok (whole, rest) := by
  rw [readWhole, hwhole.1.readDigits_append hrest]
  simp only [bind, Except.bind]
  split
  next more hdigits => exact absurd rfl (hwhole.2 _ _)
  next => rfl

theorem EndsNumber.stopsAt_isDigit {rest : List Char} (hends : EndsNumber rest) :
    StopsAt Char.isDigit rest := by
  intro c hc
  have hcontinues := hends c hc
  simp only [continuesNumber, Bool.or_eq_false_iff] at hcontinues
  exact hcontinues.1.1.1

theorem SpellsExponent.readExponent_append
    {text rest : List Char} {exponent : Option Int} (hspells : SpellsExponent text exponent)
    (hrest : EndsNumber rest) :
    readExponent (text ++ rest) = .ok (exponent, rest) := by
  cases hspells with
  | absent => exact readExponent_of_endsNumber hrest
  | @positive mark sign digits hmark hsign hdigits =>
      have hread := hdigits.readDigits_append hrest.stopsAt_isDigit
      obtain ⟨c, more, rfl⟩ := List.exists_cons_of_ne_nil hdigits.1
      have hdigit : c.isDigit = true := hdigits.2 c (List.mem_cons_self ..)
      have hsigned : readSign (sign ++ (c :: more ++ rest)) = (false, c :: more ++ rest) := by
        rcases hsign with rfl | rfl
        · have hplus : c ≠ '+' := by
            rintro rfl
            contradiction
          have hminus : c ≠ '-' := by
            rintro rfl
            contradiction
          simp [readSign, hplus, hminus]
        · rfl
      rw [List.cons_append, List.append_assoc, readExponent, if_pos hmark, hsigned]
      simp only [hread, bind, Except.bind]
      rfl
  | @negative mark digits hmark hdigits =>
      have hread := hdigits.readDigits_append hrest.stopsAt_isDigit
      have hsigned : readSign ('-' :: (digits ++ rest)) = (true, digits ++ rest) := rfl
      rw [List.cons_append, List.cons_append, readExponent, if_pos hmark, hsigned]
      simp only [hread, bind, Except.bind]
      rfl

theorem SpellsExponent.stopsAt_append
    {text rest : List Char} {exponent : Option Int} (hspells : SpellsExponent text exponent)
    (hrest : EndsNumber rest) {kind : Char → Bool}
    (hkind : ∀ c, kind c = true → c.isDigit = true ∨ c = '.') :
    StopsAt kind (text ++ rest) := by
  have hmarked : ∀ mark more, mark = 'e' ∨ mark = 'E' → StopsAt kind (mark :: more) := by
    intro mark more hmark
    apply stopsAt_cons
    rw [← Bool.not_eq_true]
    intro hmarkKind
    rcases hmark with rfl | rfl <;> rcases hkind _ hmarkKind with hdigit | hpoint <;> contradiction
  cases hspells with
  | absent =>
      intro c hc
      have hcontinues := hrest c hc
      rw [← Bool.not_eq_true] at hcontinues ⊢
      intro hkindc
      apply hcontinues
      rcases hkind c hkindc with hdigit | rfl
      · simp [continuesNumber, hdigit]
      · rfl
  | positive hmark hsign hdigits => exact hmarked _ _ hmark
  | negative hmark hdigits => exact hmarked _ _ hmark

theorem SpellsFraction.readFraction_append
    {text rest : List Char} {fraction : Option (List Char)}
    (hspells : SpellsFraction text fraction) (hrest : StopsAt Char.isDigit rest)
    (hpoint : StopsAt (· == '.') rest) :
    readFraction (text ++ rest) = .ok (fraction, rest) := by
  cases hspells with
  | absent =>
      rw [List.nil_append]
      unfold readFraction
      split
      next text => exact absurd (hpoint '.' rfl) (by decide)
      next => rfl
  | @digits digits hdigits =>
      rw [List.cons_append, readFraction, hdigits.readDigits_append hrest]
      rfl

theorem SpellsFraction.stopsAt_append
    {text rest : List Char} {fraction : Option (List Char)}
    (hspells : SpellsFraction text fraction) (hrest : StopsAt Char.isDigit rest) :
    StopsAt Char.isDigit (text ++ rest) := by
  cases hspells with
  | absent => exact hrest
  | digits hdigits => exact stopsAt_cons rfl _

theorem IsWhole.exists_cons {whole : List Char} (hwhole : IsWhole whole) :
    ∃ c more, whole = c :: more ∧ c.isDigit = true := by
  obtain ⟨c, more, rfl⟩ := List.exists_cons_of_ne_nil hwhole.1.1
  exact ⟨c, more, rfl, hwhole.1.2 c (List.mem_cons_self ..)⟩

theorem SpellsNumber.readNumberParts_append
    {text rest : List Char} {parts : NumberParts} (hspells : SpellsNumber text parts)
    (hrest : EndsNumber rest) :
    readNumberParts (text ++ rest) = .ok (parts, rest) := by
  obtain ⟨fraction, exponent, rfl, hwhole, hfraction, hexponent⟩ := hspells
  have hdigit := hexponent.stopsAt_append hrest (fun c hc => Or.inl hc)
  have hpoint : StopsAt (· == '.') (exponent ++ rest) :=
    hexponent.stopsAt_append hrest (fun c hc => Or.inr (eq_of_beq hc))
  have hreadWhole := hwhole.readWhole_append (hfraction.stopsAt_append hdigit)
  have hreadFraction := hfraction.readFraction_append hdigit hpoint
  have hreadExponent := hexponent.readExponent_append hrest
  obtain ⟨negative, whole, fractionDigits, exponentValue⟩ := parts
  cases negative with
  | true =>
      simp only [minusSign, if_true, List.append_assoc, List.cons_append, List.nil_append]
      rw [readNumberParts]
      simp only [hreadWhole, hreadFraction, hreadExponent, bind, Except.bind, pure, Except.pure]
  | false =>
      -- The first digit is no minus sign.
      obtain ⟨c, more, rfl, hdigitc⟩ := hwhole.exists_cons
      have hminus : c ≠ '-' := by
        rintro rfl
        contradiction
      simp only [minusSign, Bool.false_eq_true, if_false, List.append_assoc, List.cons_append,
        List.nil_append] at hreadWhole ⊢
      unfold readNumberParts
      simp [hreadWhole, hreadFraction, hreadExponent, hminus, bind, Except.bind, pure,
        Except.pure]

theorem SpellsNumber.exists_cons
    {text : List Char} {parts : NumberParts} (hspells : SpellsNumber text parts) :
    ∃ c more, text = c :: more ∧ startsNumber c = true := by
  obtain ⟨fraction, exponent, rfl, hwhole, -, -⟩ := hspells
  obtain ⟨c, more, hcons, hdigit⟩ := hwhole.exists_cons
  cases hnegative : parts.negative with
  | true => exact ⟨'-', _, rfl, rfl⟩
  | false =>
      refine ⟨c, more ++ (fraction ++ exponent), ?_, by simp [startsNumber, hdigit]⟩
      rw [hcons]
      rfl

theorem SpellsNumber.toOption_readNumber
    {text rest : List Char} {parts : NumberParts} (hspells : SpellsNumber text parts)
    (hrest : EndsNumber rest) :
    (readNumber (text ++ rest)).toOption = parts.number?.map (·, rest) := by
  rw [readNumber, hspells.readNumberParts_append hrest]
  cases hnumber : parts.number? <;> simp only [hnumber] <;> rfl

theorem SpellsNumber.skipNumber_append
    {text rest : List Char} {parts : NumberParts} (hspells : SpellsNumber text parts)
    (hrest : EndsNumber rest) :
    skipNumber (text ++ rest) = .ok rest := by
  rw [skipNumber, hspells.readNumberParts_append hrest]

/-! ## Strings -/

theorem isTrailing_of_isLeading {unit : Nat} (hleading : isLeading unit = true) :
    isTrailing unit = false := by
  simp only [isLeading, isTrailing, Bool.and_eq_true, decide_eq_true_eq] at hleading ⊢
  simp
  omega

theorem escapedChar?_ne_unitMark {mark c : Char} (hescaped : escapedChar? mark = some c) :
    mark ≠ 'u' := by
  rintro rfl
  contradiction

theorem readChars_escaped
    {mark c : Char} (hescaped : escapedChar? mark = some c) (text : List Char) :
    readChars ('\\' :: mark :: text) = prepend c (readChars text) := by
  have hunit := escapedChar?_ne_unitMark hescaped
  rw [readChars]
  · simp only [hescaped]
  all_goals simp [hunit]

theorem readChars_unit
    {a b c d : Char} {unit : Nat} (hunit : codeUnit? a b c d = some unit)
    (hleading : isLeading unit = false) (htrailing : isTrailing unit = false)
    (text : List Char) :
    readChars ('\\' :: 'u' :: a :: b :: c :: d :: text) =
      prepend (Char.ofNat unit) (readChars text) := by
  rw [readChars, hunit]
  simp [hleading, htrailing]

theorem readChars_pair
    {a b c d e f g h : Char} {leading trailing : Nat}
    (hleadingUnit : codeUnit? a b c d = some leading) (hleading : isLeading leading = true)
    (htrailingUnit : codeUnit? e f g h = some trailing) (htrailing : isTrailing trailing = true)
    (text : List Char) :
    readChars ('\\' :: 'u' :: a :: b :: c :: d :: '\\' :: 'u' :: e :: f :: g :: h :: text) =
      prepend (pairedChar leading trailing) (readChars text) := by
  rw [readChars, hleadingUnit]
  simp [isTrailing_of_isLeading hleading, hleading, htrailingUnit, htrailing]

theorem toOption_readChars_trailing
    {a b c d : Char} {unit : Nat} (hunit : codeUnit? a b c d = some unit)
    (htrailing : isTrailing unit = true) (text : List Char) :
    (readChars ('\\' :: 'u' :: a :: b :: c :: d :: text)).toOption = none := by
  rw [readChars, hunit]
  simp only [htrailing, if_true]
  rfl

/-- An escaped half that could stand behind a leading one. -/
def StartsTrailing (text : List Char) : Prop :=
  ∃ e f g h rest trailing, text = '\\' :: 'u' :: e :: f :: g :: h :: rest ∧
    codeUnit? e f g h = some trailing ∧ isTrailing trailing = true

theorem toOption_readChars_leading
    {a b c d : Char} {unit : Nat} (hunit : codeUnit? a b c d = some unit)
    (hleading : isLeading unit = true) {text : List Char} (halone : ¬ StartsTrailing text) :
    (readChars ('\\' :: 'u' :: a :: b :: c :: d :: text)).toOption = none := by
  rw [readChars.eq_def]
  simp only [hunit, isTrailing_of_isLeading hleading, hleading, if_true, Bool.false_eq_true,
    if_false]
  split
  next e f g h rest =>
    split
    next => rfl
    next trailing htrailingUnit =>
      split
      next htrailing =>
        exact absurd ⟨e, f, g, h, rest, trailing, rfl, htrailingUnit, htrailing⟩ halone
      next => rfl
  next => rfl

theorem toOption_prepend (c : Char) (found : Except Fault (List Char × List Char)) :
    (prepend c found).toOption = found.toOption.map fun (text, rest) => (c :: text, rest) := by
  cases found <;> rfl

/-- Only a trailing half starts with the escape of one. -/
theorem SpellsLetters.exists_half_of_startsTrailing
    {text rest : List Char} {letters : List Letter} (hspells : SpellsLetters text letters)
    (hstarts : StartsTrailing (text ++ '"' :: rest)) :
    ∃ trailing more, letters = .half trailing :: more ∧ isTrailing trailing = true := by
  obtain ⟨e, f, g, h, more, trailing, htext, htrailingUnit, htrailing⟩ := hstarts
  cases hspells with
  | nil => simp at htext
  | @cons front back letter letters hletter hletters halone =>
      cases hletter with
      | plain hquote hbackslash hcontrol =>
          simp only [List.cons_append, List.cons.injEq] at htext
          exact absurd htext.1 hbackslash
      | escaped hescaped =>
          simp only [List.cons_append, List.cons.injEq] at htext
          exact absurd htext.2.1 (escapedChar?_ne_unitMark hescaped)
      | unit hunit hleading hnotTrailing =>
          simp only [List.cons_append, List.cons.injEq, true_and] at htext
          obtain ⟨rfl, rfl, rfl, rfl, -⟩ := htext
          obtain rfl := Option.some.inj (hunit.symm.trans htrailingUnit)
          rw [htrailing] at hnotTrailing
          contradiction
      | pair hleadingUnit hleading _ _ =>
          simp only [List.cons_append, List.cons.injEq, true_and] at htext
          obtain ⟨rfl, rfl, rfl, rfl, -⟩ := htext
          obtain rfl := Option.some.inj (hleadingUnit.symm.trans htrailingUnit)
          rw [isTrailing_of_isLeading hleading] at htrailing
          contradiction
      | half hunit hhalf =>
          simp only [List.cons_append, List.cons.injEq, true_and] at htext
          obtain ⟨rfl, rfl, rfl, rfl, -⟩ := htext
          obtain rfl := Option.some.inj (hunit.symm.trans htrailingUnit)
          exact ⟨_, letters, rfl, htrailing⟩

theorem SpellsLetter.readChars_append
    {front : List Char} {letter : Letter} (hspells : SpellsLetter front letter) {c : Char}
    (hchar : letter = .char c) (text : List Char) :
    readChars (front ++ text) = prepend c (readChars text) := by
  cases hspells with
  | plain hquote hbackslash hcontrol =>
      obtain rfl := Letter.char.inj hchar
      exact readChars_cons_of_plain hquote hbackslash (Nat.not_lt.mpr hcontrol) text
  | escaped hescaped =>
      obtain rfl := Letter.char.inj hchar
      exact readChars_escaped hescaped text
  | unit hunit hleading htrailing =>
      rw [← Letter.char.inj hchar]
      exact readChars_unit hunit hleading htrailing text
  | pair hleadingUnit hleading htrailingUnit htrailing =>
      rw [← Letter.char.inj hchar]
      exact readChars_pair hleadingUnit hleading htrailingUnit htrailing text
  | half _ _ => contradiction

theorem SpellsLetters.toOption_readChars
    {text : List Char} {letters : List Letter} (hspells : SpellsLetters text letters)
    (rest : List Char) :
    (readChars (text ++ '"' :: rest)).toOption = (letters.mapM Letter.char?).map (·, rest) := by
  induction hspells with
  | nil => rfl
  | @cons front back letter letters hletter hletters halone ih =>
      rw [List.append_assoc]
      cases letter with
      | char c =>
          rw [hletter.readChars_append rfl, toOption_prepend, ih]
          simp only [List.mapM_cons, Letter.char?]
          cases letters.mapM Letter.char? <;> rfl
      | half unit =>
          have hnone : (List.mapM Letter.char? (.half unit :: letters)) = none := by
            simp [List.mapM_cons, Letter.char?]
          rw [hnone]
          cases hletter with
          | half hunit hhalf =>
              by_cases htrailing : isTrailing unit = true
              · exact toOption_readChars_trailing hunit htrailing _
              · have hleading := hhalf.resolve_right htrailing
                apply toOption_readChars_leading hunit hleading
                intro hstarts
                obtain ⟨trailing, more, rfl, htrailingUnit⟩ :=
                  hletters.exists_half_of_startsTrailing hstarts
                exact halone ⟨hleading, htrailingUnit⟩

theorem SpellsLetters.toOption_readString
    {text : List Char} {letters : List Letter} (hspells : SpellsLetters text letters)
    (rest : List Char) :
    (readString (text ++ '"' :: rest)).toOption = (textOf? letters).map (·, rest) := by
  have hchars := hspells.toOption_readChars rest
  rw [readString, textOf?]
  cases hread : readChars (text ++ '"' :: rest) with
  | ok found =>
      rw [hread] at hchars
      cases hletters : letters.mapM Letter.char? <;> rw [hletters] at hchars
      · contradiction
      · obtain rfl := Option.some.inj hchars
        rfl
  | error fault =>
      rw [hread] at hchars
      cases hletters : letters.mapM Letter.char? <;> rw [hletters] at hchars
      · rfl
      · contradiction

/-! ## Strings that are passed over -/

theorem skipString_of_plain
    {c : Char} (hquote : c ≠ '"') (hbackslash : c ≠ '\\') (hcontrol : ¬ c.toNat < 0x20)
    (text : List Char) :
    skipString (c :: text) = skipString text := by
  rw [skipString, if_neg hcontrol]
  all_goals simp [hquote, hbackslash]

theorem skipString_escaped
    {mark c : Char} (hescaped : escapedChar? mark = some c) (text : List Char) :
    skipString ('\\' :: mark :: text) = skipString text := by
  have hunit := escapedChar?_ne_unitMark hescaped
  rw [skipString]
  · simp only [hescaped]
  all_goals simp [hunit]

theorem skipString_unit
    {a b c d : Char} {unit : Nat} (hunit : codeUnit? a b c d = some unit) (text : List Char) :
    skipString ('\\' :: 'u' :: a :: b :: c :: d :: text) = skipString text := by
  rw [skipString, hunit]

theorem SpellsLetter.skipString_append
    {front : List Char} {letter : Letter} (hspells : SpellsLetter front letter)
    (text : List Char) :
    skipString (front ++ text) = skipString text := by
  cases hspells with
  | plain hquote hbackslash hcontrol =>
      exact skipString_of_plain hquote hbackslash (Nat.not_lt.mpr hcontrol) text
  | escaped hescaped => exact skipString_escaped hescaped text
  | unit hunit _ _ => exact skipString_unit hunit text
  | pair hleadingUnit _ htrailingUnit _ =>
      exact (skipString_unit hleadingUnit _).trans (skipString_unit htrailingUnit text)
  | half hunit _ => exact skipString_unit hunit text

theorem SpellsLetters.skipString_append
    {text : List Char} {letters : List Letter} (hspells : SpellsLetters text letters)
    (rest : List Char) :
    skipString (text ++ '"' :: rest) = .ok rest := by
  induction hspells with
  | nil => rfl
  | cons hletter hletters halone ih => rw [List.append_assoc, hletter.skipString_append, ih]

end ArgumentContract.Json

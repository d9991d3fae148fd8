import ArgumentContract.Value.Numeral
import Mathlib.Data.List.TakeWhile

/-!
# The grammar of numeric text

A numeral is put together from four parts: blanks, a sign, a mantissa and an exponent.  The test
takes them off a text one after the other, each as long as possible.  That is no loss, because no
part of a numeral can begin where the part in front of it could go on.
-/

namespace ArgumentContract.Numeral

/-- A run of decimal digits, which may be empty. -/
def IsDigits (text : List Char) : Prop := ∀ c ∈ text, '0' ≤ c ∧ c ≤ '9'

inductive IsSignPart : List Char → Prop
  | none : IsSignPart []
  | plus : IsSignPart ['+']
  | minus : IsSignPart ['-']

inductive IsMantissa : List Char → Prop
  | whole {digits : List Char} (hdigits : IsDigits digits) (hne : digits ≠ []) :
      IsMantissa digits
  | pointed {whole fraction : List Char} (hwhole : IsDigits whole) (hne : whole ≠ [])
      (hfraction : IsDigits fraction) : IsMantissa (whole ++ '.' :: fraction)
  | fraction {digits : List Char} (hdigits : IsDigits digits) (hne : digits ≠ []) :
      IsMantissa ('.' :: digits)

inductive IsExponentPart : List Char → Prop
  | none : IsExponentPart []
  | marked {mark : Char} {sign digits : List Char} (hmark : mark = 'e' ∨ mark = 'E')
      (hsign : IsSignPart sign) (hdigits : IsDigits digits) (hne : digits ≠ []) :
      IsExponentPart (mark :: (sign ++ digits))

/-- A decimal number with blanks in front. -/
def IsNumeral (text : List Char) : Prop :=
  ∃ blanks sign mantissa exponent, text = blanks ++ (sign ++ (mantissa ++ exponent)) ∧
    (∀ c ∈ blanks, c ∈ [' ', '\t', '\n', '\r', '\x0b', '\x0c']) ∧
    IsSignPart sign ∧ IsMantissa mantissa ∧ IsExponentPart exponent

/-! ## Single characters -/

theorem isDigit_iff {c : Char} : c.isDigit = true ↔ '0' ≤ c ∧ c ≤ '9' := by
  simp [Char.isDigit, Char.le_def]

theorem isBlank_iff {c : Char} :
    isBlank c = true ↔ c ∈ [' ', '\t', '\n', '\r', '\x0b', '\x0c'] := by
  simp [isBlank, or_assoc]

theorem isDigits_iff {text : List Char} :
    IsDigits text ↔ ∀ c ∈ text, c.isDigit = true := by
  simp only [IsDigits, isDigit_iff]

theorem isDigits_takeWhile (text : List Char) : IsDigits (text.takeWhile Char.isDigit) :=
  isDigits_iff.mpr fun _ hmem => List.mem_takeWhile_imp hmem

theorem isSign_of_isDigit {c : Char} (hdigit : c.isDigit = true) : isSign c = false := by
  rw [isSign, Bool.or_eq_false_iff, beq_eq_false_iff_ne, beq_eq_false_iff_ne]
  constructor <;> rintro rfl <;> contradiction

theorem isBlank_of_isDigit {c : Char} (hdigit : c.isDigit = true) : isBlank c = false := by
  rw [← Bool.not_eq_true, isBlank_iff]
  intro hmem
  simp only [List.mem_cons, List.not_mem_nil, or_false] at hmem
  rcases hmem with rfl | rfl | rfl | rfl | rfl | rfl <;> contradiction

/-! ## Runs of characters -/

/-- Whether a text goes on with no character of the given kind. -/
def StopsAt (kind : Char → Bool) (rest : List Char) : Prop :=
  ∀ c ∈ rest.head?, kind c = false

theorem stopsAt_nil (kind : Char → Bool) : StopsAt kind [] := by
  simp [StopsAt]

theorem stopsAt_cons {kind : Char → Bool} {c : Char} (hc : kind c = false) (rest : List Char) :
    StopsAt kind (c :: rest) := by
  intro d hd
  obtain rfl : c = d := Option.some.inj hd
  exact hc

theorem takeWhile_append_of_stopsAt
    {kind : Char → Bool} {run rest : List Char} (hrun : ∀ c ∈ run, kind c = true)
    (hrest : StopsAt kind rest) :
    (run ++ rest).takeWhile kind = run := by
  rw [List.takeWhile_append_of_pos hrun]
  cases rest with
  | nil => simp
  | cons c rest => simp [hrest c rfl]

theorem dropWhile_append_of_stopsAt
    {kind : Char → Bool} {run rest : List Char} (hrun : ∀ c ∈ run, kind c = true)
    (hrest : StopsAt kind rest) :
    (run ++ rest).dropWhile kind = rest := by
  rw [List.dropWhile_append_of_pos hrun]
  cases rest with
  | nil => rfl
  | cons c rest => simp [hrest c rfl]

theorem IsDigits.takeWhile_append
    {digits rest : List Char} (hdigits : IsDigits digits)
    (hrest : StopsAt Char.isDigit rest) :
    (digits ++ rest).takeWhile Char.isDigit = digits :=
  takeWhile_append_of_stopsAt (isDigits_iff.mp hdigits) hrest

theorem IsDigits.dropWhile_append
    {digits rest : List Char} (hdigits : IsDigits digits)
    (hrest : StopsAt Char.isDigit rest) :
    (digits ++ rest).dropWhile Char.isDigit = rest :=
  dropWhile_append_of_stopsAt (isDigits_iff.mp hdigits) hrest

theorem IsDigits.stopsAt_append
    {digits : List Char} (hdigits : IsDigits digits) (hne : digits ≠ [])
    {kind : Char → Bool} (hkind : ∀ c, c.isDigit = true → kind c = false) (rest : List Char) :
    StopsAt kind (digits ++ rest) := by
  cases digits with
  | nil => contradiction
  | cons c digits =>
      have hdigit := isDigits_iff.mp hdigits c (List.mem_cons_self ..)
      exact stopsAt_cons (hkind c hdigit) (digits ++ rest)

/-! ## The parts of a numeral -/

theorem isSignPart_of_isSign {c : Char} (hsign : isSign c = true) : IsSignPart [c] := by
  simp only [isSign, Bool.or_eq_true, beq_iff_eq] at hsign
  rcases hsign with rfl | rfl
  · exact .plus
  · exact .minus

theorem exists_sign_append_dropSign (text : List Char) :
    ∃ sign, IsSignPart sign ∧ text = sign ++ dropSign text := by
  cases text with
  | nil => exact ⟨[], .none, rfl⟩
  | cons c rest =>
      by_cases hsign : isSign c = true
      · exact ⟨[c], isSignPart_of_isSign hsign, by simp [dropSign, hsign]⟩
      · exact ⟨[], .none, by simp [dropSign, hsign]⟩

theorem IsSignPart.dropSign_append
    {sign rest : List Char} (hsign : IsSignPart sign)
    (hrest : StopsAt isSign rest) :
    dropSign (sign ++ rest) = rest := by
  cases hsign with
  | plus => rfl
  | minus => rfl
  | none =>
      cases rest with
      | nil => rfl
      | cons c rest => simp [dropSign, hrest c rfl]

theorem afterMantissa_of_point
    {text rest : List Char} (hpoint : text.dropWhile Char.isDigit = '.' :: rest) :
    afterMantissa text =
      if text.takeWhile Char.isDigit = [] ∧ rest.takeWhile Char.isDigit = [] then none
      else some (rest.dropWhile Char.isDigit) := by
  rw [afterMantissa, hpoint]
  simp

theorem afterMantissa_of_no_point
    {text : List Char} (hnot : ∀ rest, text.dropWhile Char.isDigit ≠ '.' :: rest) :
    afterMantissa text =
      if text.takeWhile Char.isDigit = [] then none
      else some (text.dropWhile Char.isDigit) := by
  unfold afterMantissa
  split
  next rest hpoint => exact absurd hpoint (hnot rest)
  next => simp

theorem exists_mantissa_of_afterMantissa
    {text rest : List Char} (hafter : afterMantissa text = some rest) :
    ∃ mantissa, IsMantissa mantissa ∧ text = mantissa ++ rest := by
  have hwhole := isDigits_takeWhile text
  have htext : text.takeWhile Char.isDigit ++ text.dropWhile Char.isDigit = text :=
    List.takeWhile_append_dropWhile
  by_cases hpoint : ∃ behind, text.dropWhile Char.isDigit = '.' :: behind
  · obtain ⟨behind, hpoint⟩ := hpoint
    have hfraction := isDigits_takeWhile behind
    have hbehind : behind.takeWhile Char.isDigit ++ behind.dropWhile Char.isDigit = behind :=
      List.takeWhile_append_dropWhile
    rw [afterMantissa_of_point hpoint, Option.ite_none_left_eq_some] at hafter
    obtain ⟨hdigits, hrest⟩ := hafter
    obtain rfl := Option.some.inj hrest
    rw [hpoint] at htext
    by_cases hempty : text.takeWhile Char.isDigit = []
    · refine ⟨_, .fraction hfraction fun h => hdigits ⟨hempty, h⟩, ?_⟩
      rw [List.cons_append, hbehind, ← htext, hempty]
      rfl
    · refine ⟨_, .pointed hwhole hempty hfraction, ?_⟩
      rw [List.append_assoc, List.cons_append, hbehind, htext]
  · rw [afterMantissa_of_no_point (not_exists.mp hpoint), Option.ite_none_left_eq_some] at hafter
    obtain ⟨hne, hrest⟩ := hafter
    obtain rfl := Option.some.inj hrest
    exact ⟨_, .whole hwhole hne, htext.symm⟩

theorem IsMantissa.afterMantissa_append
    {mantissa rest : List Char} (hmantissa : IsMantissa mantissa)
    (hrest : StopsAt Char.isDigit rest) (hpoint : StopsAt (· == '.') rest) :
    afterMantissa (mantissa ++ rest) = some rest := by
  have hafterPoint : ∀ more, StopsAt Char.isDigit ('.' :: more) := stopsAt_cons rfl
  cases hmantissa with
  | whole hdigits hne =>
      have hdrop := hdigits.dropWhile_append hrest
      have hnot : ∀ more, (mantissa ++ rest).dropWhile Char.isDigit ≠ '.' :: more := by
        intro more hmore
        rw [hdrop] at hmore
        have hhead := hpoint '.' (by simp [hmore])
        contradiction
      rw [afterMantissa_of_no_point hnot, hdigits.takeWhile_append hrest, hdrop, if_neg hne]
  | @pointed whole fraction hwhole hne hfraction =>
      rw [List.append_assoc, List.cons_append,
        afterMantissa_of_point (hwhole.dropWhile_append (hafterPoint _)),
        hwhole.takeWhile_append (hafterPoint _), hfraction.dropWhile_append hrest,
        if_neg (fun h => hne h.1)]
  | @fraction digits hdigits hne =>
      rw [List.cons_append, afterMantissa_of_point rfl, hdigits.takeWhile_append hrest,
        hdigits.dropWhile_append hrest, if_neg (fun h => hne h.2)]

theorem IsMantissa.stopsAt_append
    {mantissa : List Char} (hmantissa : IsMantissa mantissa) {kind : Char → Bool}
    (hkind : ∀ c, c.isDigit = true → kind c = false) (hpoint : kind '.' = false)
    (rest : List Char) :
    StopsAt kind (mantissa ++ rest) := by
  cases hmantissa with
  | whole hdigits hne => exact hdigits.stopsAt_append hne hkind rest
  | pointed hwhole hne hfraction =>
      rw [List.append_assoc]
      exact hwhole.stopsAt_append hne hkind _
  | fraction hdigits hne => exact stopsAt_cons hpoint _

theorem isExponentOrNothing_iff {text : List Char} :
    isExponentOrNothing text = true ↔ IsExponentPart text := by
  constructor
  · intro h
    cases text with
    | nil => exact .none
    | cons mark rest =>
        simp only [isExponentOrNothing, Bool.and_eq_true, Bool.or_eq_true, beq_iff_eq,
          Bool.not_eq_true', List.isEmpty_eq_false_iff, List.all_eq_true] at h
        obtain ⟨⟨hmark, hne⟩, hdigits⟩ := h
        obtain ⟨sign, hsign, hrest⟩ := exists_sign_append_dropSign rest
        rw [hrest]
        exact .marked hmark hsign (isDigits_iff.mpr hdigits) hne
  · intro h
    cases h with
    | none => rfl
    | @marked mark sign digits hmark hsign hdigits hne =>
        have hdrop : dropSign (sign ++ digits) = digits := by
          apply hsign.dropSign_append
          rw [← List.append_nil digits]
          exact hdigits.stopsAt_append hne (fun _ => isSign_of_isDigit) []
        simp only [isExponentOrNothing, hdrop, Bool.and_eq_true, Bool.or_eq_true, beq_iff_eq,
          Bool.not_eq_true', List.isEmpty_eq_false_iff, List.all_eq_true]
        exact ⟨⟨hmark, hne⟩, isDigits_iff.mp hdigits⟩

theorem IsExponentPart.stopsAt
    {exponent : List Char} (hexponent : IsExponentPart exponent) {kind : Char → Bool}
    (hlower : kind 'e' = false) (hupper : kind 'E' = false) :
    StopsAt kind exponent := by
  cases hexponent with
  | none => exact stopsAt_nil kind
  | marked hmark hsign hdigits hne =>
      rcases hmark with rfl | rfl
      · exact stopsAt_cons hlower _
      · exact stopsAt_cons hupper _

/-! ## Whole numerals -/

/-- Numeric text is a numeral, and nothing else. -/
theorem isNumeric_iff_isNumeral (text : String) :
    isNumeric text = true ↔ IsNumeral text.toList := by
  constructor
  · intro hnumeric
    unfold isNumeric at hnumeric
    split at hnumeric
    next rest hafter =>
      obtain ⟨mantissa, hmantissa, hmantissaText⟩ := exists_mantissa_of_afterMantissa hafter
      obtain ⟨sign, hsign, hsignText⟩ :=
        exists_sign_append_dropSign (text.toList.dropWhile isBlank)
      refine ⟨text.toList.takeWhile isBlank, sign, mantissa, rest, ?_, ?_, hsign, hmantissa,
        isExponentOrNothing_iff.mp hnumeric⟩
      · rw [← hmantissaText, ← hsignText, List.takeWhile_append_dropWhile]
      · intro c hmem
        exact isBlank_iff.mp (List.mem_takeWhile_imp hmem)
    next => contradiction
  · intro hnumeral
    obtain ⟨blanks, sign, mantissa, exponent, htext, hblanks, hsign, hmantissa, hexponent⟩ :=
      hnumeral
    have hbehindBlanks : StopsAt isBlank (sign ++ (mantissa ++ exponent)) := by
      cases hsign with
      | none => exact hmantissa.stopsAt_append (fun _ => isBlank_of_isDigit) rfl exponent
      | plus => exact stopsAt_cons rfl _
      | minus => exact stopsAt_cons rfl _
    have hbehindSign : StopsAt isSign (mantissa ++ exponent) :=
      hmantissa.stopsAt_append (fun _ => isSign_of_isDigit) rfl exponent
    have hafter : afterMantissa (mantissa ++ exponent) = some exponent :=
      hmantissa.afterMantissa_append (hexponent.stopsAt rfl rfl) (hexponent.stopsAt rfl rfl)
    rw [isNumeric, htext,
      dropWhile_append_of_stopsAt (fun c hmem => isBlank_iff.mpr (hblanks c hmem)) hbehindBlanks,
      hsign.dropSign_append hbehindSign, hafter]
    exact isExponentOrNothing_iff.mpr hexponent

end ArgumentContract.Numeral

import ArgumentContract.Proofs.Value.NumeralGrammar
import ArgumentContract.Text.Width
import ArgumentContract.Value.NumeralScan
import Mathlib.Tactic

/-!
# The scan by index makes the numeral test

Every index that a scan reaches is the width of a part of the text in front of it, so that the byte
at the index is the first byte of the character that comes next there.  No byte of a longer
character is taken for a digit, a sign, a point or the mark of an exponent.  By induction on the
digits that are left, the index behind a run of digits is never in front of its start, and every
step of the scan finds what the test finds.
-/

namespace ArgumentContract.Numeral

open Text

/-! ## Bytes of characters -/

/-- The bytes of a text. -/
def bytesOf (text : List Char) : ByteArray := (String.ofList text).toUTF8

/-- The first byte of a character. -/
def leadByte (c : Char) : UInt8 := (String.utf8EncodeChar c).head String.utf8EncodeChar_ne_nil

theorem head?_utf8EncodeChar (c : Char) :
    (String.utf8EncodeChar c).head? = some (leadByte c) :=
  List.head?_eq_some_head String.utf8EncodeChar_ne_nil

theorem toNat_leadByte_of_ascii {c : Char} (hascii : c.toNat < 0x80) :
    (leadByte c).toNat = c.toNat := by
  have hvalue : c.val.toNat = c.toNat := rfl
  have hlead := head?_utf8EncodeChar c
  rw [String.utf8EncodeChar, if_pos (by omega)] at hlead
  rw [← Option.some.inj hlead, UInt8.toNat_ofNat']
  omega

theorem le_toNat_leadByte_of_not_ascii {c : Char} (hlong : ¬ c.toNat < 0x80) :
    0x80 ≤ (leadByte c).toNat := by
  have hvalue : c.val.toNat = c.toNat := rfl
  have hlead := head?_utf8EncodeChar c
  rw [String.utf8EncodeChar, if_neg (by omega)] at hlead
  split at hlead
  · rw [← Option.some.inj hlead, UInt8.toNat_ofNat']
    omega
  · split at hlead
    all_goals
      rw [← Option.some.inj hlead, UInt8.toNat_ofNat']
      omega

theorem leadByte_eq_iff {c d : Char} (hd : d.toNat < 0x80) :
    leadByte c = d.toUInt8 ↔ c = d := by
  have hbyte : d.toUInt8.toNat = d.toNat := by
    have hvalue : d.val.toNat = d.toNat := rfl
    rw [Char.toUInt8, UInt32.toNat_toUInt8, hvalue]
    omega
  rw [← UInt8.toNat_inj, hbyte]
  constructor
  · intro hlead
    by_cases hascii : c.toNat < 0x80
    · rw [toNat_leadByte_of_ascii hascii] at hlead
      exact Char.toNat_inj.mp hlead
    · have hle := le_toNat_leadByte_of_not_ascii hascii
      omega
  · rintro rfl
    exact toNat_leadByte_of_ascii hd

theorem isDigitByte_leadByte (c : Char) : isDigitByte (leadByte c) = c.isDigit := by
  rw [Bool.eq_iff_iff, Char.isDigit_iff_toNat]
  simp only [isDigitByte, Bool.and_eq_true, decide_eq_true_eq, UInt8.le_iff_toNat_le]
  by_cases hascii : c.toNat < 0x80
  · rw [toNat_leadByte_of_ascii hascii]
    rfl
  · have hle := le_toNat_leadByte_of_not_ascii hascii
    have hzero : '0'.toUInt8.toNat = 48 := rfl
    have hnine : '9'.toUInt8.toNat = 57 := rfl
    have hnineChar : '9'.toNat = 57 := rfl
    omega

theorem isSignByte_leadByte (c : Char) : isSignByte (leadByte c) = isSign c := by
  rw [Bool.eq_iff_iff]
  simp only [isSignByte, isSign, Bool.or_eq_true, beq_iff_eq]
  rw [leadByte_eq_iff (by decide), leadByte_eq_iff (by decide)]

theorem isExponentByte_leadByte (c : Char) :
    isExponentByte (leadByte c) = (c == 'e' || c == 'E') := by
  rw [Bool.eq_iff_iff]
  simp only [isExponentByte, Bool.or_eq_true, beq_iff_eq]
  rw [leadByte_eq_iff (by decide), leadByte_eq_iff (by decide)]

/-! ## Bytes at an index -/

theorem bytesOf_eq (text : List Char) :
    bytesOf text = (text.flatMap String.utf8EncodeChar).toByteArray := by
  rw [bytesOf, String.toUTF8_eq_toByteArray, String.toByteArray_ofList]
  rfl

theorem length_flatMap_utf8EncodeChar (text : List Char) :
    (text.flatMap String.utf8EncodeChar).length = width text := by
  induction text with
  | nil => rfl
  | cons c rest ih => simp [width, ih]

theorem size_bytesOf (text : List Char) : (bytesOf text).size = width text := by
  rw [bytesOf_eq, List.size_toByteArray, length_flatMap_utf8EncodeChar]

theorem getElem?_toByteArray (bytes : List UInt8) (index : Nat) :
    bytes.toByteArray[index]? = bytes[index]? := by
  by_cases hindex : index < bytes.length
  · rw [getElem?_pos _ _ (by simpa using hindex), List.getElem?_eq_getElem hindex,
      List.getElem_toByteArray]
  · rw [getElem?_neg _ _ (by simpa using hindex), List.getElem?_eq_none (by omega)]

/-- The byte behind a part of a text is the first byte of the next character. -/
theorem getElem?_bytesOf_width (before rest : List Char) :
    (bytesOf (before ++ rest))[width before]? = rest.head?.map leadByte := by
  rw [bytesOf_eq, getElem?_toByteArray, List.flatMap_append, ← length_flatMap_utf8EncodeChar,
    List.getElem?_append_right (Nat.le_refl _), Nat.sub_self, ← List.head?_eq_getElem?]
  cases rest with
  | nil => rfl
  | cons c rest =>
      rw [List.flatMap_cons, List.head?_append_of_ne_nil _ String.utf8EncodeChar_ne_nil]
      exact head?_utf8EncodeChar c

theorem utf8Size_of_ascii {c : Char} (hascii : c.toNat < 0x80) : c.utf8Size = 1 := by
  rw [Char.utf8Size_eq_one_iff, UInt32.le_iff_toNat_le]
  exact Nat.le_of_lt_succ hascii

theorem utf8Size_of_isDigit {c : Char} (hdigit : c.isDigit = true) : c.utf8Size = 1 := by
  apply utf8Size_of_ascii
  have hnine : '9'.toNat = 57 := rfl
  have hrange := Char.isDigit_iff_toNat.mp hdigit
  omega

/-! ## Steps of the scan -/

theorem fetch_bytesOf_width (before : List Char) (c : Char) (rest : List Char) :
    fetch (bytesOf (before ++ c :: rest)) (width before) = .ok (leadByte c) := by
  rw [fetch, getElem?_bytesOf_width]
  rfl

/-- A scan of digits fetches no byte from behind the end and stops behind the run of digits at its
start. -/
theorem digitsFrom_width (before rest : List Char) :
    digitsFrom (bytesOf (before ++ rest)) (width before) =
      .ok (width (before ++ rest.takeWhile Char.isDigit)) := by
  induction rest generalizing before with
  | nil =>
      rw [List.takeWhile_nil, List.append_nil, digitsFrom, size_bytesOf,
        if_neg (Nat.lt_irrefl _)]
      rfl
  | cons c rest ih =>
      have hinside : width before < width (before ++ c :: rest) := by
        have hpos := c.utf8Size_pos
        rw [width_append, width]
        omega
      rw [digitsFrom, size_bytesOf, if_pos hinside]
      simp only [fetch_bytesOf_width, bind, Except.bind, isDigitByte_leadByte]
      by_cases hdigit : c.isDigit = true
      · have hnext : width before + 1 = width (before ++ [c]) := by
          rw [width_append, width, utf8Size_of_isDigit hdigit]
          rfl
        rw [if_pos hdigit, hnext, List.append_cons, ih, List.takeWhile_cons_of_pos hdigit,
          List.append_assoc]
        rfl
      · rw [if_neg hdigit, List.takeWhile_cons_of_neg hdigit, List.append_nil]
        rfl

theorem runLength_width (before run : List Char) :
    runLength (width before) (width (before ++ run)) = .ok (width run) := by
  rw [runLength, width_append, if_pos (Nat.le_add_right _ _), Nat.add_sub_cancel_left]

theorem exists_sign_afterSign (before text : List Char) :
    ∃ sign, text = sign ++ dropSign text ∧
      afterSign (bytesOf (before ++ text)) (width before) = width (before ++ sign) := by
  cases text with
  | nil =>
      refine ⟨[], rfl, ?_⟩
      rw [afterSign, getElem?_bytesOf_width]
      simp
  | cons c rest =>
      by_cases hsign : isSign c = true
      · have hascii : c.toNat < 0x80 := by
          simp only [isSign, Bool.or_eq_true, beq_iff_eq] at hsign
          rcases hsign with rfl | rfl <;> decide
        refine ⟨[c], by simp [dropSign, hsign], ?_⟩
        rw [afterSign, getElem?_bytesOf_width, width_append, width, utf8Size_of_ascii hascii]
        simp [isSignByte_leadByte, hsign, width]
      · refine ⟨[], by simp [dropSign, hsign], ?_⟩
        rw [afterSign, getElem?_bytesOf_width]
        simp [isSignByte_leadByte, hsign]

/-! ## The mantissa -/

theorem scanMantissa_of_point
    (before : List Char) {text behind : List Char}
    (hpoint : text.dropWhile Char.isDigit = '.' :: behind) :
    scanMantissa (bytesOf (before ++ text)) (width before) =
      .ok (width (text.takeWhile Char.isDigit) + width (behind.takeWhile Char.isDigit),
        width (before ++ text.takeWhile Char.isDigit ++ ['.'] ++
          behind.takeWhile Char.isDigit)) := by
  have hwhole := digitsFrom_width before text
  have htext : before ++ text = before ++ text.takeWhile Char.isDigit ++ '.' :: behind := by
    rw [List.append_assoc, ← hpoint, List.takeWhile_append_dropWhile]
  have hbyte := getElem?_bytesOf_width (before ++ text.takeWhile Char.isDigit) ('.' :: behind)
  have hfraction := digitsFrom_width (before ++ text.takeWhile Char.isDigit ++ ['.']) behind
  have hnext : width (before ++ text.takeWhile Char.isDigit) + 1 =
      width (before ++ text.takeWhile Char.isDigit ++ ['.']) := by
    rw [width_append _ ['.']]
    rfl
  rw [← List.append_cons, ← htext] at hfraction
  rw [← htext] at hbyte
  simp only [scanMantissa, hwhole, runLength_width, hbyte, hnext, hfraction, bind, Except.bind,
    List.head?_cons, Option.map_some]
  rfl

theorem scanMantissa_of_no_point
    (before : List Char) {text : List Char}
    (hnot : ∀ rest, text.dropWhile Char.isDigit ≠ '.' :: rest) :
    scanMantissa (bytesOf (before ++ text)) (width before) =
      .ok (width (text.takeWhile Char.isDigit),
        width (before ++ text.takeWhile Char.isDigit)) := by
  have hwhole := digitsFrom_width before text
  have htext : before ++ text =
      before ++ text.takeWhile Char.isDigit ++ text.dropWhile Char.isDigit := by
    rw [List.append_assoc, List.takeWhile_append_dropWhile]
  have hbyte := getElem?_bytesOf_width (before ++ text.takeWhile Char.isDigit)
    (text.dropWhile Char.isDigit)
  rw [← htext] at hbyte
  have hother : (text.dropWhile Char.isDigit).head?.map leadByte ≠ some '.'.toUInt8 := by
    intro hpoint
    cases hrest : text.dropWhile Char.isDigit with
    | nil => simp [hrest] at hpoint
    | cons c rest =>
        rw [hrest, List.head?_cons, Option.map_some, Option.some.injEq,
          leadByte_eq_iff (by decide)] at hpoint
        exact hnot rest (hpoint ▸ hrest)
  simp only [scanMantissa, hwhole, runLength_width, hbyte, if_neg hother, bind, Except.bind]
  rfl

/-- A scan of a mantissa counts digits and ends where the mantissa ends. -/
theorem scanMantissa_of_afterMantissa_eq_some
    (before : List Char) {text rest : List Char} (hafter : afterMantissa text = some rest) :
    ∃ mantissa digits, text = mantissa ++ rest ∧ 0 < digits ∧
      scanMantissa (bytesOf (before ++ text)) (width before) =
        .ok (digits, width (before ++ mantissa)) := by
  have htext : text.takeWhile Char.isDigit ++ text.dropWhile Char.isDigit = text :=
    List.takeWhile_append_dropWhile
  by_cases hpoint : ∃ behind, text.dropWhile Char.isDigit = '.' :: behind
  · obtain ⟨behind, hpoint⟩ := hpoint
    have hscan := scanMantissa_of_point before hpoint
    rw [afterMantissa_of_point hpoint, Option.ite_none_left_eq_some] at hafter
    obtain ⟨hdigits, hrest⟩ := hafter
    refine ⟨text.takeWhile Char.isDigit ++ ['.'] ++ behind.takeWhile Char.isDigit, _, ?_, ?_,
      by simpa only [List.append_assoc] using hscan⟩
    · rw [← Option.some.inj hrest, List.append_assoc, List.takeWhile_append_dropWhile,
        List.append_assoc, List.singleton_append, ← hpoint, htext]
    · rcases not_and_or.mp hdigits with hwhole | hfraction
      · exact Nat.add_pos_left (width_pos hwhole) _
      · exact Nat.add_pos_right _ (width_pos hfraction)
  · have hscan := scanMantissa_of_no_point before (not_exists.mp hpoint)
    rw [afterMantissa_of_no_point (not_exists.mp hpoint), Option.ite_none_left_eq_some] at hafter
    obtain ⟨hne, hrest⟩ := hafter
    exact ⟨_, _, by rw [← Option.some.inj hrest, htext], width_pos hne, hscan⟩

/-- Without a digit there is no mantissa, and a scan counts none. -/
theorem scanMantissa_of_afterMantissa_eq_none
    (before : List Char) {text : List Char} (hafter : afterMantissa text = none) :
    ∃ stop, scanMantissa (bytesOf (before ++ text)) (width before) = .ok (0, stop) := by
  by_cases hpoint : ∃ behind, text.dropWhile Char.isDigit = '.' :: behind
  · obtain ⟨behind, hpoint⟩ := hpoint
    have hscan := scanMantissa_of_point before hpoint
    rw [afterMantissa_of_point hpoint, ite_eq_left_iff] at hafter
    have hempty : text.takeWhile Char.isDigit = [] ∧ behind.takeWhile Char.isDigit = [] := by
      by_contra hdigits
      exact Option.some_ne_none _ (hafter hdigits)
    rw [hempty.1, hempty.2] at hscan
    exact ⟨_, hscan⟩
  · have hscan := scanMantissa_of_no_point before (not_exists.mp hpoint)
    rw [afterMantissa_of_no_point (not_exists.mp hpoint), ite_eq_left_iff] at hafter
    have hempty : text.takeWhile Char.isDigit = [] := by
      by_contra hdigits
      exact Option.some_ne_none _ (hafter hdigits)
    rw [hempty] at hscan
    exact ⟨_, hscan⟩

/-! ## The exponent -/

theorem isExponentOrNothing_cons
    {mark : Char} (hmark : (mark == 'e' || mark == 'E') = true) (rest : List Char) :
    isExponentOrNothing (mark :: rest) = true ↔
      (dropSign rest).takeWhile Char.isDigit ≠ [] ∧
        (dropSign rest).dropWhile Char.isDigit = [] := by
  rw [isExponentOrNothing, hmark, Bool.true_and, Bool.and_eq_true, Bool.not_eq_true',
    List.isEmpty_eq_false_iff, List.all_eq_true, List.dropWhile_eq_nil_iff]
  constructor
  · intro h
    obtain ⟨hne, hdigits⟩ := h
    exact ⟨by rwa [List.takeWhile_eq_self_iff.mpr hdigits], hdigits⟩
  · intro h
    obtain ⟨hne, hdigits⟩ := h
    exact ⟨by rwa [List.takeWhile_eq_self_iff.mpr hdigits] at hne, hdigits⟩

theorem scanExponent_of_mark
    (before : List Char) {mark : Char} (hmark : (mark == 'e' || mark == 'E') = true)
    (rest : List Char) :
    ∃ sign, rest = sign ++ dropSign rest ∧
      scanExponent (bytesOf (before ++ mark :: rest)) (width before) =
        .ok (if (dropSign rest).takeWhile Char.isDigit = [] then none
          else some (width (before ++ [mark] ++ sign ++
            (dropSign rest).takeWhile Char.isDigit))) := by
  have hascii : mark.toNat < 0x80 := by
    simp only [Bool.or_eq_true, beq_iff_eq] at hmark
    rcases hmark with rfl | rfl <;> decide
  have hnext : width before + 1 = width (before ++ [mark]) := by
    rw [width_append, width, utf8Size_of_ascii hascii]
    rfl
  have hbyte := getElem?_bytesOf_width before (mark :: rest)
  obtain ⟨sign, hrest, hsign⟩ := exists_sign_afterSign (before ++ [mark]) rest
  have hdigits := digitsFrom_width (before ++ [mark] ++ sign) (dropSign rest)
  have htext : before ++ mark :: rest = before ++ [mark] ++ sign ++ dropSign rest := by
    rw [List.append_assoc, ← hrest, ← List.append_cons]
  rw [← List.append_cons] at hsign
  rw [← htext] at hdigits
  refine ⟨sign, hrest, ?_⟩
  simp only [scanExponent, hbyte, List.head?_cons, Option.map_some, Option.any_some,
    isExponentByte_leadByte, hmark, if_true, hnext, hsign, hdigits, bind, Except.bind, pure,
    Except.pure]
  -- The exponent has no digits if the scan stops where its digits would start.
  have hstays :
      width (before ++ [mark] ++ sign ++ (dropSign rest).takeWhile Char.isDigit) =
          width (before ++ [mark] ++ sign) ↔
        (dropSign rest).takeWhile Char.isDigit = [] := by
    rw [width_append, Nat.add_eq_left, width_eq_zero_iff]
  simp only [hstays]

theorem scanExponent_of_no_mark
    (before : List Char) {text : List Char}
    (hmark : text.head?.any (fun c => c == 'e' || c == 'E') = false) :
    scanExponent (bytesOf (before ++ text)) (width before) = .ok (some (width before)) := by
  have hbyte : ((bytesOf (before ++ text))[width before]?).any isExponentByte = false := by
    rw [getElem?_bytesOf_width, Option.any_map, ← hmark]
    congr 1
    funext c
    exact isExponentByte_leadByte c
  rw [scanExponent, hbyte]
  rfl

/-- A scan reaches the end of the text behind a mantissa if there is nothing else than an
exponent. -/
theorem exists_scanExponent (before text : List Char) :
    ∃ found, scanExponent (bytesOf (before ++ text)) (width before) = .ok found ∧
      (found = some (width (before ++ text)) ↔ isExponentOrNothing text = true) := by
  cases text with
  | nil => exact ⟨_, scanExponent_of_no_mark before rfl, by simp [isExponentOrNothing]⟩
  | cons mark rest =>
      by_cases hmark : (mark == 'e' || mark == 'E') = true
      · obtain ⟨sign, hrest, hscan⟩ := scanExponent_of_mark before hmark rest
        refine ⟨_, hscan, ?_⟩
        have hdigits : (dropSign rest).takeWhile Char.isDigit ++
            (dropSign rest).dropWhile Char.isDigit = dropSign rest :=
          List.takeWhile_append_dropWhile
        have htext : before ++ mark :: rest =
            before ++ [mark] ++ sign ++ (dropSign rest).takeWhile Char.isDigit ++
              (dropSign rest).dropWhile Char.isDigit := by
          rw [List.append_assoc _ _ (List.dropWhile _ _), hdigits, List.append_assoc, ← hrest,
            ← List.append_cons]
        rw [isExponentOrNothing_cons hmark, Option.ite_none_left_eq_some, Option.some.injEq,
          htext, width_append _ (List.dropWhile _ _), Nat.left_eq_add, width_eq_zero_iff]
      · have hother := Bool.eq_false_of_not_eq_true hmark
        refine ⟨_, scanExponent_of_no_mark before hother, ?_⟩
        have hshort : width before ≠ width (before ++ mark :: rest) := by
          rw [width_append, ne_eq, Nat.left_eq_add, width_eq_zero_iff]
          exact List.cons_ne_nil mark rest
        simp [isExponentOrNothing, hother, hshort]

/-! ## The whole scan -/

/-- A scan never goes wrong and finds what the numeral test finds. -/
theorem scan_eq_isNumeric (text : String) : scan text = .ok (isNumeric text) := by
  rw [scan, isNumeric]
  generalize text.toList.dropWhile isBlank = chars
  obtain ⟨sign, hchars, hsign⟩ := exists_sign_afterSign [] chars
  rw [List.nil_append, List.nil_append] at hsign
  have hbytes : (String.ofList chars).toUTF8 = bytesOf (sign ++ dropSign chars) := by
    rw [← hchars]
    rfl
  rw [hbytes]
  have hstart : afterSign (bytesOf (sign ++ dropSign chars)) 0 = width sign := by
    rw [← hchars]
    exact hsign
  cases hafter : afterMantissa (dropSign chars) with
  | none =>
      obtain ⟨stop, hmantissa⟩ := scanMantissa_of_afterMantissa_eq_none sign hafter
      simp only [hstart, hmantissa, bind, Except.bind]
      rfl
  | some rest =>
      obtain ⟨mantissa, digits, hrest, hpos, hmantissa⟩ :=
        scanMantissa_of_afterMantissa_eq_some sign hafter
      obtain ⟨found, hexponent, hend⟩ := exists_scanExponent (sign ++ mantissa) rest
      rw [List.append_assoc, ← hrest] at hexponent hend
      simp only [hstart, hmantissa, if_neg (Nat.ne_of_gt hpos), hexponent, bind, Except.bind]
      cases found with
      | none =>
          have hother : isExponentOrNothing rest = false := by
            rw [← Bool.not_eq_true, ← hend]
            simp
          rw [hother]
          rfl
      | some stop =>
          rw [Option.some.injEq, ← size_bytesOf] at hend
          have hresult : (stop == (bytesOf (sign ++ dropSign chars)).size) =
              isExponentOrNothing rest := by
            rw [Bool.eq_iff_iff, beq_iff_eq]
            exact hend
          rw [← hresult]
          rfl

/-- A text is numeric if it is a numeral as a whole.  A scan of its bytes comes to the same result,
and neither fetches a byte from behind the end nor measures a run from behind its end. -/
theorem isNumeric_iff_and_scan_eq (text : String) :
    (isNumeric text = true ↔ IsNumeral text.toList) ∧ scan text = .ok (isNumeric text) :=
  ⟨isNumeric_iff_isNumeral text, scan_eq_isNumeric text⟩

end ArgumentContract.Numeral

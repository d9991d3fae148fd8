import ArgumentContract.Json.Printer
import ArgumentContract.Json.StringLiteral

/-!
# Printed strings are read back

A printed string is read character by character.  Each character is printed as itself or as an
escape, and an escape stands for that one character again.  None of the escapes that are printed is
half of a pair, so that what follows a character never changes how it is read.
-/

namespace ArgumentContract.Json

/-! ## Escapes -/

theorem codeUnit?_hexDigit :
    ∀ n < 0x20, codeUnit? '0' '0' (hexDigit (n / 16)) (hexDigit n) = some n := by
  decide

theorem readChars_controlEscape_append
    {c : Char} (hcontrol : c.toNat < 0x20) (text : List Char) :
    readChars
        ('\\' :: 'u' :: '0' :: '0' :: hexDigit (c.toNat / 16) :: hexDigit c.toNat :: text) =
      prepend c (readChars text) := by
  have hunit := codeUnit?_hexDigit c.toNat hcontrol
  have htrailing : isTrailing c.toNat = false := by
    simp [isTrailing]
    omega
  have hleading : isLeading c.toNat = false := by
    simp [isLeading]
    omega
  rw [readChars, hunit]
  simp [htrailing, hleading, Char.ofNat_toNat]

theorem readChars_cons_of_plain
    {c : Char} (hquote : c ≠ '"') (hbackslash : c ≠ '\\') (hcontrol : ¬ c.toNat < 0x20)
    (text : List Char) :
    readChars (c :: text) = prepend c (readChars text) := by
  rw [readChars, if_neg hcontrol]
  all_goals simp [hquote, hbackslash]

/-- A printed character is read as that character, whatever follows it. -/
theorem readChars_escapeChar_append (c : Char) (text : List Char) :
    readChars (escapeChar c ++ text) = prepend c (readChars text) := by
  unfold escapeChar
  split
  next => rfl
  next => rfl
  next => rfl
  next => rfl
  next => rfl
  next => rfl
  next => rfl
  next hquote hbackslash _ _ _ _ _ =>
    by_cases hcontrol : c.toNat < 0x20
    · rw [if_pos hcontrol]
      exact readChars_controlEscape_append hcontrol text
    · rw [if_neg hcontrol]
      exact readChars_cons_of_plain hquote hbackslash hcontrol text

/-! ## Strings -/

theorem readChars_flatMap_escapeChar (content rest : List Char) :
    readChars (content.flatMap escapeChar ++ '"' :: rest) = .ok (content, rest) := by
  induction content with
  | nil => rfl
  | cons c content ih =>
      rw [List.flatMap_cons, List.append_assoc, readChars_escapeChar_append, ih]
      rfl

/-- A printed string behind its opening quote is read as that string. -/
theorem readString_printed (text : String) (rest : List Char) :
    readString (text.toList.flatMap escapeChar ++ '"' :: rest) = .ok (text, rest) := by
  rw [readString, readChars_flatMap_escapeChar]
  simp

theorem printString_append (text : String) (rest : List Char) :
    printString text ++ rest = '"' :: (text.toList.flatMap escapeChar ++ '"' :: rest) := by
  simp [printString]

end ArgumentContract.Json

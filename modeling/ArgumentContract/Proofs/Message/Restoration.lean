import ArgumentContract.Message.Document
import ArgumentContract.Proofs.Json.PrintedSpelling
import ArgumentContract.Proofs.Json.Respelling
import ArgumentContract.Proofs.Message.Position
import ArgumentContract.Resolution

/-!
# Violations are restored from their documents

Of the position of an argument, only the value is written to a document.  Reading it back gives the
shortest digits of that value, so that a violation is restored as it was unless its digits have a
superfluous zero in front or denote a number that is too large.  Everything else about a violation
is restored, and a resolution never asks for the digits.
-/

namespace ArgumentContract

/-! ## Shortest digits -/

namespace Text

theorem toNat_sub_lt_ten {c : Char} (hdigit : c.isDigit = true) : c.toNat - '0'.toNat < 10 := by
  simp only [Char.isDigit, Bool.and_eq_true, decide_eq_true_eq] at hdigit
  have hnine : c.toNat ≤ '9'.toNat := hdigit.2
  have hrange : '9'.toNat = '0'.toNat + 9 := rfl
  omega

theorem digitChar_toNat_sub {c : Char} (hdigit : c.isDigit = true) :
    Nat.digitChar (c.toNat - '0'.toNat) = c := by
  have hlow : '0'.toNat ≤ c.toNat := by
    simp only [Char.isDigit, Bool.and_eq_true, decide_eq_true_eq] at hdigit
    exact hdigit.1
  have hzero : '0'.toNat = 48 := rfl
  apply Char.toNat_inj.mp
  rw [Nat.toNat_digitChar_of_lt_ten (toNat_sub_lt_ten hdigit)]
  omega

theorem decimalDigits_toNat_sub {c : Char} (hdigit : c.isDigit = true) :
    decimalDigits (c.toNat - '0'.toNat) = [c] := by
  rw [decimalDigits, Nat.toDigits_of_lt_base (toNat_sub_lt_ten hdigit), digitChar_toNat_sub hdigit]

theorem decimalValue_concat (front : List Char) (c : Char) :
    decimalValue (front ++ [c]) = 10 * decimalValue front + (c.toNat - '0'.toNat) := by
  rw [decimalValue, Nat.ofDigitChars_append, Nat.ofDigitChars_cons, Nat.ofDigitChars_nil]
  rfl

theorem decimalValue_lt {digits : List Char} (hdigits : ∀ c ∈ digits, c.isDigit = true) :
    decimalValue digits < 10 ^ digits.length := by
  induction digits using List.reverseRecOn with
  | nil => decide
  | append_singleton front c ih =>
      rw [List.forall_mem_append, List.forall_mem_singleton] at hdigits
      have hfront := ih hdigits.1
      have hdigit := toNat_sub_lt_ten hdigits.2
      rw [decimalValue_concat, List.length_append, List.length_singleton, Nat.pow_succ]
      omega

/-- No run of digits for a number is shorter than its decimal digits. -/
theorem length_decimalDigits_le
    {digits : List Char} (hne : digits ≠ []) (hdigits : ∀ c ∈ digits, c.isDigit = true) :
    (decimalDigits (decimalValue digits)).length ≤ digits.length :=
  (Nat.length_toDigits_le_iff (by decide) (List.length_pos_of_ne_nil hne)).mpr
    (decimalValue_lt hdigits)

/-- Digits without a superfluous zero in front are the decimal digits of the number they denote. -/
theorem decimalDigits_decimalValue
    {digits : List Char} (hne : digits ≠ []) (hdigits : ∀ c ∈ digits, c.isDigit = true)
    (hplain : ∀ c more, digits ≠ '0' :: c :: more) :
    decimalDigits (decimalValue digits) = digits := by
  induction digits using List.reverseRecOn with
  | nil => contradiction
  | append_singleton front c ih =>
      rw [List.forall_mem_append, List.forall_mem_singleton] at hdigits
      have hlast := decimalDigits_toNat_sub hdigits.2
      rw [decimalValue_concat]
      cases front with
      | nil =>
          rw [decimalValue, Nat.ofDigitChars_nil, Nat.mul_zero, Nat.zero_add]
          exact hlast
      | cons head more =>
          have hhead : head ≠ '0' := by
            rintro rfl
            cases more with
            | nil => exact hplain c [] rfl
            | cons next more => exact hplain next (more ++ [c]) rfl
          have hpos : 0 < decimalValue (head :: more) := by
            rw [Nat.pos_iff_ne_zero, decimalValue, Ne, ArgumentIndex.ofDigitChars_eq_zero_iff,
              List.forall_mem_cons]
            rintro ⟨-, hzero, -⟩
            have hdigit := hdigits.1 head (List.mem_cons_self ..)
            exact hhead ((ArgumentIndex.toNat_sub_eq_zero_iff hdigit).mp hzero)
          have hfront := ih (List.cons_ne_nil head more) hdigits.1 (by
            intro next rest hzero
            exact hhead (List.cons.inj hzero).1)
          have hsum := Nat.toDigits_append_toDigits (by decide) hpos (toNat_sub_lt_ten hdigits.2)
          rw [decimalDigits, ← hsum]
          exact congrArg₂ List.append hfront hlast

end Text

/-! ## Positions -/

namespace ArgumentIndex

theorem ext_digits {left right : ArgumentIndex} (hdigits : left.digits = right.digits) :
    left = right := by
  cases left
  cases right
  simp_all

theorem value_le_greatest (index : ArgumentIndex) : index.value ≤ greatest := by
  rw [value_eq_min]
  exact Nat.min_le_right index.number greatest

theorem value_ofNat_value (index : ArgumentIndex) : (ofNat index.value).value = index.value := by
  rw [value_eq_min (ofNat index.value), number_ofNat]
  exact Nat.min_eq_left index.value_le_greatest

/-- A position is the one with the shortest digits of its value if its digits have no superfluous
zero in front and its number needs no clamp. -/
theorem ofNat_value_eq_iff (index : ArgumentIndex) :
    ofNat index.value = index ↔
      (∀ c more, index.digits.toList ≠ '0' :: c :: more) ∧
        Text.decimalValue index.digits.toList ≤ 2 ^ 64 - 1 := by
  constructor
  · intro heq
    have hdigits : index.digits.toList = Text.decimalDigits index.value := by
      rw [← String.toList_ofList (l := Text.decimalDigits index.value)]
      exact congrArg (fun index => index.digits.toList) heq.symm
    rw [hdigits, Text.decimalValue_decimalDigits]
    exact ⟨Text.decimalDigits_ne_zero_cons index.value, index.value_le_greatest⟩
  · rintro ⟨hplain, hle⟩
    have hnumber : index.value = Text.decimalValue index.digits.toList := by
      rw [value_eq_min]
      exact Nat.min_eq_left hle
    apply ext_digits
    change String.ofList (Text.decimalDigits index.value) = index.digits
    rw [hnumber, Text.decimalDigits_decimalValue index.digits_ne_nil index.digits_isDigit hplain,
      String.ofList_toList]

end ArgumentIndex

/-! ## Documents of violations -/

namespace Violation

open Json (Source Slot Understands SpellsDocument lettersOf)

def slots : List (Slot Violation) :=
  [.updating "argument_index" true true (fun source => source.natural?.map ArgumentIndex.ofNat)
     fun violation index => { violation with index },
   .updating "scope_name" false true (Source.optional? Source.text?)
     fun violation scope => { violation with scope },
   .updating "function_name" true true Source.text?
     fun violation function => { violation with function },
   .updating "expected_type_name" true true Source.text?
     fun violation expected => { violation with expected },
   .updating "given_type_name" true true Source.text?
     fun violation given => { violation with given }]

theorem fills : List.Forall₂ (Json.Field.Fills id) record.fields slots := by
  have hname := Json.understands_readText
  refine .cons ?_ (.cons ?_ (.cons ?_ (.cons ?_ (.cons ?_ .nil))))
  · have hindex : ∀ depth, Understands depth ArgumentIndex.read
        fun source => source.natural?.map ArgumentIndex.ofNat :=
      fun depth => (Json.understands_readNatural depth).map ArgumentIndex.ofNat
    exact Understands.fills (fun (violation : Violation) index => { violation with index }) hindex
      fun _ _ => rfl
  · exact Understands.fills (fun (violation : Violation) scope => { violation with scope })
      (fun depth => (hname depth).readOptional) fun _ _ => rfl
  · exact Understands.fills (fun (violation : Violation) function => { violation with function })
      hname fun _ _ => rfl
  · exact Understands.fills (fun (violation : Violation) expected => { violation with expected })
      hname fun _ _ => rfl
  · exact Understands.fills (fun (violation : Violation) given => { violation with given })
      hname fun _ _ => rfl

theorem toOption_ofText
    {text : String} {source : Source} (hspells : SpellsDocument 127 text source) :
    (ofText text).toOption = Slot.ofSource? slots record.blank source :=
  (Json.Record.understands_read fills Json.nestingLimit).of_viewed_id.readDocument hspells

theorem integral_toJson (violation : Violation) : violation.toJson.Integral := by
  refine .object ?_
  simp only [List.forall_mem_cons]
  refine ⟨.integer ?_, ?_, .string _, .string _, .string _, by simp⟩
  · have hle : violation.index.value ≤ 0xffffffffffffffff := violation.index.value_le_greatest
    simp only [Json.fitsLiteral, Bool.and_eq_true, decide_eq_true_eq]
    omega
  · cases violation.scope with
    | none => exact .null
    | some scope => exact .string scope

theorem nesting_toJson_le (violation : Violation) : violation.toJson.nesting ≤ 127 := by
  obtain ⟨index, scope, function, expected, given⟩ := violation
  cases scope <;> simp [toJson, ArgumentIndex.toJson, Json.nesting, Json.membersNesting]

/-- The violation with the shortest digits of the same position. -/
def shortened (violation : Violation) : Violation :=
  { violation with index := .ofNat violation.index.value }

theorem natural?_toSource (index : ArgumentIndex) :
    index.toJson.toSource.natural? = some index.value := by
  have hle : index.value ≤ 0xffffffffffffffff := index.value_le_greatest
  rw [ArgumentIndex.toJson, Json.toSource, Json.parts_integer]
  have hnegative : ¬ (index.value : Int) < 0 := by omega
  simp [Source.natural?, Json.NumberParts.integer?, Text.decimalValue_decimalDigits, hle, hnegative]

theorem ofItems?_fields
    (index : ArgumentIndex) {scopeSource : Source} {scope : Option String}
    (hscope : scopeSource.optional? Source.text? = some scope) (function expected given : String) :
    Slot.ofItems? slots record.blank
        [index.toJson.toSource, scopeSource, .string (lettersOf function),
          .string (lettersOf expected), .string (lettersOf given)] =
      some ⟨.ofNat index.value, scope, function, expected, given⟩ := by
  simp only [slots, Slot.ofItems?, Slot.updating, natural?_toSource, hscope, Source.text?,
    Json.textOf?_lettersOf]
  rfl

theorem ofSource?_toJson (violation : Violation) :
    Slot.ofSource? slots record.blank violation.toJson.toSource = some violation.shortened := by
  obtain ⟨index, scope, function, expected, given⟩ := violation
  cases scope with
  | none =>
      change Slot.ofMembers? slots record.blank (Json.keyed (slots.map Slot.name)
        [index.toJson.toSource, .null, .string (lettersOf function),
          .string (lettersOf expected), .string (lettersOf given)]) = _
      rw [Slot.ofMembers?_keyed (by decide) rfl]
      exact ofItems?_fields index rfl function expected given
  | some scope =>
      have hscope : Source.optional? Source.text? (.string (lettersOf scope)) =
          some (some scope) := by
        simp [Source.optional?, Source.text?, Json.textOf?_lettersOf]
      change Slot.ofMembers? slots record.blank (Json.keyed (slots.map Slot.name)
        [index.toJson.toSource, .string (lettersOf scope), .string (lettersOf function),
          .string (lettersOf expected), .string (lettersOf given)]) = _
      rw [Slot.ofMembers?_keyed (by decide) rfl]
      exact ofItems?_fields index hscope function expected given

theorem result_resolve_shortened (violation : Violation) (view : CallView) :
    violation.shortened.resolve.result view = violation.resolve.result view := by
  have hargument : violation.shortened.argument? = violation.argument? := by
    funext frames
    unfold argument? ArgumentIndex.offset
    rw [shortened, violation.index.value_ofNat_value]
    rfl
  have hresolve : violation.shortened.resolve = violation.resolve := by
    unfold resolve tryArgument
    rw [hargument]
    rfl
  rw [hresolve]

theorem shortened_eq_iff (violation : Violation) :
    violation.shortened = violation ↔
      ArgumentIndex.ofNat violation.index.value = violation.index := by
  constructor
  · intro heq
    exact congrArg Violation.index heq
  · intro hindex
    rw [shortened, hindex]

/-- A violation is restored from either text of its document, with the shortest digits of the same
position.  No resolution tells the two apart. -/
theorem ofText_toText_restores
    (violation : Violation) :
    ∃ restored : Violation,
      ofText violation.toJson.toText = .ok restored ∧
        ofText violation.toJson.toIndentedText = .ok restored ∧
        restored.scope = violation.scope ∧ restored.function = violation.function ∧
        restored.expected = violation.expected ∧ restored.given = violation.given ∧
        restored.index.value = violation.index.value ∧
        Text.decimalValue restored.index.digits.toList = violation.index.value ∧
        (∀ digits : List Char, digits ≠ [] → (∀ c ∈ digits, c.isDigit = true) →
          Text.decimalValue digits = violation.index.value →
            restored.index.digits.length ≤ digits.length) ∧
        (restored = violation ↔
          (∀ c more, violation.index.digits.toList ≠ '0' :: c :: more) ∧
            Text.decimalValue violation.index.digits.toList ≤ 2 ^ 64 - 1) ∧
        ∀ stack : CallStack,
          restored.resolve.result stack.view = violation.resolve.result stack.view := by
  have hspells := violation.integral_toJson.spellsDocument violation.nesting_toJson_le
  refine ⟨violation.shortened, ?_, ?_, rfl, rfl, rfl, rfl, violation.index.value_ofNat_value,
    ?_, ?_, ?_, fun stack => violation.result_resolve_shortened stack.view⟩
  · exact Json.eq_ok_of_toOption ((toOption_ofText hspells.1).trans violation.ofSource?_toJson)
  · exact Json.eq_ok_of_toOption ((toOption_ofText hspells.2).trans violation.ofSource?_toJson)
  · exact ArgumentIndex.number_ofNat violation.index.value
  · intro digits hne hdigits hvalue
    have hlength := Text.length_decimalDigits_le hne hdigits
    rw [hvalue] at hlength
    exact String.length_ofList.trans_le hlength
  · rw [shortened_eq_iff]
    exact violation.index.ofNat_value_eq_iff

end Violation

end ArgumentContract

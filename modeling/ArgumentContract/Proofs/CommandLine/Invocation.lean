import ArgumentContract.CommandLine.Arguments
import ArgumentContract.Proofs.Json.Grammar
import ArgumentContract.Proofs.Message.Recognition
import ArgumentContract.Proofs.Value.NumeralGrammar
import Mathlib.Tactic

/-!
# The grammar of invocations

An invocation is a list of arguments that say one thing after the other: an option with its value,
the flag, or a message.  `Invokes` relates it to what it asks for, without regard to the order and
to the way in which an option is attached to its value.  Reading accepts the invocations and
nothing else, and it finds what they ask for.
-/

namespace ArgumentContract.CommandLine

open Grammar (bind_eq_ok_iff)
open Json (IsDigits)
open Numeral (StopsAt stopsAt_cons takeWhile_append_of_stopsAt dropWhile_append_of_stopsAt)

/-! ## Parts -/

/-- One thing that arguments say. -/
inductive Part
  | severity (severity : Severity)
  | code (code : Int)
  | context (path : String)
  | emission (emission : Emission)
  | verbose
  | message (text : String)
deriving DecidableEq

namespace Part

def severity? : Part → Option Severity
  | .severity value => some value
  | _ => none

def code? : Part → Option Int
  | .code value => some value
  | _ => none

def context? : Part → Option String
  | .context path => some path
  | _ => none

def emission? : Part → Option Emission
  | .emission value => some value
  | _ => none

def message? : Part → Option String
  | .message text => some text
  | _ => none

end Part

/-- An integer in decimal, with an optional sign and any zeros in front. -/
inductive SpellsInteger : List Char → Int → Prop
  | plain {digits : List Char} (hdigits : IsDigits digits) :
      SpellsInteger digits (Text.decimalValue digits)
  | plus {digits : List Char} (hdigits : IsDigits digits) :
      SpellsInteger ('+' :: digits) (Text.decimalValue digits)
  | minus {digits : List Char} (hdigits : IsDigits digits) :
      SpellsInteger ('-' :: digits) (-Text.decimalValue digits)

def ValueOption.name : ValueOption → String
  | severity => "severity"
  | code => "code"
  | context => "context"
  | emission => "emit"

/-- What an option with a value says. -/
inductive Means : ValueOption → String → Part → Prop
  | recoverable : Means .severity "recoverable" (.severity .recoverable)
  | other : Means .severity "other" (.severity .other)
  | code {text : String} {code : Int} (hcode : SpellsInteger text.toList code)
      (hlow : -2 ^ 63 ≤ code) (hhigh : code < 2 ^ 63) : Means .code text (.code code)
  | context {path : String} (hne : path ≠ "") : Means .context path (.context path)
  | outcome : Means .emission "outcome" (.emission .outcome)
  | parsed : Means .emission "parsed" (.emission .parsed)
  | json : Means .emission "json" (.emission .json)

/-- An argument that does not look like an option.  A single dash does not. -/
def IsPlain (text : String) : Prop := text = "-" ∨ text.toList.head? ≠ some '-'

/-- Arguments that say one thing. -/
inductive Part.Spells : List String → Part → Prop
  | attached {option : ValueOption} {value : String} {part : Part}
      (hmeans : Means option value part) : Spells ["--" ++ option.name ++ "=" ++ value] part
  | separate {option : ValueOption} {value : String} {part : Part}
      (hmeans : Means option value part) (hplain : IsPlain value) :
      Spells ["--" ++ option.name, value] part
  | verbose : Spells ["--verbose"] .verbose
  | message {text : String} (hplain : IsPlain text) : Spells [text] (.message text)

/-- Arguments that say one thing after the other.  Behind the separator all of them are messages,
whatever they look like. -/
inductive SpellsParts : List String → List Part → Prop
  | nil : SpellsParts [] []
  | cons {front texts : List String} {part : Part} {parts : List Part}
      (hpart : part.Spells front) (hparts : SpellsParts texts parts) :
      SpellsParts (front ++ texts) (part :: parts)
  | separator (messages : List String) :
      SpellsParts ("--" :: messages) (messages.map Part.message)

/-- What the arguments ask for besides the message, part by part. -/
def Arguments.optionParts (given : Arguments) : List Part :=
  given.severity.toList.map .severity ++ given.code.toList.map .code ++
    given.context.toList.map .context ++ given.emission.toList.map .emission ++
    List.replicate given.verbose.toNat .verbose

/-- What the arguments ask for, part by part. -/
def Arguments.parts (given : Arguments) : List Part :=
  given.optionParts ++ given.message.toList.map .message

/-- The texts say what is asked for, each part of it once and in any order. -/
def Invokes (texts : List String) (given : Arguments) : Prop :=
  ∃ parts, SpellsParts texts parts ∧ parts.Perm given.parts

/-! ## Adding parts -/

/-- The last arguments hold what the given ones hold and what the parts say.  Nothing of it is
said twice.  Arguments are read on top of what was read so far, so this is what the induction
carries. -/
@[mk_iff adds_iff]
structure Adds (given : Arguments) (parts : List Part) (last : Arguments) : Prop where
  severity : given.severity.toList ++ parts.filterMap Part.severity? = last.severity.toList
  code : given.code.toList ++ parts.filterMap Part.code? = last.code.toList
  context : given.context.toList ++ parts.filterMap Part.context? = last.context.toList
  emission : given.emission.toList ++ parts.filterMap Part.emission? = last.emission.toList
  message : given.message.toList ++ parts.filterMap Part.message? = last.message.toList
  verbose : given.verbose.toNat + parts.count Part.verbose = last.verbose.toNat

/-- Adds one part, unless something of its kind is there. -/
def Arguments.add? (given : Arguments) : Part → Option Arguments
  | .severity severity =>
      if given.severity = .none then some { given with severity := some severity } else .none
  | .code code => if given.code = .none then some { given with code := some code } else .none
  | .context path =>
      if given.context = .none then some { given with context := some path } else .none
  | .emission emission =>
      if given.emission = .none then some { given with emission := some emission } else .none
  | .verbose => if given.verbose then .none else some { given with verbose := true }
  | .message text =>
      if given.message = .none then some { given with message := some text } else .none

theorem toList_eq_toList_iff {α : Type} {left right : Option α} :
    left.toList = right.toList ↔ left = right := by
  cases left <;> cases right <;> simp

theorem toList_append_cons_eq_iff {α : Type} {given last : Option α} {x : α} {xs : List α} :
    given.toList ++ x :: xs = last.toList ↔ given = none ∧ x :: xs = last.toList := by
  cases given <;> cases last <;> simp

theorem toNat_add_succ_eq_iff {given last : Bool} {n : Nat} :
    given.toNat + (n + 1) = last.toNat ↔ given = false ∧ n + 1 = last.toNat := by
  cases given <;> cases last <;> simp

theorem adds_nil_iff {given last : Arguments} : Adds given [] last ↔ last = given := by
  have hverbose : given.verbose.toNat = last.verbose.toNat ↔ given.verbose = last.verbose := by
    cases given.verbose <;> cases last.verbose <;> decide
  simp only [adds_iff, List.filterMap_nil, List.append_nil, toList_eq_toList_iff,
    List.count_nil, Nat.add_zero, hverbose]
  cases given
  cases last
  simp only [Arguments.mk.injEq]
  tauto

/-- Parts are added one by one. -/
theorem adds_cons_iff {given last : Arguments} {part : Part} {parts : List Part} :
    Adds given (part :: parts) last ↔
      ∃ next, given.add? part = some next ∧ Adds next parts last := by
  simp only [adds_iff]
  cases part
  case verbose =>
    simp only [Arguments.add?, List.filterMap_cons, Part.severity?, Part.code?, Part.context?,
      Part.emission?, Part.message?, List.count_cons_self, toNat_add_succ_eq_iff,
      Option.ite_none_left_eq_some, Bool.not_eq_true, Option.some.injEq, ↓existsAndEq, and_true,
      Bool.toNat_true, Nat.add_comm 1]
    tauto
  all_goals
    simp only [Arguments.add?, List.filterMap_cons, Part.severity?, Part.code?, Part.context?,
      Part.emission?, Part.message?, toList_append_cons_eq_iff, ne_eq, reduceCtorEq,
      not_false_eq_true, List.count_cons_of_ne, Option.ite_none_right_eq_some, Option.some.injEq,
      ↓existsAndEq, and_true, Option.toList_some, List.cons_append, List.nil_append]
    tauto

theorem adds_parts (given : Arguments) : Adds .none given.parts given := by
  constructor
  case verbose =>
    have hcount {α : Type} {wrap : α → Part} (hwrap : ∀ x, wrap x ≠ .verbose) (xs : List α) :
        (xs.map wrap).count .verbose = 0 :=
      List.count_eq_zero.mpr (by simp [hwrap])
    simp [Arguments.none, Arguments.parts, Arguments.optionParts, hcount]
  all_goals
    simp [Arguments.none, Arguments.parts, Arguments.optionParts, Part.severity?, Part.code?,
      Part.context?, Part.emission?, Part.message?, List.filterMap_map, Function.comp_def]

theorem eq_toList_of_perm {α : Type} {xs : List α} {x : Option α} (hperm : xs.Perm x.toList) :
    xs = x.toList := by
  cases x with
  | none => exact hperm.eq_nil
  | some x => exact List.perm_singleton.mp hperm

theorem count_eq_of_filterMap_eq
    {α : Type} [DecidableEq α] {project : Part → Option α} {part : Part} (x : α)
    (hproject : ∀ other, project other = some x ↔ other = part) {left right : List Part}
    (heq : left.filterMap project = right.filterMap project) :
    left.count part = right.count part := by
  have hcount (parts : List Part) : parts.count part = (parts.filterMap project).count x := by
    rw [List.count_filterMap, List.count_eq_countP]
    exact List.countP_congr fun other _ => by rw [beq_iff_eq, beq_iff_eq, hproject]
  rw [hcount, hcount, heq]

/-- Parts that come to the same arguments are the same, up to their order. -/
theorem perm_of_adds
    {given : Arguments} {left right : List Part} (hleft : Adds .none left given)
    (hright : Adds .none right given) : left.Perm right := by
  rw [List.perm_iff_count]
  intro part
  cases part with
  | severity severity =>
      refine count_eq_of_filterMap_eq severity (fun other => ?_)
        (hleft.severity.trans hright.severity.symm)
      cases other <;> simp [Part.severity?]
  | code code =>
      refine count_eq_of_filterMap_eq code (fun other => ?_) (hleft.code.trans hright.code.symm)
      cases other <;> simp [Part.code?]
  | context path =>
      refine count_eq_of_filterMap_eq path (fun other => ?_)
        (hleft.context.trans hright.context.symm)
      cases other <;> simp [Part.context?]
  | emission emission =>
      refine count_eq_of_filterMap_eq emission (fun other => ?_)
        (hleft.emission.trans hright.emission.symm)
      cases other <;> simp [Part.emission?]
  | message text =>
      refine count_eq_of_filterMap_eq text (fun other => ?_)
        (hleft.message.trans hright.message.symm)
      cases other <;> simp [Part.message?]
  | verbose => exact Nat.add_left_cancel (hleft.verbose.trans hright.verbose.symm)

theorem perm_parts_iff_adds {given : Arguments} {parts : List Part} :
    parts.Perm given.parts ↔ Adds .none parts given := by
  have hgiven := adds_parts given
  constructor
  · intro hperm
    have hfilter {α : Type} {project : Part → Option α} {x : Option α}
        (hx : given.parts.filterMap project = x.toList) :
        parts.filterMap project = x.toList :=
      eq_toList_of_perm (hx ▸ hperm.filterMap project)
    exact ⟨hfilter hgiven.severity, hfilter hgiven.code, hfilter hgiven.context,
      hfilter hgiven.emission, hfilter hgiven.message,
      (congrArg _ (hperm.count_eq _)).trans hgiven.verbose⟩
  · intro hadds
    exact perm_of_adds hadds hgiven

/-! ## Values of options -/

theorem natOfDigits?_eq_some_iff {digits : List Char} {n : Nat} :
    natOfDigits? digits = some n ↔ IsDigits digits ∧ n = Text.decimalValue digits := by
  simp [natOfDigits?, IsDigits, eq_comm (a := n)]

/-- The integer that a text stands for by its sign and its digits. -/
theorem map_natOfDigits?_eq_some_iff {digits : List Char} {sign : Nat → Int} {code : Int} :
    (natOfDigits? digits).map sign = some code ↔
      IsDigits digits ∧ code = sign (Text.decimalValue digits) := by
  simp only [Option.map_eq_some_iff, natOfDigits?_eq_some_iff]
  constructor
  · rintro ⟨n, ⟨hdigits, rfl⟩, rfl⟩
    exact ⟨hdigits, rfl⟩
  · rintro ⟨hdigits, rfl⟩
    exact ⟨_, ⟨hdigits, rfl⟩, rfl⟩

theorem codeOfText?_eq_some_iff {text : String} {code : Int} :
    codeOfText? text = some code ↔
      SpellsInteger text.toList code ∧ -2 ^ 63 ≤ code ∧ code < 2 ^ 63 := by
  have hrange : (-0x8000000000000000 ≤ code ∧ code ≤ 0x7fffffffffffffff) ↔
      -2 ^ 63 ≤ code ∧ code < 2 ^ 63 := by omega
  rw [codeOfText?, Option.filter_eq_some_iff, Bool.and_eq_true, decide_eq_true_eq,
    decide_eq_true_eq, hrange]
  refine and_congr_left fun _ => ?_
  have hmark {mark : Char} {rest : List Char} (hdigits : IsDigits (mark :: rest)) :
      mark.isDigit = true := hdigits.2 mark (List.mem_cons_self ..)
  split
  next digits htext =>
    rw [htext, map_natOfDigits?_eq_some_iff]
    constructor
    · rintro ⟨hdigits, rfl⟩
      exact .minus hdigits
    · intro hspells
      cases hspells with
      | plain hdigits => exact absurd (hmark hdigits) (by decide)
      | minus hdigits => exact ⟨hdigits, rfl⟩
  next digits htext =>
    rw [htext, map_natOfDigits?_eq_some_iff]
    constructor
    · rintro ⟨hdigits, rfl⟩
      exact .plus hdigits
    · intro hspells
      cases hspells with
      | plain hdigits => exact absurd (hmark hdigits) (by decide)
      | plus hdigits => exact ⟨hdigits, rfl⟩
  next digits hminus hplus =>
    rw [map_natOfDigits?_eq_some_iff]
    constructor
    · rintro ⟨hdigits, rfl⟩
      exact .plain hdigits
    · intro hspells
      generalize text.toList = letters at hspells hminus hplus
      cases hspells with
      | plain hdigits => exact ⟨hdigits, rfl⟩
      | plus hdigits => exact absurd rfl (hplus _)
      | minus hdigits => exact absurd rfl (hminus _)

variable {given next last : Arguments} {value : String} {option : ValueOption} {part : Part}

theorem means_severity_iff :
    Means .severity value part ↔
      ∃ severity, Severity.ofName? value = some severity ∧ part = .severity severity := by
  constructor
  · rintro (_ | _) <;> exact ⟨_, rfl, rfl⟩
  · rintro ⟨severity, hfound, rfl⟩
    have hname := List.find?_some hfound
    rw [decide_eq_true_eq] at hname
    subst hname
    cases severity
    · exact .recoverable
    · exact .other

theorem means_code_iff :
    Means .code value part ↔ ∃ code, codeOfText? value = some code ∧ part = .code code := by
  constructor
  · rintro (_ | _ | ⟨hcode, hlow, hhigh⟩)
    exact ⟨_, codeOfText?_eq_some_iff.mpr ⟨hcode, hlow, hhigh⟩, rfl⟩
  · rintro ⟨code, hfound, rfl⟩
    obtain ⟨hcode, hlow, hhigh⟩ := codeOfText?_eq_some_iff.mp hfound
    exact .code hcode hlow hhigh

theorem means_context_iff : Means .context value part ↔ value ≠ "" ∧ part = .context value := by
  constructor
  · rintro (_ | _ | _ | ⟨hne⟩)
    exact ⟨hne, rfl⟩
  · rintro ⟨hne, rfl⟩
    exact .context hne

theorem means_emission_iff :
    Means .emission value part ↔
      ∃ emission, Emission.ofName? value = some emission ∧ part = .emission emission := by
  constructor
  · rintro (_ | _ | _) <;> exact ⟨_, rfl, rfl⟩
  · rintro ⟨emission, hfound, rfl⟩
    unfold Emission.ofName? at hfound
    split at hfound
    all_goals cases hfound
    · exact .outcome
    · exact .parsed
    · exact .json

/-- An option takes the values that say something. -/
theorem setOption_eq_ok_iff :
    given.setOption option value = .ok next ↔
      ∃ part, Means option value part ∧ given.add? part = some next := by
  cases option with
  | severity =>
      simp only [means_severity_iff, Arguments.setOption]
      cases hgiven : given.severity <;> cases hfound : Severity.ofName? value <;>
        simp [Arguments.add?, hgiven]
  | code =>
      simp only [means_code_iff, Arguments.setOption]
      cases hgiven : given.code <;> cases hfound : codeOfText? value <;>
        simp [Arguments.add?, hgiven]
  | context =>
      simp only [means_context_iff, Arguments.setOption]
      cases hgiven : given.context <;> by_cases hempty : value = "" <;>
        simp [Arguments.add?, hgiven, hempty]
  | emission =>
      simp only [means_emission_iff, Arguments.setOption]
      cases hgiven : given.emission <;> cases hfound : Emission.ofName? value <;>
        simp [Arguments.add?, hgiven]

theorem setMessage_eq_ok_iff {text : String} :
    given.setMessage text = .ok next ↔ given.add? (.message text) = some next := by
  rw [Arguments.setMessage, Arguments.add?]
  cases given.message <;> simp

theorem setFlag_eq_ok_iff {name : String} :
    given.setFlag name = .ok next ↔ name = "verbose" ∧ given.add? .verbose = some next := by
  rw [Arguments.add?]
  unfold Arguments.setFlag
  split
  · cases hverbose : given.verbose <;> simp
  all_goals simp_all

/-! ## Texts of arguments -/

theorem ofText_eq_separator_iff {text : String} :
    Argument.ofText text = .separator ↔ text = "--" := by
  constructor
  · intro hseparator
    unfold Argument.ofText at hseparator
    split at hseparator
    next htext => exact String.toList_inj.mp htext
    all_goals contradiction
  · rintro rfl
    rfl

theorem isPlain_iff {text : String} :
    IsPlain text ↔ text.toList = ['-'] ∨ text.toList.head? ≠ some '-' := by
  rw [IsPlain, ← String.toList_inj]
  rfl

theorem ofText_eq_message_iff {text message : String} :
    Argument.ofText text = .message message ↔ message = text ∧ IsPlain text := by
  rw [isPlain_iff]
  unfold Argument.ofText
  split
  next htext => simp [htext]
  next rest _ htext => simp [htext]
  next htext => simp [htext]
  next hlong hshort =>
    have hplain : text.toList = ['-'] ∨ text.toList.head? ≠ some '-' := by
      cases hletters : text.toList with
      | nil => simp
      | cons c rest =>
          by_cases hc : c = '-'
          · cases rest with
            | nil => simp [hc]
            | cons d rest => exact absurd (hc ▸ hletters) (hshort d rest)
          · simp [hc]
    simp only [Argument.message.injEq, hplain, and_true]
    exact eq_comm

theorem ne_equals_of_not_mem {letters : List Char} (hmem : '=' ∉ letters) :
    ∀ c ∈ letters, decide (c ≠ '=') = true := by
  intro c hc
  rw [decide_eq_true_eq]
  rintro rfl
  exact hmem hc

theorem not_mem_takeWhile_equals (letters : List Char) :
    '=' ∉ letters.takeWhile (· ≠ '=') := by
  intro hmem
  simpa using List.mem_takeWhile_imp hmem

/-- Text without an equals sign is a name. -/
theorem takeWhile_eq_and_behind_none_iff {letters name : List Char} :
    (letters.takeWhile (· ≠ '=') = name ∧ valueBehindEquals letters = none) ↔
      letters = name ∧ '=' ∉ name := by
  constructor
  · rintro ⟨rfl, hbehind⟩
    refine ⟨?_, not_mem_takeWhile_equals letters⟩
    have hsplit := List.takeWhile_append_dropWhile (p := (· ≠ '=')) (l := letters)
    unfold valueBehindEquals at hbehind
    split at hbehind
    next hdrop =>
      rw [hdrop, List.append_nil] at hsplit
      exact hsplit.symm
    next => contradiction
  · rintro ⟨rfl, hmem⟩
    have hall := ne_equals_of_not_mem hmem
    refine ⟨List.takeWhile_eq_self_iff.mpr hall, ?_⟩
    rw [valueBehindEquals, List.dropWhile_eq_nil_iff.mpr hall]

/-- The first equals sign ends a name. -/
theorem takeWhile_eq_and_behind_some_iff {letters name : List Char} {value : String} :
    (letters.takeWhile (· ≠ '=') = name ∧ valueBehindEquals letters = some value) ↔
      letters = name ++ '=' :: value.toList ∧ '=' ∉ name := by
  constructor
  · rintro ⟨rfl, hbehind⟩
    refine ⟨?_, not_mem_takeWhile_equals letters⟩
    have hsplit := List.takeWhile_append_dropWhile (p := (· ≠ '=')) (l := letters)
    have hhead := List.head?_dropWhile_not (· ≠ '=') letters
    unfold valueBehindEquals at hbehind
    split at hbehind
    next => contradiction
    next c rest hdrop =>
      obtain rfl := Option.some.inj hbehind
      rw [hdrop] at hsplit hhead
      obtain rfl : c = '=' := by simpa using hhead
      rw [String.toList_ofList, hsplit]
  · rintro ⟨rfl, hmem⟩
    have hall := ne_equals_of_not_mem hmem
    have hstop : StopsAt (fun c => decide (c ≠ '=')) ('=' :: value.toList) :=
      stopsAt_cons rfl value.toList
    refine ⟨takeWhile_append_of_stopsAt hall hstop, ?_⟩
    rw [valueBehindEquals, dropWhile_append_of_stopsAt hall hstop]
    simp

theorem ofText_eq_long_iff {text name : String} {attached : Option String} :
    Argument.ofText text = .long name attached ↔
      ∃ letters, text.toList = '-' :: '-' :: letters ∧ letters ≠ [] ∧
        letters.takeWhile (· ≠ '=') = name.toList ∧ valueBehindEquals letters = attached := by
  unfold Argument.ofText
  split
  next htext => simp [htext]
  next letters hne htext =>
    have hletters : letters ≠ [] := fun hnil => hne hnil
    simp [htext, hletters, ← String.toList_inj]
  next c rest hlong htext => simp_all
  next hlong _ =>
    simp only [reduceCtorEq, false_iff, not_exists, not_and]
    intro letters htext
    exact absurd htext (hlong letters)

theorem ofText_eq_name_iff {text name : String} :
    Argument.ofText text = .long name none ↔
      text = "--" ++ name ∧ '=' ∉ name.toList ∧ name ≠ "" := by
  simp only [ofText_eq_long_iff, takeWhile_eq_and_behind_none_iff]
  rw [← String.toList_inj, String.toList_append, ne_eq, ← String.toList_eq_nil_iff]
  constructor
  · rintro ⟨letters, htext, hne, rfl, hmem⟩
    exact ⟨htext, hmem, hne⟩
  · rintro ⟨htext, hmem, hne⟩
    exact ⟨_, htext, hne, rfl, hmem⟩

theorem ofText_eq_name_value_iff {text name value : String} :
    Argument.ofText text = .long name (some value) ↔
      text = "--" ++ name ++ "=" ++ value ∧ '=' ∉ name.toList := by
  simp only [ofText_eq_long_iff, takeWhile_eq_and_behind_some_iff]
  have hletters : ("--" ++ name ++ "=" ++ value).toList =
      '-' :: '-' :: (name.toList ++ '=' :: value.toList) := by
    simp [String.toList_append]
  rw [← String.toList_inj, hletters]
  constructor
  · rintro ⟨letters, htext, hne, rfl, hmem⟩
    exact ⟨htext, hmem⟩
  · rintro ⟨htext, hmem⟩
    exact ⟨_, htext, by simp, rfl, hmem⟩

theorem ofName?_eq_some_iff {name : String} :
    ValueOption.ofName? name = some option ↔ name = option.name := by
  constructor
  · intro hfound
    unfold ValueOption.ofName? at hfound
    split at hfound
    all_goals cases hfound <;> rfl
  · rintro rfl
    cases option <;> rfl

theorem ValueOption.name_spec (option : ValueOption) :
    '=' ∉ option.name.toList ∧ option.name ≠ "" := by
  cases option <;> decide

theorem ofText_attached (option : ValueOption) (value : String) :
    Argument.ofText ("--" ++ option.name ++ "=" ++ value) = .long option.name (some value) :=
  ofText_eq_name_value_iff.mpr ⟨rfl, option.name_spec.1⟩

theorem ofText_separate (option : ValueOption) :
    Argument.ofText ("--" ++ option.name) = .long option.name none :=
  ofText_eq_name_iff.mpr ⟨rfl, option.name_spec⟩

/-! ## Reading -/

section

variable {text : String} {rest : List String}

theorem readArguments_of_message
    {message : String} (htext : Argument.ofText text = .message message) :
    readArguments given (text :: rest) =
      given.setMessage message >>= fun next => readArguments next rest := by
  rw [readArguments, htext]

theorem readArguments_of_separator (htext : Argument.ofText text = .separator) :
    readArguments given (text :: rest) = readMessages given rest := by
  rw [readArguments, htext]

theorem readArguments_of_attached
    {name : String} (htext : Argument.ofText text = .long name (some value))
    (hname : ValueOption.ofName? name = some option) :
    readArguments given (text :: rest) =
      given.setOption option value >>= fun next => readArguments next rest := by
  rw [readArguments, htext]
  simp only [hname]

theorem readArguments_of_separate
    {name behind : String} (htext : Argument.ofText text = .long name none)
    (hname : ValueOption.ofName? name = some option)
    (hbehind : Argument.ofText behind = .message value) :
    readArguments given (text :: behind :: rest) =
      given.setOption option value >>= fun next => readArguments next rest := by
  rw [readArguments, htext]
  simp only [hname, hbehind]

theorem readArguments_of_flag
    {name : String} (htext : Argument.ofText text = .long name none)
    (hname : ValueOption.ofName? name = none) :
    readArguments given (text :: rest) =
      given.setFlag name >>= fun next => readArguments next rest := by
  rw [readArguments, htext]
  simp only [hname]

end

/-- Arguments that say one thing are read as that. -/
theorem readArguments_of_spells
    {front : List String} (hpart : part.Spells front) (hadd : given.add? part = some next)
    (texts : List String) : readArguments given (front ++ texts) = readArguments next texts := by
  cases hpart with
  | attached hmeans =>
      rw [List.singleton_append,
        readArguments_of_attached (ofText_attached _ _) (ofName?_eq_some_iff.mpr rfl),
        setOption_eq_ok_iff.mpr ⟨_, hmeans, hadd⟩]
      rfl
  | separate hmeans hplain =>
      have hvalue := ofText_eq_message_iff.mpr ⟨rfl, hplain⟩
      rw [List.cons_append, List.singleton_append,
        readArguments_of_separate (ofText_separate _) (ofName?_eq_some_iff.mpr rfl) hvalue,
        setOption_eq_ok_iff.mpr ⟨_, hmeans, hadd⟩]
      rfl
  | verbose =>
      have htext : Argument.ofText "--verbose" = .long "verbose" none := rfl
      rw [List.singleton_append, readArguments_of_flag htext rfl,
        setFlag_eq_ok_iff.mpr ⟨rfl, hadd⟩]
      rfl
  | message hplain =>
      rw [List.singleton_append,
        readArguments_of_message (ofText_eq_message_iff.mpr ⟨rfl, hplain⟩),
        setMessage_eq_ok_iff.mpr hadd]
      rfl

theorem readMessages_eq_ok_iff {messages : List String} :
    readMessages given messages = .ok last ↔ Adds given (messages.map Part.message) last := by
  induction messages generalizing given with
  | nil =>
      rw [readMessages, List.map_nil, adds_nil_iff, Except.ok.injEq]
      exact eq_comm
  | cons text messages ih =>
      simp only [readMessages, bind_eq_ok_iff, setMessage_eq_ok_iff, ih, List.map_cons,
        adds_cons_iff]

theorem exists_parts_append
    {front texts : List String} (hpart : part.Spells front) (hadd : given.add? part = some next)
    (hrest : ∃ parts, SpellsParts texts parts ∧ Adds next parts last) :
    ∃ parts, SpellsParts (front ++ texts) parts ∧ Adds given parts last := by
  obtain ⟨parts, hparts, hadds⟩ := hrest
  exact ⟨part :: parts, .cons hpart hparts, adds_cons_iff.mpr ⟨next, hadd, hadds⟩⟩

/-- What is read is what the arguments say. -/
theorem exists_parts_of_readArguments
    {texts : List String} (hread : readArguments given texts = .ok last) :
    ∃ parts, SpellsParts texts parts ∧ Adds given parts last := by
  fun_induction readArguments given texts with
  | case1 given =>
      obtain rfl := Except.ok.inj hread
      exact ⟨[], .nil, adds_nil_iff.mpr rfl⟩
  | case2 given text texts message htext ih =>
      obtain ⟨next, hset, hnext⟩ := bind_eq_ok_iff.mp hread
      obtain ⟨rfl, hplain⟩ := ofText_eq_message_iff.mp htext
      exact exists_parts_append (.message hplain) (setMessage_eq_ok_iff.mp hset) (ih next hnext)
  | case3 given text texts htext =>
      obtain rfl := ofText_eq_separator_iff.mp htext
      exact ⟨_, .separator texts, readMessages_eq_ok_iff.mp hread⟩
  | case5 given text texts name option value hname htext ih =>
      obtain ⟨next, hset, hnext⟩ := bind_eq_ok_iff.mp hread
      obtain rfl := ofName?_eq_some_iff.mp hname
      obtain ⟨rfl, -⟩ := ofText_eq_name_value_iff.mp htext
      obtain ⟨part, hmeans, hadd⟩ := setOption_eq_ok_iff.mp hset
      exact exists_parts_append (.attached hmeans) hadd (ih next hnext)
  | case7 given text name option hname behind texts value hbehind htext ih =>
      obtain ⟨next, hset, hnext⟩ := bind_eq_ok_iff.mp hread
      obtain rfl := ofName?_eq_some_iff.mp hname
      obtain ⟨rfl, -⟩ := ofText_eq_name_iff.mp htext
      obtain ⟨rfl, hplain⟩ := ofText_eq_message_iff.mp hbehind
      obtain ⟨part, hmeans, hadd⟩ := setOption_eq_ok_iff.mp hset
      exact exists_parts_append (.separate hmeans hplain) hadd (ih next hnext)
  | case9 given text texts name hname htext ih =>
      obtain ⟨next, hset, hnext⟩ := bind_eq_ok_iff.mp hread
      obtain ⟨rfl, hadd⟩ := setFlag_eq_ok_iff.mp hset
      obtain ⟨rfl, -⟩ := ofText_eq_name_iff.mp htext
      exact exists_parts_append .verbose hadd (ih next hnext)
  | case4 | case6 | case8 | case10 => contradiction

theorem readArguments_of_spellsParts
    {texts : List String} {parts : List Part} (hparts : SpellsParts texts parts)
    (hadds : Adds given parts last) : readArguments given texts = .ok last := by
  induction hparts generalizing given with
  | nil =>
      rw [adds_nil_iff.mp hadds]
      rfl
  | cons hpart _ ih =>
      obtain ⟨next, hadd, hnext⟩ := adds_cons_iff.mp hadds
      rw [readArguments_of_spells hpart hadd]
      exact ih hnext
  | separator messages =>
      rw [readArguments_of_separator rfl]
      exact readMessages_eq_ok_iff.mpr hadds

/-- Reading accepts the invocations and finds what they ask for. -/
theorem readArguments_eq_ok_iff_invokes {texts : List String} :
    readArguments .none texts = .ok given ↔ Invokes texts given := by
  simp only [Invokes, perm_parts_iff_adds]
  constructor
  · exact exists_parts_of_readArguments
  · rintro ⟨parts, hparts, hadds⟩
    exact readArguments_of_spellsParts hparts hadds

/-! ## What can be asked for -/

/-- A code has 64 bits, and a path is not empty. -/
def Part.IsSayable : Part → Prop
  | .code n => -2 ^ 63 ≤ n ∧ n < 2 ^ 63
  | .context path => path ≠ ""
  | _ => True

theorem Part.Spells.isSayable {front : List String} (hpart : part.Spells front) :
    part.IsSayable := by
  cases hpart with
  | attached hmeans | separate hmeans =>
      cases hmeans with
      | code hcode hlow hhigh => exact ⟨hlow, hhigh⟩
      | context hne => exact hne
      | recoverable | other | outcome | parsed | json => trivial
  | verbose | message => trivial

theorem SpellsParts.isSayable {texts : List String} {parts : List Part}
    (hparts : SpellsParts texts parts) : ∀ part ∈ parts, part.IsSayable := by
  induction hparts with
  | nil => simp
  | cons hpart _ ih => exact List.forall_mem_cons.mpr ⟨hpart.isSayable, ih⟩
  | separator messages => simp [Part.IsSayable]

theorem exists_spellsInteger (code : Int) : ∃ text : String, SpellsInteger text.toList code := by
  have hdigits (n : Nat) : IsDigits (Text.decimalDigits n) :=
    ⟨Text.decimalDigits_ne_nil n, fun _ => Text.isDigit_of_mem_decimalDigits⟩
  obtain ⟨n, rfl | rfl⟩ := code.eq_nat_or_neg
  · refine ⟨String.ofList (Text.decimalDigits n), ?_⟩
    simpa [Text.decimalValue_decimalDigits] using SpellsInteger.plain (hdigits n)
  · refine ⟨String.ofList ('-' :: Text.decimalDigits n), ?_⟩
    simpa [Text.decimalValue_decimalDigits] using SpellsInteger.minus (hdigits n)

/-- A part can be said in front of the separator, unless it is a message that looks like an
option. -/
theorem exists_spells (hsayable : part.IsSayable) (hmessage : part.message? = none) :
    ∃ front, part.Spells front := by
  cases part with
  | severity severity =>
      cases severity
      · exact ⟨_, .attached .recoverable⟩
      · exact ⟨_, .attached .other⟩
  | code code =>
      obtain ⟨text, htext⟩ := exists_spellsInteger code
      exact ⟨_, .attached (.code htext hsayable.1 hsayable.2)⟩
  | context path => exact ⟨_, .attached (.context hsayable)⟩
  | emission emission =>
      cases emission
      · exact ⟨_, .attached .outcome⟩
      · exact ⟨_, .attached .parsed⟩
      · exact ⟨_, .attached .json⟩
  | verbose => exact ⟨_, .verbose⟩
  | message text => contradiction

theorem exists_spellsParts_append {options : List Part}
    (hoptions : ∀ part ∈ options, ∃ front, part.Spells front) (messages : List String) :
    ∃ texts, SpellsParts texts (options ++ messages.map Part.message) := by
  induction options with
  | nil => exact ⟨_, .separator messages⟩
  | cons part options ih =>
      obtain ⟨⟨front, hfront⟩, hrest⟩ := List.forall_mem_cons.mp hoptions
      obtain ⟨texts, htexts⟩ := ih hrest
      exact ⟨_, .cons hfront htexts⟩

theorem message?_of_mem_optionParts (hpart : part ∈ given.optionParts) :
    part.message? = none := by
  simp only [Arguments.optionParts, List.mem_append, List.mem_map, List.mem_replicate,
    or_assoc] at hpart
  obtain ⟨_, _, rfl⟩ | ⟨_, _, rfl⟩ | ⟨_, _, rfl⟩ | ⟨_, _, rfl⟩ | ⟨_, rfl⟩ := hpart <;> rfl

/-- Whatever can be said can be asked for. -/
theorem exists_invokes_iff :
    (∃ texts, Invokes texts given) ↔ ∀ part ∈ given.parts, part.IsSayable := by
  constructor
  · rintro ⟨texts, parts, hparts, hperm⟩ part hpart
    exact hparts.isSayable part (hperm.mem_iff.mpr hpart)
  · intro hsayable
    have hoptions (part : Part) (hpart : part ∈ given.optionParts) :
        ∃ front, part.Spells front :=
      exists_spells (hsayable part (List.mem_append_left _ hpart))
        (message?_of_mem_optionParts hpart)
    obtain ⟨texts, htexts⟩ := exists_spellsParts_append hoptions given.message.toList
    exact ⟨texts, _, htexts, .refl _⟩

end ArgumentContract.CommandLine

import ArgumentContract.Proofs.Json.SpelledTree

/-!
# Printed documents are spelled

What is printed is a JSON text, on one line or spread over several ones, and both texts spell the
same document.  Blanks come from the indentation alone: it stands in front of every part of a list
or an object, and behind the last one.
-/

namespace ArgumentContract

/-- The parts of a number as it is printed. -/
def JsonNumber.parts (n : JsonNumber) : Json.NumberParts :=
  match Json.readNumberParts n.print with
  | .ok (parts, _) => parts
  | .error _ => ⟨false, [], none, none⟩

namespace Json

mutual

/-- A document as it is printed. -/
def toSource : Json → Source
  | null => .null
  | bool b => .bool b
  | number n => .number n.parts
  | string text => .string (lettersOf text)
  | array items => .array (itemSources items)
  | object members => .object (memberSources members)

def itemSources : List Json → List Source
  | [] => []
  | item :: rest => toSource item :: itemSources rest

def memberSources : List (String × Json) → List (List Letter × Source)
  | [] => []
  | (key, value) :: rest => (lettersOf key, toSource value) :: memberSources rest

end

theorem itemSources_eq_map (items : List Json) : itemSources items = items.map toSource := by
  induction items with
  | nil => rfl
  | cons item rest ih => rw [itemSources, ih, List.map_cons]

theorem memberSources_eq_map (members : List (String × Json)) :
    memberSources members =
      members.map fun member => (lettersOf member.1, member.2.toSource) := by
  induction members with
  | nil => rfl
  | cons member rest ih => rw [memberSources, ih, List.map_cons]

/-! ## Literals -/

theorem spellsLetter_escapeChar (c : Char) : SpellsLetter (escapeChar c) (.char c) := by
  unfold escapeChar
  split
  next => exact .escaped rfl
  next => exact .escaped rfl
  next => exact .escaped rfl
  next => exact .escaped rfl
  next => exact .escaped rfl
  next => exact .escaped rfl
  next => exact .escaped rfl
  next hquote hbackslash _ _ _ _ _ =>
    by_cases hcontrol : c.toNat < 0x20
    · have hleading : isLeading c.toNat = false := by
        simp [isLeading]
        omega
      have htrailing : isTrailing c.toNat = false := by
        simp [isTrailing]
        omega
      have hunit := SpellsLetter.unit (codeUnit?_hexDigit c.toNat hcontrol) hleading htrailing
      rw [Char.ofNat_toNat] at hunit
      rw [if_pos hcontrol]
      exact hunit
    · rw [if_neg hcontrol]
      exact .plain hquote hbackslash (Nat.not_lt.mp hcontrol)

theorem spellsLetters_printed (text : String) :
    SpellsLetters (text.toList.flatMap escapeChar) (lettersOf text) :=
  .flatMap fun c _ => spellsLetter_escapeChar c

theorem parts_integer (n : Int) :
    (JsonNumber.integer n).parts =
      ⟨decide (n < 0), Text.decimalDigits n.natAbs, none, none⟩ := by
  have hread := readNumberParts_integerText n (Numeral.stopsAt_nil continuesNumber)
  rw [List.append_nil] at hread
  rw [JsonNumber.parts, JsonNumber.print, hread]

theorem spellsNumber_integer (n : Int) :
    SpellsNumber (JsonNumber.integer n).print (JsonNumber.integer n).parts := by
  rw [parts_integer]
  refine ⟨[], [], ?_, ⟨⟨Text.decimalDigits_ne_nil _, fun c hmem => ?_⟩, ?_⟩, .absent, .absent⟩
  · by_cases hnegative : n < 0 <;> simp [JsonNumber.print, Text.integerText, minusSign, hnegative]
  · exact Text.isDigit_of_mem_decimalDigits hmem
  · exact Text.decimalDigits_ne_zero_cons _

/-! ## Lists and objects -/

/-- Parts of a list or an object, with `lead` in front of each of them and `trail` behind the last
one. -/
def enclosed (lead trail : List Char) (parts : List (List Char)) : List Char :=
  if parts.isEmpty then [] else lead ++ separate (',' :: lead) parts ++ trail

theorem enclosed_nil_nil (parts : List (List Char)) :
    enclosed [] [] parts = separate [','] parts := by
  cases parts <;> simp [enclosed, separate]

theorem block_eq (level : Nat) (opening closing : Char) (parts : List (List Char)) :
    block level opening closing parts =
      opening :: (enclosed (lineBreak (level + 1)) (lineBreak level) parts ++ [closing]) := by
  cases parts <;> simp [block, enclosed]

theorem isBlanks_lineBreak (level : Nat) : IsBlanks (lineBreak level) := by
  intro c hmem
  rcases List.mem_cons.mp hmem with rfl | hmem
  · rfl
  · rw [List.eq_of_mem_replicate hmem]
    rfl

variable {depth : Nat} {lead trail : List Char}

/-- Makes one part out of each item.  Only the last part has `trail` behind it. -/
def spread {α β : Type} (part : List Char → α → β) (trail : List Char) : List α → List β
  | [] => []
  | [item] => [part trail item]
  | item :: next :: rest => part [] item :: spread part trail (next :: rest)

section Spread

variable {α β : Type} {part : List Char → α → β} {items : List α}

theorem exists_of_mem_spread {x : β} (hmem : x ∈ spread part trail items) :
    ∃ item ∈ items, ∃ after, (after = [] ∨ after = trail) ∧ x = part after item := by
  induction items using spread.induct with
  | case1 => contradiction
  | case2 item =>
      rw [spread, List.mem_singleton] at hmem
      exact ⟨item, List.mem_singleton_self item, trail, Or.inr rfl, hmem⟩
  | case3 item next rest ih =>
      rw [spread, List.mem_cons] at hmem
      rcases hmem with rfl | hmem
      · exact ⟨item, List.mem_cons_self .., [], Or.inl rfl, rfl⟩
      · obtain ⟨found, hfound, hpart⟩ := ih hmem
        exact ⟨found, List.mem_cons_of_mem item hfound, hpart⟩

theorem map_spread
    {γ : Type} {f : β → γ} {g : α → γ} (hpart : ∀ after item, f (part after item) = g item) :
    (spread part trail items).map f = items.map g := by
  induction items using spread.induct with
  | case1 => rfl
  | case2 item => simp [spread, hpart]
  | case3 item next rest ih => rw [spread, List.map_cons, ih, hpart, ← List.map_cons]

theorem separate_spread
    {padded : β → List Char} {text : α → List Char}
    (hpart : ∀ after item, padded (part after item) = lead ++ (text item ++ after)) :
    separate [','] ((spread part trail items).map padded) =
      enclosed lead trail (items.map text) := by
  induction items using spread.induct with
  | case1 => rfl
  | case2 item => simp [spread, hpart, separate, enclosed]
  | case3 item next rest ih =>
      have hrest : (spread part trail (next :: rest)).map padded ≠ [] := by
        cases rest <;> simp [spread]
      obtain ⟨head, more, hcons⟩ := List.exists_cons_of_ne_nil hrest
      rw [spread, List.map_cons, hcons, separate, ← hcons, ih, hpart]
      · simp [enclosed, separate]
      · simp

end Spread

def printedElement (lead : List Char) (print : Json → List Char) (after : List Char)
    (item : Json) : Element :=
  ⟨lead, print item, after, item.toSource⟩

def printedMember (lead gap : List Char) (print : Json → List Char) (after : List Char)
    (member : String × Json) : Member where
  before := lead
  key := member.1.toList.flatMap escapeChar
  after := []
  letters := lettersOf member.1
  value := printedElement gap print after member.2

/-- A list is spelled with any blanks in front of its elements and behind the last one. -/
theorem spells_array
    {items : List Json} {print : Json → List Char} (hlead : IsBlanks lead)
    (htrail : IsBlanks trail) (hitems : ∀ item ∈ items, Spells depth (print item) item.toSource) :
    Spells (depth + 1) ('[' :: (enclosed lead trail (items.map print) ++ [']']))
      (toSource (.array items)) := by
  have htext : separate [','] ((spread (printedElement lead print) trail items).map
      Element.padded) = enclosed lead trail (items.map print) :=
    separate_spread fun _ _ => rfl
  have hsources : (spread (printedElement lead print) trail items).map Element.source =
      items.map toSource :=
    map_spread fun _ _ => rfl
  rw [← htext, toSource, itemSources_eq_map, ← hsources]
  refine .array isBlanks_nil ?_ ?_
  · intro element hmem
    obtain ⟨item, -, after, hafter, rfl⟩ := exists_of_mem_spread hmem
    rcases hafter with rfl | rfl
    · exact ⟨hlead, isBlanks_nil⟩
    · exact ⟨hlead, htrail⟩
  · intro element hmem
    obtain ⟨item, hitem, after, -, rfl⟩ := exists_of_mem_spread hmem
    exact hitems item hitem

/-- An object is spelled with any blanks in front of its members, behind the last one and behind
the colons. -/
theorem spells_object
    {members : List (String × Json)} {print : Json → List Char} {gap : List Char}
    (hlead : IsBlanks lead) (htrail : IsBlanks trail) (hgap : IsBlanks gap)
    (hmembers : ∀ member ∈ members, Spells depth (print member.2) member.2.toSource) :
    Spells (depth + 1)
      ('\x7b' :: (enclosed lead trail
        (members.map fun member => printString member.1 ++ ':' :: (gap ++ print member.2)) ++
          ['\x7d']))
      (toSource (.object members)) := by
  have htext : separate [','] ((spread (printedMember lead gap print) trail members).map
      Member.padded) = enclosed lead trail
        (members.map fun member => printString member.1 ++ ':' :: (gap ++ print member.2)) := by
    refine separate_spread fun after member => ?_
    simp [printedMember, printedElement, Member.padded, Element.padded, printString]
  have hsources : (spread (printedMember lead gap print) trail members).map Member.source =
      members.map fun member => (lettersOf member.1, member.2.toSource) :=
    map_spread fun _ _ => rfl
  rw [← htext, toSource, memberSources_eq_map, ← hsources]
  refine .object isBlanks_nil ?_ ?_
  · intro element hmem
    obtain ⟨member, -, after, hafter, rfl⟩ := exists_of_mem_spread hmem
    refine ⟨hlead, isBlanks_nil, ⟨hgap, ?_⟩, spellsLetters_printed member.1⟩
    rcases hafter with rfl | rfl
    · exact isBlanks_nil
    · exact htrail
  · intro element hmem
    obtain ⟨member, hmember, after, -, rfl⟩ := exists_of_mem_spread hmem
    exact hmembers member hmember

/-! ## Documents -/

theorem indentedItems_eq_map (level : Nat) (items : List Json) :
    indentedItems level items = items.map (indented level) := by
  induction items with
  | nil => rfl
  | cons item rest ih => rw [indentedItems, ih, List.map_cons]

theorem indentedMembers_eq_map (level : Nat) (members : List (String × Json)) :
    indentedMembers level members =
      members.map fun member => printString member.1 ++ ':' :: ' ' :: member.2.indented level := by
  induction members with
  | nil => rfl
  | cons member rest ih => rw [indentedMembers, ih, List.map_cons]

theorem Integral.spells_compact
    {document : Json} (hintegral : document.Integral) {depth : Nat}
    (hnesting : document.nesting ≤ depth) :
    Spells depth document.compact document.toSource := by
  induction hintegral generalizing depth with
  | null => exact .null depth
  | bool b => exact .bool depth b
  | integer hfits => exact .number depth (spellsNumber_integer _)
  | string text => exact .string depth (spellsLetters_printed text)
  | array hitems ih =>
      obtain ⟨depth, rfl⟩ := exists_succ_of_nesting_le hnesting (Nat.succ_pos _)
      rw [compact, compactItems_eq_map, ← enclosed_nil_nil]
      refine spells_array isBlanks_nil isBlanks_nil fun item hmem => ih item hmem ?_
      have hlt := nesting_lt_of_mem_array hmem
      omega
  | object hmembers ih =>
      obtain ⟨depth, rfl⟩ := exists_succ_of_nesting_le hnesting (Nat.succ_pos _)
      rw [compact, compactMembers_eq_map, ← enclosed_nil_nil]
      refine @spells_object _ [] [] _ compact [] isBlanks_nil isBlanks_nil isBlanks_nil
        fun member hmem => ih member hmem ?_
      have hlt := nesting_lt_of_mem_object hmem
      omega

theorem Integral.spells_indented
    {document : Json} (hintegral : document.Integral) {depth : Nat}
    (hnesting : document.nesting ≤ depth) (level : Nat) :
    Spells depth (document.indented level) document.toSource := by
  induction hintegral generalizing depth level with
  | null => exact .null depth
  | bool b => exact .bool depth b
  | integer hfits => exact .number depth (spellsNumber_integer _)
  | string text => exact .string depth (spellsLetters_printed text)
  | array hitems ih =>
      obtain ⟨depth, rfl⟩ := exists_succ_of_nesting_le hnesting (Nat.succ_pos _)
      rw [indented, indentedItems_eq_map, block_eq]
      refine spells_array (isBlanks_lineBreak _) (isBlanks_lineBreak _) fun item hmem =>
        ih item hmem ?_ _
      have hlt := nesting_lt_of_mem_array hmem
      omega
  | object hmembers ih =>
      obtain ⟨depth, rfl⟩ := exists_succ_of_nesting_le hnesting (Nat.succ_pos _)
      rw [indented, indentedMembers_eq_map, block_eq]
      have hgap : IsBlanks [' '] := by simp [IsBlanks, isBlank]
      refine @spells_object _ _ _ _ (indented (level + 1)) [' '] (isBlanks_lineBreak _)
        (isBlanks_lineBreak _) hgap fun member hmem => ih member hmem ?_ _
      have hlt := nesting_lt_of_mem_object hmem
      omega

/-- Both printed texts of a document spell it. -/
theorem Integral.spellsDocument
    {document : Json} (hintegral : document.Integral) {depth : Nat}
    (hnesting : document.nesting ≤ depth) :
    SpellsDocument depth document.toText document.toSource ∧
      SpellsDocument depth document.toIndentedText document.toSource := by
  constructor
  · exact ⟨[], _, [], by simp [toText], isBlanks_nil, isBlanks_nil,
      hintegral.spells_compact hnesting⟩
  · exact ⟨[], _, [], by simp [toIndentedText], isBlanks_nil, isBlanks_nil,
      hintegral.spells_indented hnesting 0⟩

end Json

end ArgumentContract

import ArgumentContract.Proofs.Json.Printed

/-!
# Printed documents are read back

The first character of a printed document tells what it is.  A document is read back as a tree by
induction on its parts, as long as it is not nested more deeply than the reader allows and its
numbers are integers of 64 bits.
-/

namespace ArgumentContract.Json

/-! ## Trees -/

mutual

/-- How many lists and objects of a document are open at once at most. -/
def nesting : Json → Nat
  | null | bool _ | number _ | string _ => 0
  | array items => itemsNesting items + 1
  | object members => membersNesting members + 1

def itemsNesting : List Json → Nat
  | [] => 0
  | item :: rest => max (nesting item) (itemsNesting rest)

def membersNesting : List (String × Json) → Nat
  | [] => 0
  | (_, value) :: rest => max (nesting value) (membersNesting rest)

end

theorem nesting_le_of_mem_items
    {item : Json} {items : List Json} (hmem : item ∈ items) :
    item.nesting ≤ itemsNesting items := by
  induction items with
  | nil => contradiction
  | cons head rest ih =>
      rw [itemsNesting]
      rcases List.mem_cons.mp hmem with rfl | hmem
      · exact Nat.le_max_left _ _
      · exact (ih hmem).trans (Nat.le_max_right _ _)

theorem nesting_le_of_mem_members
    {member : String × Json} {members : List (String × Json)} (hmem : member ∈ members) :
    member.2.nesting ≤ membersNesting members := by
  induction members with
  | nil => contradiction
  | cons head rest ih =>
      obtain ⟨key, value⟩ := head
      rw [membersNesting]
      rcases List.mem_cons.mp hmem with rfl | hmem
      · exact Nat.le_max_left _ _
      · exact (ih hmem).trans (Nat.le_max_right _ _)

theorem nesting_lt_of_mem_array {item : Json} {items : List Json} (hmem : item ∈ items) :
    item.nesting < (array items).nesting :=
  Nat.lt_succ_of_le (nesting_le_of_mem_items hmem)

theorem nesting_lt_of_mem_object
    {key : String} {document : Json} {members : List (String × Json)}
    (hmem : (key, document) ∈ members) :
    document.nesting < (object members).nesting :=
  Nat.lt_succ_of_le (nesting_le_of_mem_members hmem)

theorem exists_succ_of_nesting_le
    {document : Json} {depth : Nat} (hnesting : document.nesting ≤ depth)
    (hopens : 0 < document.nesting) :
    ∃ smaller, depth = smaller + 1 :=
  Nat.exists_eq_succ_of_ne_zero (by omega)

/-- All numbers of a document are integers that a literal can denote. -/
inductive Integral : Json → Prop
  | null : Integral .null
  | bool (b : Bool) : Integral (.bool b)
  | integer {n : Int} (hfits : fitsLiteral n = true) : Integral (.number (.integer n))
  | string (text : String) : Integral (.string text)
  | array {items : List Json} (hitems : ∀ item ∈ items, Integral item) :
      Integral (.array items)
  | object {members : List (String × Json)}
      (hmembers : ∀ member ∈ members, Integral member.2) : Integral (.object members)

theorem compactItems_eq_map (items : List Json) : compactItems items = items.map compact := by
  induction items with
  | nil => rfl
  | cons item rest ih => rw [compactItems, ih, List.map_cons]

theorem compactMembers_eq_map (members : List (String × Json)) :
    compactMembers members =
      members.map fun member => printString member.1 ++ ':' :: member.2.compact := by
  induction members with
  | nil => rfl
  | cons member rest ih => rw [compactMembers, ih, List.map_cons]

theorem readTree_of_atom
    {c : Char} (hblank : isBlank c = false) (hlist : c ≠ '[') (hobject : c ≠ '\x7b')
    (depth : Nat) (text : List Char) :
    readTree depth (c :: text) = readAtom (c :: text) := by
  rw [readTree.eq_def, skipBlanks_cons hblank]
  split <;> simp_all

theorem startsNumber_integerText (n : Int) :
    ∃ c more, Text.integerText n = c :: more ∧ startsNumber c = true := by
  by_cases hnegative : n < 0
  · refine ⟨'-', Text.decimalDigits n.natAbs, ?_, rfl⟩
    rw [Text.integerText, if_pos hnegative]
  · obtain ⟨c, more, hdigits, hdigit⟩ := Text.exists_decimalDigits_eq_cons n.natAbs
    refine ⟨c, more, ?_, ?_⟩
    · rw [Text.integerText, if_neg hnegative, hdigits]
    · simp [startsNumber, hdigit]

theorem ne_of_startsNumber
    {c d : Char} (hstarts : startsNumber c = true) (hd : startsNumber d = false) : c ≠ d := by
  rintro rfl
  rw [hstarts] at hd
  contradiction

theorem readAtom_of_startsNumber
    {c : Char} (hstarts : startsNumber c = true) (text : List Char) :
    readAtom (c :: text) = do
      let (n, rest) ← readNumber (c :: text)
      return (.number n, rest) := by
  have hn : c ≠ 'n' := ne_of_startsNumber hstarts rfl
  have ht : c ≠ 't' := ne_of_startsNumber hstarts rfl
  have hf : c ≠ 'f' := ne_of_startsNumber hstarts rfl
  have hquote : c ≠ '"' := ne_of_startsNumber hstarts rfl
  rw [readAtom, if_pos hstarts]
  all_goals simp [hn, ht, hf, hquote]

theorem isBlank_of_startsNumber {c : Char} (hstarts : startsNumber c = true) :
    isBlank c = false := by
  have hspace : c ≠ ' ' := ne_of_startsNumber hstarts rfl
  have htab : c ≠ '\t' := ne_of_startsNumber hstarts rfl
  have hline : c ≠ '\n' := ne_of_startsNumber hstarts rfl
  have hreturn : c ≠ '\r' := ne_of_startsNumber hstarts rfl
  simp [isBlank, hspace, htab, hline, hreturn]

theorem reads_integer
    {n : Int} (hfits : fitsLiteral n = true) (depth : Nat) :
    Reads (readTree depth) (compact (.number (.integer n))) (.number (.integer n)) := by
  obtain ⟨c, more, htext, hstarts⟩ := startsNumber_integerText n
  have hcompact : compact (.number (.integer n)) = c :: more := htext
  have hblank := isBlank_of_startsNumber hstarts
  refine ⟨⟨c, more, hcompact, hblank, ne_of_startsNumber hstarts rfl,
    ne_of_startsNumber hstarts rfl⟩, fun rest hfollows => ?_⟩
  have hnumber := readNumber_print hfits hfollows.endsNumber
  rw [JsonNumber.print, htext, List.cons_append] at hnumber
  rw [hcompact, List.cons_append]
  rw [readTree_of_atom hblank (ne_of_startsNumber hstarts rfl) (ne_of_startsNumber hstarts rfl),
    readAtom_of_startsNumber hstarts, hnumber]
  rfl

theorem reads_string (text : String) (depth : Nat) :
    Reads (readTree depth) (compact (.string text)) (.string text) := by
  refine ⟨⟨'"', _, rfl, rfl, by decide, by decide⟩, fun rest _ => ?_⟩
  rw [compact, printString_append, readTree_of_atom rfl (by decide) (by decide), readAtom,
    readString_printed]
  rfl

/-- The word of null or of a truth value. -/
theorem reads_word
    {c : Char} {word : List Char} {document : Json}
    (hstarts : isBlank c = false ∧ c ≠ ',' ∧ c ≠ ']' ∧ c ≠ '[' ∧ c ≠ '\x7b')
    (hatom : ∀ rest, readAtom (c :: (word ++ rest)) = .ok (document, rest)) (depth : Nat) :
    Reads (readTree depth) (c :: word) document := by
  obtain ⟨hblank, hcomma, hclose, hlist, hobject⟩ := hstarts
  refine ⟨⟨c, word, rfl, hblank, hcomma, hclose⟩, fun rest _ => ?_⟩
  rw [List.cons_append, readTree_of_atom hblank hlist hobject, hatom]

theorem readTree_array
    {items : List Json} {depth : Nat} {parts : List (List Char)}
    (hparts : List.Forall₂ (Reads (readTree depth)) parts items) (rest : List Char) :
    readTree (depth + 1) ('[' :: (separate [','] parts ++ ']' :: rest)) =
      .ok (.array items, rest) := by
  rw [readTree.eq_def, skipBlanks_cons rfl]
  simp only [bind, Except.bind, readItems_printed hparts]
  rfl

theorem readTree_object
    {members : List (String × Json)} {depth : Nat} {parts : List (List Char)}
    (hparts : List.Forall₂ (ReadsMember (readTree depth)) parts members) (rest : List Char) :
    readTree (depth + 1) ('\x7b' :: (separate [','] parts ++ '\x7d' :: rest)) =
      .ok (.object members, rest) := by
  rw [readTree.eq_def, skipBlanks_cons rfl]
  simp only [bind, Except.bind, readMembers_printed hparts]
  rfl

/-- A printed document whose numbers are integers of 64 bits is read back, if it is not nested too
deeply. -/
theorem Integral.reads_compact
    {document : Json} (hintegral : document.Integral) {depth : Nat}
    (hnesting : document.nesting ≤ depth) :
    Reads (readTree depth) document.compact document := by
  induction hintegral generalizing depth with
  | null => exact reads_word (by decide) (fun rest => rfl) depth
  | bool b => cases b <;> exact reads_word (by decide) (fun rest => rfl) depth
  | integer hfits => exact reads_integer hfits depth
  | string text => exact reads_string text depth
  | @array items hitems ih =>
      obtain ⟨depth, rfl⟩ := exists_succ_of_nesting_le hnesting (Nat.succ_pos _)
      have hparts : List.Forall₂ (Reads (readTree depth)) (compactItems items) items := by
        rw [compactItems_eq_map, List.forall₂_map_left_iff, List.forall₂_same]
        intro item hmem
        have hlt := nesting_lt_of_mem_array hmem
        exact ih item hmem (by omega)
      refine ⟨startsPart_bracket _, fun rest _ => ?_⟩
      rw [compact, ← readTree_array hparts rest]
      simp
  | @object members hmembers ih =>
      obtain ⟨depth, rfl⟩ := exists_succ_of_nesting_le hnesting (Nat.succ_pos _)
      have hparts :
          List.Forall₂ (ReadsMember (readTree depth)) (compactMembers members) members := by
        rw [compactMembers_eq_map, List.forall₂_map_left_iff, List.forall₂_same]
        intro member hmem
        have hlt := nesting_lt_of_mem_object hmem
        exact ⟨_, rfl, ih member hmem (by omega)⟩
      refine ⟨startsPart_brace _, fun rest _ => ?_⟩
      rw [compact, ← readTree_object hparts rest]
      simp

/-! ## Documents of a known shape -/

theorem reads_array
    {α : Type} {item : Nat → Reader α} {depth : Nat} {documents : List Json} {found : List α}
    (hnesting : (array documents).nesting ≤ depth)
    (hitems : List.Forall₂
      (fun document x => ∀ limit, document.nesting ≤ limit →
        Reads (item limit) document.compact x) documents found) :
    Reads (readList item depth) (array documents).compact found := by
  obtain ⟨depth, rfl⟩ := exists_succ_of_nesting_le hnesting (Nat.succ_pos _)
  have hparts : List.Forall₂ (Reads (item depth)) (compactItems documents) found := by
    rw [compactItems_eq_map, List.forall₂_map_left_iff, List.forall₂_iff_get]
    obtain ⟨hlength, hget⟩ := List.forall₂_iff_get.mp hitems
    refine ⟨hlength, fun index hleft hright => hget index hleft hright depth ?_⟩
    have hlt := nesting_lt_of_mem_array (List.get_mem documents ⟨index, hleft⟩)
    omega
  exact reads_readList hparts

theorem readDocument_toText
    {α : Type} {reader : Nat → Reader α} {document : Json} {found : α}
    (hreads : Reads (reader nestingLimit) document.compact found) :
    readDocument reader document.toText = .ok found := by
  have hread := hreads.eq_ok [] follows_nil
  rw [List.append_nil] at hread
  rw [readDocument, toText, String.toList_ofList, hread]
  rfl

end ArgumentContract.Json

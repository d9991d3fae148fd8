import ArgumentContract.Proofs.Json.PrintedTree
import ArgumentContract.Proofs.Json.SpelledLiterals

/-!
# Spelled documents are read

What a reader makes of a text depends on the document alone that the text spells.  `Understands`
says so of a reader and of a function on documents; the function gives nothing where the reader
finds a fault.  A list is understood if its elements are, and so is an object with its members.
-/

namespace ArgumentContract.Json

/-! ## Readers and documents -/

theorem toOption_bind {ε α β : Type} (result : Except ε α) (next : α → Except ε β) :
    (result >>= next).toOption = result.toOption.bind fun x => (next x).toOption := by
  cases result <;> rfl

theorem toOption_ok {ε α : Type} (x : α) : (Except.ok x : Except ε α).toOption = some x := rfl

theorem ok_bind {ε α β : Type} (x : α) (next : α → Except ε β) :
    (Except.ok x >>= next) = next x := rfl

theorem eq_ok_of_toOption {ε α : Type} {result : Except ε α} {found : α}
    (hresult : result.toOption = some found) : result = .ok found := by
  cases result with
  | ok x => exact congrArg Except.ok (Option.some.inj hresult)
  | error fault => contradiction

/-- What a reader makes of a part of a text, whatever blanks stand in front of the part and
whatever follows it; `none` for a fault. -/
def ReadsAs {α : Type} (reader : Reader α) (text : List Char) (found : Option α) : Prop :=
  ∀ before rest, IsBlanks before → EndsNumber rest →
    (reader (before ++ (text ++ rest))).toOption = found.map (·, rest)

/-- A reader makes of a text what a function makes of the document that the text spells. -/
def Understands {α : Type} (depth : Nat) (reader : Reader α) (read : Source → Option α) : Prop :=
  ∀ text source, Spells depth text source → ReadsAs reader text (read source)

theorem isBlanks_nil : IsBlanks [] := by
  intro c hmem
  contradiction

theorem Understands.readDocument
    {α : Type} {reader : Nat → Reader α} {read : Source → Option α}
    (hreader : Understands nestingLimit (reader nestingLimit) read) {text : String}
    {source : Source} (hspells : SpellsDocument nestingLimit text source) :
    (readDocument reader text).toOption = read source := by
  obtain ⟨before, core, after, htext, hbefore, hafter, hcore⟩ := hspells
  have hends : EndsNumber after := by
    have happend := hafter.endsNumber_append (Numeral.stopsAt_nil continuesNumber)
    rw [List.append_nil] at happend
    exact happend
  have hread := hreader core source hcore before after hbefore hends
  have hempty : (skipBlanks after).isEmpty = true := by rw [skipBlanks_of_isBlanks hafter]; rfl
  rw [Json.readDocument, htext, toOption_bind, hread]
  cases read source with
  | none => rfl
  | some found =>
      simp only [Option.map_some, Option.bind_some, hempty, if_true]
      rfl

theorem Spells.startsPart
    {depth : Nat} {text : List Char} {source : Source} (hspells : Spells depth text source) :
    StartsPart text := by
  cases hspells with
  | null => exact ⟨'n', _, rfl, rfl, by decide, by decide⟩
  | bool _ b =>
      cases b
      · exact ⟨'f', _, rfl, rfl, by decide, by decide⟩
      · exact ⟨'t', _, rfl, rfl, by decide, by decide⟩
  | number _ hnumber =>
      obtain ⟨c, more, rfl, hstarts⟩ := hnumber.exists_cons
      exact ⟨c, more, rfl, isBlank_of_startsNumber hstarts, ne_of_startsNumber hstarts rfl,
        ne_of_startsNumber hstarts rfl⟩
  | string _ hletters => exact ⟨'"', _, rfl, rfl, by decide, by decide⟩
  | array _ _ _ => exact startsPart_bracket _
  | object _ _ _ => exact startsPart_brace _

theorem StartsPart.skipBlanks_append
    {text : List Char} (hstarts : StartsPart text) {blanks : List Char}
    (hblanks : IsBlanks blanks) (rest : List Char) :
    skipBlanks (blanks ++ (text ++ rest)) = text ++ rest := by
  obtain ⟨c, more, rfl, hblank, -, -⟩ := hstarts
  exact skipBlanks_append_cons hblanks hblank (more ++ rest)

/-! ## Elements of a list -/

theorem nextItem_append {blanks : List Char} (hblanks : IsBlanks blanks) (first : Bool)
    (text : List Char) :
    nextItem first (blanks ++ text) = nextItem first text := by
  rw [nextItem, nextItem, skipBlanks_append hblanks]

theorem nextItem_closing (first : Bool) {blanks : List Char} (hblanks : IsBlanks blanks)
    (rest : List Char) :
    nextItem first (blanks ++ ']' :: rest) = .ok (.closed rest) := by
  rw [nextItem_append hblanks]
  cases first <;> rfl

theorem StartsPart.nextItem_padded
    {text : List Char} (hstarts : StartsPart text) (first : Bool) {blanks before : List Char}
    (hblanks : IsBlanks blanks) (hbefore : IsBlanks before) (rest : List Char) :
    Json.nextItem first (blanks ++ (comma first ++ (before ++ (text ++ rest)))) =
      .ok (.element (text ++ rest)) := by
  rw [nextItem_append hblanks]
  cases first with
  | true =>
      have hitem := hstarts.nextItem true rest
      rw [show comma true = [] from rfl, List.nil_append] at hitem ⊢
      rw [nextItem_append hbefore, hitem]
  | false =>
      have hskip := hstarts.skipBlanks_append hbefore rest
      obtain ⟨c, more, rfl, hblank, hcomma, hclose⟩ := hstarts
      change Json.nextItem false (',' :: (before ++ (c :: more ++ rest))) = _
      rw [Json.nextItem, skipBlanks_cons rfl]
      simp only [List.cons_append]
      split <;> simp_all

theorem endsNumber_separated
    {closing : Char} (hclosing : closing = ']' ∨ closing = '\x7d') {blanks : List Char}
    (hblanks : IsBlanks blanks) (parts : List (List Char)) (rest : List Char) :
    EndsNumber (blanks ++ (separated false parts ++ closing :: rest)) :=
  hblanks.endsNumber_append (follows_separated hclosing parts rest).endsNumber

theorem readItems_spelled
    {α : Type} {depth : Nat} {item : Reader α} {read : Source → Option α}
    (hitem : Understands depth item read) {elements : List Element}
    (hpadded : ∀ element ∈ elements, element.IsPadded)
    (hspells : ∀ element ∈ elements, Spells depth element.text element.source)
    (first : Bool) {count : Nat} (hcount : elements.length < count) {blanks : List Char}
    (hblanks : IsBlanks blanks) (rest : List Char) :
    (readItems item count first
        (blanks ++ (separated first (elements.map Element.padded) ++ ']' :: rest))).toOption =
      ((elements.map Element.source).mapM read).map (·, rest) := by
  induction elements generalizing first count blanks with
  | nil =>
      obtain ⟨count, rfl⟩ := Nat.exists_eq_add_of_lt hcount
      rw [List.map_nil, separated_nil, List.nil_append, readItems, nextItem_closing _ hblanks]
      rfl
  | cons element elements ih =>
      obtain ⟨count, rfl⟩ : ∃ smaller, count = smaller + 1 := ⟨count - 1, by omega⟩
      rw [List.forall_mem_cons] at hpadded hspells
      obtain ⟨⟨hbefore, hafter⟩, hpadded⟩ := hpadded
      obtain ⟨hhead, hspells⟩ := hspells
      have hrest := ih hpadded hspells false (Nat.lt_of_succ_lt_succ hcount) hafter
      have hread := hitem _ _ hhead [] _ isBlanks_nil
        (endsNumber_separated (Or.inl rfl) hafter (elements.map Element.padded) rest)
      rw [List.nil_append] at hread
      simp only [List.map_cons, separated_cons, Element.padded, List.append_assoc]
      rw [readItems, hhead.startsPart.nextItem_padded first hblanks hbefore]
      simp only [ok_bind, toOption_bind, hread, List.mapM_cons]
      cases read element.source with
      | none => rfl
      | some head =>
          simp only [Option.map_some, Option.bind_some, hrest]
          cases (elements.map Element.source).mapM read <;> rfl

theorem length_lt_padded
    {parts : List (List Char)} (hne : ∀ part ∈ parts, part ≠ []) (first : Bool)
    (blanks : List Char) (closing : Char) (rest : List Char) :
    parts.length < (blanks ++ (separated first parts ++ closing :: rest)).length := by
  have hlength := length_lt_separated_append hne first closing rest
  rw [List.length_append]
  omega

theorem padded_ne_nil
    {depth : Nat} {elements : List Element}
    (hspells : ∀ element ∈ elements, Spells depth element.text element.source) :
    ∀ part ∈ elements.map Element.padded, part ≠ [] := by
  rw [List.forall_mem_map]
  intro element hmem
  simp [Element.padded, (hspells element hmem).startsPart.ne_nil]

/-- The elements of a list are understood one by one, and a fault in one is a fault of the list. -/
theorem toOption_readItems
    {α : Type} {depth : Nat} {item : Reader α} {read : Source → Option α}
    (hitem : Understands depth item read) {elements : List Element}
    (hpadded : ∀ element ∈ elements, element.IsPadded)
    (hspells : ∀ element ∈ elements, Spells depth element.text element.source)
    {blanks : List Char} (hblanks : IsBlanks blanks) (rest : List Char) :
    let text := blanks ++ (separate [','] (elements.map Element.padded) ++ ']' :: rest)
    (readItems item text.length true text).toOption =
      ((elements.map Element.source).mapM read).map (·, rest) := by
  have hcount := length_lt_padded (padded_ne_nil hspells) true blanks ']' rest
  rw [List.length_map] at hcount
  exact readItems_spelled hitem hpadded hspells true hcount hblanks rest

/-! ## Members of an object -/

theorem nextKey_append {blanks : List Char} (hblanks : IsBlanks blanks) (first : Bool)
    (text : List Char) :
    nextKey first (blanks ++ text) = nextKey first text := by
  rw [nextKey, nextKey, skipBlanks_append hblanks]

theorem nextKey_closing (first : Bool) {blanks : List Char} (hblanks : IsBlanks blanks)
    (rest : List Char) :
    nextKey first (blanks ++ '\x7d' :: rest) = .ok (.closed rest) := by
  rw [nextKey_append hblanks]
  cases first <;> rfl

theorem nextKey_quote (first : Bool) {blanks before : List Char} (hblanks : IsBlanks blanks)
    (hbefore : IsBlanks before) (rest : List Char) :
    nextKey first (blanks ++ (comma first ++ (before ++ '"' :: rest))) = .ok (.element rest) := by
  rw [nextKey_append hblanks]
  cases first with
  | true => exact nextKey_append hbefore true ('"' :: rest)
  | false =>
      have hskip : skipBlanks (before ++ '"' :: rest) = '"' :: rest :=
        skipBlanks_append_cons hbefore rfl rest
      change nextKey false (',' :: (before ++ '"' :: rest)) = _
      rw [nextKey, skipBlanks_cons rfl]
      simp only [hskip, Bool.false_eq_true, if_false]

theorem readColon_append {blanks : List Char} (hblanks : IsBlanks blanks) (rest : List Char) :
    readColon (blanks ++ ':' :: rest) = .ok rest := by
  rw [readColon, skipBlanks_append_cons hblanks rfl]
  rfl

theorem readMembers_spelled
    {α : Type} {depth : Nat} {value : Reader α} {read : Source → Option α}
    (hvalue : Understands depth value read) {members : List Member}
    (hkeyed : ∀ member ∈ members, member.IsKeyed)
    (hspells : ∀ member ∈ members, Spells depth member.value.text member.value.source)
    (first : Bool) {count : Nat} (hcount : members.length < count) {blanks : List Char}
    (hblanks : IsBlanks blanks) (rest : List Char) :
    (readMembers value count first
        (blanks ++ (separated first (members.map Member.padded) ++ '\x7d' :: rest))).toOption =
      ((members.map Member.source).mapM (Source.member? read)).map (·, rest) := by
  induction members generalizing first count blanks with
  | nil =>
      obtain ⟨count, rfl⟩ := Nat.exists_eq_add_of_lt hcount
      rw [List.map_nil, separated_nil, List.nil_append, readMembers, nextKey_closing _ hblanks]
      rfl
  | cons member members ih =>
      obtain ⟨count, rfl⟩ : ∃ smaller, count = smaller + 1 := ⟨count - 1, by omega⟩
      rw [List.forall_mem_cons] at hkeyed hspells
      obtain ⟨⟨hbefore, hafter, hpadded, hletters⟩, hkeyed⟩ := hkeyed
      obtain ⟨hhead, hspells⟩ := hspells
      have hrest := ih hkeyed hspells false (Nat.lt_of_succ_lt_succ hcount) hpadded.2
      have hread := hvalue _ _ hhead member.value.before _ hpadded.1
        (endsNumber_separated (Or.inr rfl) hpadded.2 (members.map Member.padded) rest)
      simp only [List.map_cons, separated_cons, Member.padded, Element.padded, List.append_assoc,
        List.cons_append]
      rw [readMembers, nextKey_quote first hblanks hbefore]
      simp only [ok_bind, toOption_bind, hletters.toOption_readString, List.mapM_cons,
        Member.source, Source.member?]
      cases textOf? member.letters with
      | none => rfl
      | some key =>
          simp only [Option.map_some, Option.bind_some, readColon_append hafter, toOption_ok, hread]
          cases read member.value.source with
          | none => rfl
          | some head =>
              simp only [Option.map_some, Option.bind_some, hrest]
              cases (members.map Member.source).mapM (Source.member? read) <;> rfl

theorem keyed_ne_nil (members : List Member) :
    ∀ part ∈ members.map Member.padded, part ≠ [] := by
  rw [List.forall_mem_map]
  intro member hmem
  simp [Member.padded]

/-- The members of an object are understood one by one, and a fault in one is a fault of the
object. -/
theorem toOption_readMembers
    {α : Type} {depth : Nat} {value : Reader α} {read : Source → Option α}
    (hvalue : Understands depth value read) {members : List Member}
    (hkeyed : ∀ member ∈ members, member.IsKeyed)
    (hspells : ∀ member ∈ members, Spells depth member.value.text member.value.source)
    {blanks : List Char} (hblanks : IsBlanks blanks) (rest : List Char) :
    let text := blanks ++ (separate [','] (members.map Member.padded) ++ '\x7d' :: rest)
    (readMembers value text.length true text).toOption =
      ((members.map Member.source).mapM (Source.member? read)).map (·, rest) := by
  have hcount := length_lt_padded (keyed_ne_nil members) true blanks '\x7d' rest
  rw [List.length_map] at hcount
  exact readMembers_spelled hvalue hkeyed hspells true hcount hblanks rest

/-! ## Documents -/

theorem readTree_of_opening
    {c : Char} (hblank : isBlank c = false) (hlist : c ≠ '[') (hobject : c ≠ '\x7b')
    (depth : Nat) {before : List Char} (hbefore : IsBlanks before) (text : List Char) :
    readTree depth (before ++ c :: text) = readAtom (c :: text) := by
  rw [← readTree_of_atom hblank hlist hobject depth text, readTree.eq_def, readTree.eq_def,
    skipBlanks_append hbefore]

/-- A document of any shape is read as the document that its text spells. -/
theorem understands_readTree (depth : Nat) :
    Understands depth (readTree depth) Source.document? := by
  induction depth using Nat.strong_induction_on with
  | h depth ih =>
      intro text source hspells before rest hbefore hrest
      cases hspells with
      | null =>
          rw [show "null".toList = 'n' :: "ull".toList from rfl, List.cons_append,
            readTree_of_opening rfl (by decide) (by decide) _ hbefore]
          rfl
      | bool _ b =>
          cases b with
          | false =>
              change (readTree depth (before ++ 'f' :: ("alse".toList ++ rest))).toOption = _
              rw [readTree_of_opening rfl (by decide) (by decide) _ hbefore]
              rfl
          | true =>
              change (readTree depth (before ++ 't' :: ("rue".toList ++ rest))).toOption = _
              rw [readTree_of_opening rfl (by decide) (by decide) _ hbefore]
              rfl
      | @number _ _ parts hnumber =>
          have hread := hnumber.toOption_readNumber hrest
          obtain ⟨c, more, rfl, hstarts⟩ := hnumber.exists_cons
          rw [List.cons_append] at hread ⊢
          rw [readTree_of_opening (isBlank_of_startsNumber hstarts)
            (ne_of_startsNumber hstarts rfl) (ne_of_startsNumber hstarts rfl) _ hbefore,
            readAtom_of_startsNumber hstarts, toOption_bind, hread, Source.document?]
          cases parts.number? <;> rfl
      | @string _ text letters hletters =>
          have hread := hletters.toOption_readString rest
          rw [List.cons_append, List.append_assoc, List.singleton_append,
            readTree_of_opening rfl (by decide) (by decide) _ hbefore, readAtom, toOption_bind,
            hread, Source.document?]
          cases textOf? letters <;> rfl
      | @array depth blanks elements hblanks hpadded hspells =>
          have hitems := toOption_readItems (ih depth (Nat.lt_succ_self depth)) hpadded hspells
            hblanks rest
          rw [readTree.eq_def, List.cons_append, skipBlanks_append_cons hbefore rfl]
          simp only [toOption_bind, List.append_assoc, List.singleton_append]
          rw [hitems, Source.document?, Source.itemDocuments?_eq_mapM]
          cases (elements.map Element.source).mapM Source.document? <;> rfl
      | @object depth blanks members hblanks hkeyed hspells =>
          have hmembers := toOption_readMembers (ih depth (Nat.lt_succ_self depth)) hkeyed hspells
            hblanks rest
          rw [readTree.eq_def, List.cons_append, skipBlanks_append_cons hbefore rfl]
          simp only [toOption_bind, List.append_assoc, List.singleton_append]
          rw [hmembers, Source.document?, Source.memberDocuments?_eq_mapM]
          cases (members.map Member.source).mapM (Source.member? Source.document?) <;> rfl

end ArgumentContract.Json

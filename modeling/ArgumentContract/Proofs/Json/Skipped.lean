import ArgumentContract.Json.Skipping
import ArgumentContract.Proofs.Json.SpelledTree

/-!
# Spelled documents are passed over

Whatever a document holds, passing over it leaves the text behind it: numbers may be out of range,
and halves may stand alone.  It takes fewer steps than twice the characters of the document, so that
the steps allowed for a text are enough for any document in front of it.
-/

namespace ArgumentContract.Json

variable {container : Container} {stack : List Container} {count : Nat}

/-! ## Single steps -/

theorem skipOpen_value_append
    {before : List Char} (hbefore : IsBlanks before) (count : Nat) (stack : List Container)
    (text : List Char) :
    skipOpen count .value stack (before ++ text) = skipOpen count .value stack text := by
  cases count with
  | zero => rfl
  | succ count => rw [skipOpen, skipOpen, skipBlanks_append hbefore]

theorem skipOpen_ended_append
    {after : List Char} (hafter : IsBlanks after) (count : Nat) (text : List Char) :
    skipOpen count .ended (container :: stack) (after ++ text) =
      skipOpen count .ended (container :: stack) text := by
  cases count with
  | zero => rfl
  | succ count => rw [skipOpen, skipOpen, skipBlanks_append hafter]

theorem skipOpen_opened_append
    {blanks : List Char} (hblanks : IsBlanks blanks) (count : Nat) (text : List Char) :
    skipOpen count .opened (container :: stack) (blanks ++ text) =
      skipOpen count .opened (container :: stack) text := by
  cases count with
  | zero => rfl
  | succ count => rw [skipOpen, skipOpen, skipBlanks_append hblanks]

theorem isBlank_closing (container : Container) : isBlank container.closing = false := by
  cases container <;> rfl

theorem skipOpen_opened_closing (count : Nat) (rest : List Char) :
    skipOpen (count + 1) .opened (container :: stack) (container.closing :: rest) =
      skipOpen count .ended stack rest := by
  rw [skipOpen, skipBlanks_cons (isBlank_closing container)]
  simp

theorem skipOpen_ended_closing (count : Nat) (rest : List Char) :
    skipOpen (count + 1) .ended (container :: stack) (container.closing :: rest) =
      skipOpen count .ended stack rest := by
  rw [skipOpen, skipBlanks_cons (isBlank_closing container)]
  simp

theorem skipOpen_ended_comma (count : Nat) (text : List Char) :
    skipOpen (count + 1) .ended (container :: stack) (',' :: text) =
      container.enter text >>= skipOpen count .value (container :: stack) := by
  have hclosing : ',' ≠ container.closing := by cases container <;> decide
  rw [skipOpen, skipBlanks_cons rfl]
  simp [hclosing]

theorem enter_skipBlanks (text : List Char) :
    container.enter (skipBlanks text) >>= skipOpen count .value (container :: stack) =
      container.enter text >>= skipOpen count .value (container :: stack) := by
  obtain ⟨blanks, htext, hblanks⟩ := exists_blanks text
  cases container with
  | list =>
      have hvalue := skipOpen_value_append hblanks count (.list :: stack) (skipBlanks text)
      rw [← htext] at hvalue
      exact hvalue.symm
  | object =>
      have hskip := skipBlanks_append hblanks (skipBlanks text)
      rw [← htext] at hskip
      rw [Container.enter, Container.enter, skipKey, skipKey, ← hskip]

theorem skipOpen_opened_part
    {text more : List Char} {c : Char} (hskip : skipBlanks text = c :: more)
    (hclosing : c ≠ container.closing) (count : Nat) :
    skipOpen (count + 1) .opened (container :: stack) text =
      container.enter text >>= skipOpen count .value (container :: stack) := by
  rw [← enter_skipBlanks, skipOpen, hskip]
  simp only [hclosing, if_false]

/-! ## Parts of a container -/

/-- A text starts, behind any blanks, with a character other than the end of the container. -/
def Container.Opens (container : Container) (part : List Char) : Prop :=
  ∀ rest, ∃ c more, skipBlanks (part ++ rest) = c :: more ∧ c ≠ container.closing

/-- A part of a container is passed over in fewer steps than twice its characters. -/
def Container.Passes (container : Container) (part : List Char) : Prop :=
  ∃ used < 2 * part.length, ∀ count stack rest, EndsNumber rest →
    container.enter (part ++ rest) >>= skipOpen (count + used) .value (container :: stack) =
      skipOpen count .ended (container :: stack) rest

theorem Container.closing_eq (container : Container) :
    container.closing = ']' ∨ container.closing = '\x7d' := by
  cases container with
  | list => exact Or.inl rfl
  | object => exact Or.inr rfl

theorem skipOpen_ended_parts
    {parts : List (List Char)} (hparts : ∀ part ∈ parts, container.Passes part) :
    ∃ used ≤ 2 * (separated false parts).length + 1, ∀ count stack rest,
      skipOpen (count + used) .ended (container :: stack)
          (separated false parts ++ container.closing :: rest) =
        skipOpen count .ended stack rest := by
  induction parts with
  | nil => exact ⟨1, by simp, fun count stack rest => skipOpen_ended_closing count rest⟩
  | cons part parts ih =>
      rw [List.forall_mem_cons] at hparts
      obtain ⟨usedPart, hlePart, hpart⟩ := hparts.1
      obtain ⟨used, hle, hrest⟩ := ih hparts.2
      refine ⟨used + usedPart + 1, ?_, fun count stack rest => ?_⟩
      · simp only [separated_cons, comma, Bool.false_eq_true, if_false, List.length_append,
          List.length_singleton]
        omega
      · have hends := endsNumber_separated container.closing_eq isBlanks_nil parts rest
        rw [List.nil_append] at hends
        simp only [separated_cons, comma, Bool.false_eq_true, if_false, List.append_assoc,
          List.cons_append, List.nil_append, ← Nat.add_assoc]
        rw [skipOpen_ended_comma, hpart _ _ _ hends, hrest]

theorem skipOpen_opened_parts
    {parts : List (List Char)} (hopens : ∀ part ∈ parts, container.Opens part)
    (hparts : ∀ part ∈ parts, container.Passes part) :
    ∃ used ≤ 2 * (separate [','] parts).length + 1, ∀ count stack rest,
      skipOpen (count + used) .opened (container :: stack)
          (separate [','] parts ++ container.closing :: rest) =
        skipOpen count .ended stack rest := by
  cases parts with
  | nil => exact ⟨1, by simp, fun count stack rest => skipOpen_opened_closing count rest⟩
  | cons part parts =>
      rw [List.forall_mem_cons] at hopens hparts
      obtain ⟨usedPart, hlePart, hpart⟩ := hparts.1
      obtain ⟨used, hle, hrest⟩ := skipOpen_ended_parts hparts.2
      have hseparate : separate [','] (part :: parts) = part ++ separated false parts :=
        separate_cons part parts
      refine ⟨used + usedPart + 1, ?_, fun count stack rest => ?_⟩
      · rw [hseparate, List.length_append]
        omega
      · have hends := endsNumber_separated container.closing_eq isBlanks_nil parts rest
        rw [List.nil_append] at hends
        obtain ⟨c, more, hskip, hclosing⟩ :=
          hopens.1 (separated false parts ++ container.closing :: rest)
        rw [hseparate, List.append_assoc, ← Nat.add_assoc, ← Nat.add_assoc,
          skipOpen_opened_part hskip hclosing, hpart _ _ _ hends, hrest]

/-! ## Documents -/

/-- A document is passed over in fewer steps than twice its characters. -/
def Skips (text : List Char) : Prop :=
  ∃ used < 2 * text.length, ∀ count stack before rest, IsBlanks before → EndsNumber rest →
    skipOpen (count + used) .value stack (before ++ (text ++ rest)) =
      skipOpen count .ended stack rest

theorem skips_of_skipAtom
    {c : Char} {text : List Char} (hblank : isBlank c = false) (hlist : c ≠ '[')
    (hobject : c ≠ '\x7b')
    (hatom : ∀ rest, EndsNumber rest → skipAtom (c :: text ++ rest) = .ok rest) :
    Skips (c :: text) := by
  refine ⟨1, by simp; omega, fun count stack before rest hbefore hrest => ?_⟩
  have hskip := hatom rest hrest
  rw [List.cons_append] at hskip ⊢
  rw [skipOpen_value_append hbefore, skipOpen, skipBlanks_cons hblank]
  split
  next heq => exact absurd (List.cons.inj heq).1 hlist
  next heq => exact absurd (List.cons.inj heq).1 hobject
  next => simp only [hskip, ok_bind]

theorem skipAtom_of_startsNumber {c : Char} (hstarts : startsNumber c = true) (text : List Char) :
    skipAtom (c :: text) = skipNumber (c :: text) := by
  have hn : c ≠ 'n' := ne_of_startsNumber hstarts rfl
  have ht : c ≠ 't' := ne_of_startsNumber hstarts rfl
  have hf : c ≠ 'f' := ne_of_startsNumber hstarts rfl
  have hquote : c ≠ '"' := ne_of_startsNumber hstarts rfl
  rw [skipAtom, if_pos hstarts]
  all_goals simp [hn, ht, hf, hquote]

/-- A list or an object is passed over if its parts are. -/
theorem skips_container
    (container : Container) {opening : Char} {blanks : List Char} (hblanks : IsBlanks blanks)
    (hopening : ∀ count stack text, skipOpen (count + 1) .value stack (opening :: text) =
      skipOpen count .opened (container :: stack) text)
    {parts : List (List Char)} (hopens : ∀ part ∈ parts, container.Opens part)
    (hparts : ∀ part ∈ parts, container.Passes part) :
    Skips (opening :: (blanks ++ (separate [','] parts ++ [container.closing]))) := by
  obtain ⟨used, hle, hopened⟩ := skipOpen_opened_parts hopens hparts
  refine ⟨used + 1, ?_, fun count stack before rest hbefore _ => ?_⟩
  · simp only [List.length_cons, List.length_append, List.length_nil]
    omega
  · simp only [List.cons_append, List.append_assoc, List.nil_append]
    rw [skipOpen_value_append hbefore, ← Nat.add_assoc, hopening,
      skipOpen_opened_append hblanks, hopened]

theorem skipBlanks_eq_of_startsPart
    {part before : List Char} (hstarts : StartsPart part) (hbefore : IsBlanks before)
    (rest : List Char) :
    ∃ c more, skipBlanks (before ++ (part ++ rest)) = c :: more ∧ c ≠ ']' := by
  have hskip := hstarts.skipBlanks_append hbefore rest
  obtain ⟨c, more, rfl, -, -, hclosing⟩ := hstarts
  exact ⟨c, more ++ rest, hskip, hclosing⟩

theorem Element.IsPadded.opens
    {element : Element} (hpadded : element.IsPadded) (hstarts : StartsPart element.text) :
    Container.list.Opens element.padded := by
  intro rest
  simp only [Element.padded, List.append_assoc]
  exact skipBlanks_eq_of_startsPart hstarts hpadded.1 _

theorem Element.IsPadded.passes
    {element : Element} (hpadded : element.IsPadded) (hskips : Skips element.text) :
    Container.list.Passes element.padded := by
  obtain ⟨used, hlt, hskip⟩ := hskips
  refine ⟨used, ?_, fun count stack rest hrest => ?_⟩
  · simp only [Element.padded, List.length_append]
    omega
  · have hends := hpadded.2.endsNumber_append hrest
    simp only [Element.padded, List.append_assoc, Container.enter, ok_bind]
    rw [hskip count _ _ _ hpadded.1 hends, skipOpen_ended_append hpadded.2]

theorem Member.IsKeyed.opens {member : Member} (hkeyed : member.IsKeyed) :
    Container.object.Opens member.padded := by
  intro rest
  simp only [Member.padded, List.append_assoc, List.cons_append]
  exact ⟨'"', _, skipBlanks_append_cons hkeyed.before rfl _, by decide⟩

theorem Member.IsKeyed.skipKey_append
    {member : Member} (hkeyed : member.IsKeyed) (rest : List Char) :
    skipKey (member.padded ++ rest) = .ok (member.value.padded ++ rest) := by
  simp only [Member.padded, List.append_assoc, List.cons_append]
  rw [skipKey, skipBlanks_append_cons hkeyed.before rfl]
  simp only [hkeyed.letters.skipString_append, ok_bind]
  exact readColon_append hkeyed.after _

theorem Member.IsKeyed.passes
    {member : Member} (hkeyed : member.IsKeyed) (hskips : Skips member.value.text) :
    Container.object.Passes member.padded := by
  obtain ⟨used, hlt, hskip⟩ := hskips
  refine ⟨used, ?_, fun count stack rest hrest => ?_⟩
  · simp only [Member.padded, Element.padded, List.length_append, List.length_cons]
    omega
  · have hends := hkeyed.value.2.endsNumber_append hrest
    rw [Container.enter, hkeyed.skipKey_append]
    simp only [Element.padded, List.append_assoc, ok_bind]
    rw [hskip count _ _ _ hkeyed.value.1 hends, skipOpen_ended_append hkeyed.value.2]

theorem Spells.skips {depth : Nat} {text : List Char} {source : Source}
    (hspells : Spells depth text source) : Skips text := by
  induction hspells with
  | null => exact skips_of_skipAtom rfl (by decide) (by decide) fun rest _ => rfl
  | bool _ b =>
      cases b <;> exact skips_of_skipAtom rfl (by decide) (by decide) fun rest _ => rfl
  | number _ hnumber =>
      obtain ⟨c, more, rfl, hstarts⟩ := hnumber.exists_cons
      refine skips_of_skipAtom (isBlank_of_startsNumber hstarts) (ne_of_startsNumber hstarts rfl)
        (ne_of_startsNumber hstarts rfl) fun rest hrest => ?_
      rw [List.cons_append, skipAtom_of_startsNumber hstarts]
      exact hnumber.skipNumber_append hrest
  | string _ hletters =>
      refine skips_of_skipAtom rfl (by decide) (by decide) fun rest _ => ?_
      simp only [List.cons_append, List.append_assoc, List.nil_append, skipAtom]
      exact hletters.skipString_append rest
  | array hblanks hpadded hspells ih =>
      refine skips_container .list hblanks (fun _ _ _ => rfl) ?_ ?_
      · rw [List.forall_mem_map]
        exact fun element hmem => (hpadded element hmem).opens (hspells element hmem).startsPart
      · rw [List.forall_mem_map]
        exact fun element hmem => (hpadded element hmem).passes (ih element hmem)
  | object hblanks hkeyed hspells ih =>
      refine skips_container .object hblanks (fun _ _ _ => rfl) ?_ ?_
      · rw [List.forall_mem_map]
        exact fun member hmem => (hkeyed member hmem).opens
      · rw [List.forall_mem_map]
        exact fun member hmem => (hkeyed member hmem).passes (ih member hmem)

/-- A document of any shape is passed over as a whole. -/
theorem Spells.skipDocument_append
    {depth : Nat} {text before rest : List Char} {source : Source}
    (hspells : Spells depth text source) (hbefore : IsBlanks before) (hrest : EndsNumber rest) :
    skipDocument (before ++ (text ++ rest)) = .ok rest := by
  obtain ⟨used, hlt, hskip⟩ := hspells.skips
  have hcount : ∃ spare, 2 * (before ++ (text ++ rest)).length + 2 = spare + 1 + used := by
    refine ⟨2 * (before ++ (text ++ rest)).length + 1 - used, ?_⟩
    simp only [List.length_append]
    omega
  obtain ⟨spare, hspare⟩ := hcount
  rw [skipDocument, hspare, hskip _ _ _ _ hbefore hrest]
  rfl

end ArgumentContract.Json

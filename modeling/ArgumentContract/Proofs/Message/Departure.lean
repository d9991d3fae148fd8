import ArgumentContract.Proofs.Message.Recognition

/-!
# Where a token stream departs from the template

A reader of the grammar departs from the template at the first token that cannot stand where it
stands.  The tokens in front of it can always be completed, and the tokens after it make no
difference.  Both properties pass from the readers of single tokens to readers that run one after
the other, and so to the reader of the whole template.
-/

namespace ArgumentContract

namespace Grammar

open Token

variable {α β γ δ : Type}

/-- A reader takes the tokens off the front of every stream. -/
def ReadsOff
    (read : List Token → Except Departure γ) (tokens : List Token)
    (result : List Token → γ) : Prop :=
  ∀ rest, read (tokens ++ rest) = .ok (result rest)

/-- A departure after the tokens in `front` is the same whatever follows the offending token. -/
def Settled
    (read : List Token → Except Departure γ) (front : List Token)
    (departure : Departure) : Prop :=
  ∀ token after, departure.unread = token :: after →
    ∀ others, read (front ++ token :: others) = .error ⟨departure.reason, token :: others⟩

/-- A reader that departs at the first token that it cannot read.  Its result consists of a value
and what is left of the stream, put together by `pair`. -/
structure IsPrompt
    (read : List Token → Except Departure γ) (pair : α → List Token → γ) : Prop where
  exists_readsOff : ∃ tokens value, Named tokens ∧ ReadsOff read tokens (pair value)
  of_ok : ∀ stream result, read stream = .ok result →
    ∃ tokens value rest,
      stream = tokens ++ rest ∧ result = pair value rest ∧ ReadsOff read tokens (pair value)
  of_error : ∀ stream departure, read stream = .error departure →
    ∃ front, stream = front ++ departure.unread ∧ Settled read front departure ∧
      ∃ more value, Named more ∧ ReadsOff read (front ++ more) (pair value)

/-! ## Readers one after the other -/

section Sequence

variable {read : List Token → Except Departure γ} {next : γ → Except Departure δ}
  {pair : α → List Token → γ} {pair' : β → List Token → δ}

theorem ReadsOff.bind
    {tokens more : List Token} {result : List Token → γ} {result' : List Token → δ}
    (hread : ReadsOff read tokens result)
    (hnext : ReadsOff (fun rest => next (result rest)) more result') :
    ReadsOff (fun stream => read stream >>= next) (tokens ++ more) result' := by
  intro rest
  rw [List.append_assoc]
  exact bind_eq_ok_iff.mpr ⟨_, hread (more ++ rest), hnext rest⟩

theorem Settled.bind
    {front : List Token} {departure : Departure} (hsettled : Settled read front departure) :
    Settled (fun stream => read stream >>= next) front departure := by
  intro token after hunread others
  dsimp only
  rw [hsettled token after hunread others]
  rfl

theorem Settled.bind_of_readsOff
    {tokens front : List Token} {result : List Token → γ} {departure : Departure}
    (hsettled : Settled (fun rest => next (result rest)) front departure)
    (hread : ReadsOff read tokens result) :
    Settled (fun stream => read stream >>= next) (tokens ++ front) departure := by
  intro token after hunread others
  dsimp only
  rw [List.append_assoc, hread]
  exact hsettled token after hunread others

theorem isPrompt_ok (value : α) (pair : α → List Token → γ) :
    IsPrompt (fun rest => .ok (pair value rest)) pair where
  exists_readsOff := ⟨[], value, named_nil, fun _ => rfl⟩
  of_ok := by
    intro stream result hresult
    exact ⟨[], value, stream, rfl, (Except.ok.inj hresult).symm, fun _ => rfl⟩
  of_error := by
    intro stream departure h
    contradiction

/-- Where the first reader departs, what it could have read is completed by the second one. -/
theorem IsPrompt.bind
    (hread : IsPrompt read pair)
    (hnext : ∀ value, IsPrompt (fun rest => next (pair value rest)) pair') :
    IsPrompt (fun stream => read stream >>= next) pair' where
  exists_readsOff := by
    obtain ⟨tokens, value, htokens, hreads⟩ := hread.exists_readsOff
    obtain ⟨more, value', hmore, hreads'⟩ := (hnext value).exists_readsOff
    exact ⟨tokens ++ more, value', named_append.mpr ⟨htokens, hmore⟩, hreads.bind hreads'⟩
  of_ok := by
    intro stream result' h
    obtain ⟨result, hresult, h⟩ := bind_eq_ok_iff.mp h
    obtain ⟨tokens, value, rest, rfl, rfl, hreads⟩ := hread.of_ok stream result hresult
    obtain ⟨more, value', rest', rfl, rfl, hreads'⟩ := (hnext value).of_ok rest result' h
    exact ⟨tokens ++ more, value', rest', (List.append_assoc ..).symm, rfl,
      hreads.bind hreads'⟩
  of_error := by
    intro stream departure h
    cases hfirst : read stream with
    | error first =>
        rw [hfirst] at h
        obtain rfl : first = departure := Except.error.inj h
        obtain ⟨front, hstream, hsettled, more, value, hmore, hreads⟩ :=
          hread.of_error stream first hfirst
        obtain ⟨more', value', hmore', hreads'⟩ := (hnext value).exists_readsOff
        refine ⟨front, hstream, hsettled.bind, more ++ more', value',
          named_append.mpr ⟨hmore, hmore'⟩, ?_⟩
        rw [← List.append_assoc]
        exact hreads.bind hreads'
    | ok result =>
        rw [hfirst] at h
        obtain ⟨tokens, value, rest, rfl, rfl, hreads⟩ := hread.of_ok stream result hfirst
        obtain ⟨front, rfl, hsettled, more, value', hmore, hreads'⟩ :=
          (hnext value).of_error rest departure h
        refine ⟨tokens ++ front, (List.append_assoc ..).symm,
          hsettled.bind_of_readsOff hreads, more, value', hmore, ?_⟩
        rw [List.append_assoc]
        exact hreads.bind hreads'

end Sequence

/-! ## Readers of a single token -/

/-- A reader that decides by the first token of the stream alone. -/
theorem isPrompt_of_head
    {read : List Token → Except Departure γ} {pair : α → List Token → γ}
    (hnil : ∃ reason, read [] = .error ⟨reason, []⟩)
    (hcons : ∀ token,
      (∃ value, ReadsOff read [token] (pair value)) ∨
        ∃ reason, ∀ rest, read (token :: rest) = .error ⟨reason, token :: rest⟩)
    (hsome : ∃ token value, Named [token] ∧ ReadsOff read [token] (pair value)) :
    IsPrompt read pair where
  exists_readsOff := by
    obtain ⟨token, value, hnamed, hreads⟩ := hsome
    exact ⟨[token], value, hnamed, hreads⟩
  of_ok := by
    intro stream result hresult
    cases stream with
    | nil =>
        obtain ⟨reason, hreason⟩ := hnil
        rw [hreason] at hresult
        contradiction
    | cons token rest =>
        rcases hcons token with ⟨value, hreads⟩ | ⟨reason, hreason⟩
        · have hpair := (hreads rest).symm.trans hresult
          exact ⟨[token], value, rest, rfl, (Except.ok.inj hpair).symm, hreads⟩
        · rw [hreason] at hresult
          contradiction
  of_error := by
    obtain ⟨other, value, hnamed, hreads⟩ := hsome
    intro stream departure h
    cases stream with
    | nil =>
        obtain ⟨reason, hreason⟩ := hnil
        obtain rfl := Except.error.inj (hreason.symm.trans h)
        refine ⟨[], rfl, ?_, [other], value, hnamed, hreads⟩
        intro token after hunread
        contradiction
    | cons token rest =>
        rcases hcons token with ⟨_, hreadsToken⟩ | ⟨reason, hreason⟩
        · have hread := (hreadsToken rest).symm.trans h
          contradiction
        · obtain rfl := Except.error.inj ((hreason rest).symm.trans h)
          refine ⟨[], rfl, ?_, [other], value, hnamed, hreads⟩
          intro first after hunread others
          obtain ⟨rfl, -⟩ := List.cons.inj hunread
          exact hreason others

theorem expect_singleton_of_ne
    {token : Token} {stream : List Token} (hstream : ∀ rest, stream ≠ token :: rest) :
    expect [token] stream = depart (.exactly token) stream := by
  cases stream with
  | nil => rfl
  | cons found rest =>
      have hfound : found ≠ token := by
        intro heq
        exact hstream rest (heq ▸ rfl)
      rw [expect, if_neg hfound]

theorem isPrompt_expect_singleton {token : Token} (hnamed : Named [token]) :
    IsPrompt (expect [token]) (fun (_ : Unit) rest => rest) := by
  have hreads : ReadsOff (expect [token]) [token] (fun rest => rest) :=
    fun rest => expect_eq_ok_iff.mpr rfl
  refine isPrompt_of_head ⟨_, rfl⟩ ?_ ⟨token, (), hnamed, hreads⟩
  intro found
  by_cases hfound : found = token
  · subst hfound
    exact .inl ⟨(), hreads⟩
  · refine .inr ⟨.unexpected (some found) (.exactly token), fun rest => ?_⟩
    exact expect_singleton_of_ne fun more heq => hfound (List.cons.inj heq).1

theorem expect_cons (token : Token) (wanted : List Token) :
    expect (token :: wanted) = fun stream => expect [token] stream >>= expect wanted := by
  funext stream
  cases stream with
  | nil => rfl
  | cons found rest =>
      by_cases hfound : found = token
      · simp only [expect, if_pos hfound]
        rfl
      · simp only [expect, if_neg hfound]
        rfl

theorem isPrompt_expect {wanted : List Token} (hnamed : Named wanted) :
    IsPrompt (expect wanted) (fun (_ : Unit) rest => rest) := by
  induction wanted with
  | nil => exact isPrompt_ok () fun _ rest => rest
  | cons token wanted ih =>
      obtain ⟨hhead, htail⟩ := named_append.mp (List.singleton_append ▸ hnamed)
      rw [expect_cons]
      exact (isPrompt_expect_singleton hhead).bind fun _ => ih htail

/-- A reader that asks for a word and decides by its spelling. -/
theorem isPrompt_of_word
    {read : List Token → Except Departure γ} {pair : α → List Token → γ}
    (hother : ∀ stream, (∀ letters rest, stream ≠ word letters :: rest) →
      read stream = depart .openWord stream)
    (hword : ∀ letters,
      (∃ value, ReadsOff read [word letters] (pair value)) ∨
        ∃ reason, ∀ rest, read (word letters :: rest) = .error ⟨reason, word letters :: rest⟩)
    (hsome : ∃ letters value, IsName letters ∧ ReadsOff read [word letters] (pair value)) :
    IsPrompt read pair := by
  obtain ⟨letters, value, hname, hreads⟩ := hsome
  refine isPrompt_of_head ⟨_, hother [] (by simp)⟩ ?_ ⟨word letters, value, ?_, hreads⟩
  · intro token
    cases token with
    | word letters => exact hword letters
    | space | scopeMark | parens | comma | other c =>
        exact .inr ⟨.unexpected _ .openWord, fun rest => hother _ (by simp)⟩
  · intro more hmem
    obtain rfl := word.inj (List.mem_singleton.mp hmem)
    exact hname

theorem readName_word (letters : List Char) (stream : List Token) :
    readName (word letters :: stream) = .ok (letters, stream) := rfl

theorem readName_of_ne_word
    {stream : List Token} (hstream : ∀ letters rest, stream ≠ word letters :: rest) :
    readName stream = depart .openWord stream := by
  unfold readName
  split
  next letters rest => exact absurd rfl (hstream letters rest)
  next => rfl

theorem isPrompt_readName : IsPrompt readName Prod.mk := by
  refine isPrompt_of_word ?_ ?_ ⟨"given".toList, _, by decide, fun rest => rfl⟩
  · intro stream hstream
    exact readName_of_ne_word hstream
  · intro letters
    exact .inl ⟨letters, fun rest => rfl⟩

theorem isPrompt_readIndex : IsPrompt readIndex Prod.mk := by
  have hone : ReadsOff readIndex [word "1".toList] (Prod.mk (.ofNat 1)) := by
    intro rest
    exact readIndex_eq_ok_iff.mpr ⟨by decide, rfl⟩
  refine isPrompt_of_word ?_ ?_ ⟨"1".toList, _, by decide, hone⟩
  · intro stream hstream
    rw [readIndex, readName_of_ne_word hstream]
    rfl
  · intro letters
    cases hindex : ArgumentIndex.ofDigits? (String.ofList letters) with
    | none =>
        refine .inr ⟨.notAnIndex (String.ofList letters), fun rest => ?_⟩
        simp only [readIndex, readName_word, bind, Except.bind, hindex]
    | some index =>
        by_cases hzero : index.value = 0
        · refine .inr ⟨.zeroIndex, fun rest => ?_⟩
          simp only [readIndex, readName_word, bind, Except.bind, hindex, if_pos hzero]
        · refine .inl ⟨index, fun rest => ?_⟩
          simp only [readIndex, readName_word, bind, Except.bind, hindex, if_neg hzero,
            List.singleton_append]

theorem isPrompt_readGiven : IsPrompt readGiven (fun (_ : Unit) _ => ()) := by
  refine isPrompt_of_word ?_ ?_ ⟨"given".toList, (), by decide, fun rest => rfl⟩
  · intro stream hstream
    unfold readGiven
    split
    next letters rest => exact absurd rfl (hstream letters rest)
    next => rfl
  · intro letters
    by_cases hgiven : "given".toList <+: letters
    · refine .inl ⟨(), fun rest => ?_⟩
      rw [List.singleton_append, readGiven, if_pos hgiven]
    · refine .inr ⟨.unexpected (some (word letters)) .openWord, fun rest => ?_⟩
      rw [readGiven, if_neg hgiven]
      rfl

/-! ## The callee -/

/-- Reads what may follow the first word of the callee: whether it was a scope. -/
def readMark : List Token → Except Departure (Bool × List Token)
  | .scopeMark :: stream => .ok (true, stream)
  | .parens :: stream => .ok (false, stream)
  | stream => depart .scopeMarkOrParens stream

theorem readMark_of_ne
    {stream : List Token} (hscope : ∀ rest, stream ≠ scopeMark :: rest)
    (hparens : ∀ rest, stream ≠ parens :: rest) :
    readMark stream = depart .scopeMarkOrParens stream := by
  unfold readMark
  split
  next rest => exact absurd rfl (hscope rest)
  next rest => exact absurd rfl (hparens rest)
  next => rfl

theorem isPrompt_readMark : IsPrompt readMark Prod.mk := by
  refine isPrompt_of_head ⟨_, rfl⟩ ?_ ⟨.parens, false, ?_, fun rest => rfl⟩
  · intro token
    cases token with
    | scopeMark => exact .inl ⟨true, fun rest => rfl⟩
    | parens => exact .inl ⟨false, fun rest => rfl⟩
    | space | comma | word letters | other c =>
        exact .inr ⟨.unexpected (some _) .scopeMarkOrParens, fun rest => rfl⟩
  · intro letters hmem
    simp at hmem

/-- Reads the callee token by token, without going back. -/
def readCalleeOnce (stream : List Token) :
    Except Departure ((Option (List Char) × List Char) × List Token) := do
  let (first, stream) ← readName stream
  let (isScope, stream) ← readMark stream
  if isScope then
    let (function, stream) ← readName stream
    let stream ← expect [.parens] stream
    .ok ((some first, function), stream)
  else .ok ((none, first), stream)

theorem readCallee_eq_readCalleeOnce : readCallee = readCalleeOnce := by
  funext stream
  -- Each way to depart is the departure of one of the readers.
  unfold readCallee
  split
  next => rfl
  next => rfl
  next scope function stream hparens =>
    simp only [readCalleeOnce, readName_word, readMark, bind, Except.bind, if_true,
      expect_singleton_of_ne hparens]
    rfl
  next scope stream _ hname =>
    simp only [readCalleeOnce, readName_word, readName_of_ne_word hname, readMark, bind,
      Except.bind, if_true]
    rfl
  next first stream hparens _ _ hscope =>
    simp only [readCalleeOnce, readName_word, readMark_of_ne hscope hparens, bind, Except.bind]
    rfl
  next hname =>
    simp only [readCalleeOnce, readName_of_ne_word hname, bind, Except.bind]
    rfl

theorem isPrompt_readCallee : IsPrompt readCallee Prod.mk := by
  rw [readCallee_eq_readCalleeOnce]
  refine isPrompt_readName.bind fun first => ?_
  refine isPrompt_readMark.bind fun isScope => ?_
  cases isScope with
  | false => exact isPrompt_ok (none, first) Prod.mk
  | true =>
      refine isPrompt_readName.bind fun function => ?_
      have hnamed : Named [.parens] := by simp [Named]
      refine (isPrompt_expect hnamed).bind fun _ => ?_
      exact isPrompt_ok (some first, function) Prod.mk

theorem isPrompt_readViolation :
    IsPrompt readViolation (fun violation _ => violation) := by
  have hstart := (Violation.tiles_beforeIndex []).named
  have hheader := (Violation.tiles_beforeCallee []).named
  have hcontract := (Violation.tiles_beforeExpected []).named
  have hcomma : Named beforeGiven := by simp [Named, beforeGiven]
  have hspace : Named [.space] := by simp [Named]
  refine (isPrompt_expect hstart).bind fun _ => ?_
  refine isPrompt_readIndex.bind fun index => ?_
  refine (isPrompt_expect hheader).bind fun _ => ?_
  refine isPrompt_readCallee.bind fun callee => ?_
  refine (isPrompt_expect hcontract).bind fun _ => ?_
  refine isPrompt_readName.bind fun expected => ?_
  refine (isPrompt_expect hcomma).bind fun _ => ?_
  refine isPrompt_readName.bind fun given => ?_
  refine (isPrompt_expect hspace).bind fun _ => ?_
  refine isPrompt_readGiven.bind fun _ => ?_
  exact isPrompt_ok _ fun violation _ => violation

/-! ## The template -/

theorem not_template_prefix_of_readViolation_eq_error
    {stream : List Token} {departure : Departure}
    (hread : readViolation stream = .error departure)
    {violation : Violation} (hindex : 1 ≤ violation.index.value) (letters : List Char) :
    ¬ violation.tokens ++ [word ("given".toList ++ letters)] <+: stream := by
  rintro ⟨rest, rfl⟩
  rw [List.append_assoc, List.singleton_append, readViolation_tokens_append hindex] at hread
  contradiction

/-- The tokens in front of a departure begin the template of some violation. -/
theorem exists_front_of_readViolation_eq_error
    {stream : List Token} (hnamed : Named stream) {departure : Departure}
    (hread : readViolation stream = .error departure) :
    ∃ front, stream = front ++ departure.unread ∧ Settled readViolation front departure ∧
      ∃ violation : Violation, violation.WellFormed ∧ front <+: violation.tokens := by
  obtain ⟨front, hstream, hsettled, more, violation, hmore, hreads⟩ :=
    isPrompt_readViolation.of_error stream departure hread
  have hfull : readViolation (front ++ more) = .ok violation := by
    simpa using hreads []
  obtain ⟨hindex, letters, rest, htemplate⟩ := eq_tokens_of_readViolation hfull
  refine ⟨front, hstream, hsettled, violation, ?_, ?_⟩
  · have hfront : Named (front ++ more) := by
      rw [hstream, named_append] at hnamed
      exact named_append.mpr ⟨hnamed.1, hmore⟩
    rw [htemplate, named_append] at hfront
    exact Violation.wellFormed_of_named hindex hfront.1
  · -- A front that had the last word of the template already would not be departed from.
    have hlast : ¬ violation.tokens ++ [word ("given".toList ++ letters)] <+: front := by
      intro hbegins
      refine not_template_prefix_of_readViolation_eq_error hread hindex letters ?_
      rw [hstream]
      exact hbegins.trans (List.prefix_append _ _)
    have hwhole :
        violation.tokens ++ [word ("given".toList ++ letters)] <+: front ++ more := by
      rw [htemplate]
      exact ⟨rest, by simp⟩
    have hcompare := List.prefix_or_prefix_of_prefix (List.prefix_append front more) hwhole
    rcases List.prefix_concat_iff.mp (hcompare.resolve_right hlast) with heq | hbegins
    · rw [heq] at hlast
      exact absurd (List.prefix_refl _) hlast
    · exact hbegins

end Grammar

end ArgumentContract

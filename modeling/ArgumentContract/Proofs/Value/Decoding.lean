import ArgumentContract.Proofs.Json.RealLiteral
import ArgumentContract.Proofs.Json.Recognition
import ArgumentContract.Value.Document

/-!
# Values are told by their shape

A document stands for a value without saying which one it is.  `Denotes` lists the shapes: every
document that is not an object or a list stands for one value, and an object stands for a resource
or a closure if it names one exactly once.  Members of other names are passed over, whatever they
hold.  A list with a part that stands for nothing stands for nothing itself.

The shapes are told on documents as they are written, since an integer is known by its literal.  A
literal that is no integer of 64 bits stands for the number that it is converted to, which need not
be the nearest one.  No text is decoded that does not spell such a document.
-/

namespace ArgumentContract

namespace Json

/-! ## Integers -/

/-- A literal without a fraction and an exponent, other than minus zero, and its value. -/
structure NumberParts.Writes (parts : NumberParts) (n : Int) : Prop where
  fraction : parts.fraction = none
  exponent : parts.exponent = none
  nonzero : parts.negative = true → n ≠ 0
  value : n = if parts.negative then -(Text.decimalValue parts.whole : Int)
    else Text.decimalValue parts.whole

namespace NumberParts

variable {parts : NumberParts} {m n : Int}

theorem Writes.unique (hm : parts.Writes m) (hn : parts.Writes n) : m = n :=
  hm.value.trans hn.value.symm

theorem integer?_eq_some_iff :
    parts.integer? = some n ↔ parts.Writes n ∧ fitsLiteral n = true := by
  obtain ⟨negative, whole, fraction, exponent⟩ := parts
  simp only [integer?, fitsLiteral, Bool.and_eq_true, decide_eq_true_eq]
  constructor
  · intro hinteger
    split at hinteger
    next => contradiction
    next hplain =>
      simp only [Bool.or_eq_true, not_or, Bool.not_eq_true, Option.isSome_eq_false_iff,
        Option.isNone_iff_eq_none] at hplain
      cases negative with
      | true =>
          simp only [if_true, Option.ite_none_right_eq_some, Option.some.injEq] at hinteger
          obtain ⟨hrange, hvalue⟩ := hinteger
          exact ⟨⟨hplain.1, hplain.2, fun _ => by omega, hvalue.symm⟩, by omega, by omega⟩
      | false =>
          simp only [Bool.false_eq_true, if_false, Option.ite_none_right_eq_some,
            Option.some.injEq] at hinteger
          obtain ⟨hrange, hvalue⟩ := hinteger
          exact ⟨⟨hplain.1, hplain.2, by simp, hvalue.symm⟩, by omega, by omega⟩
  · rintro ⟨⟨hfraction, hexponent, hnonzero, hvalue⟩, hlow, hhigh⟩
    simp only at hfraction hexponent hnonzero hvalue
    subst hfraction hexponent
    cases negative with
    | true =>
        simp at hnonzero hvalue ⊢
        omega
    | false =>
        simp at hvalue ⊢
        omega

/-- An integer of 64 bits is converted to the nearest number. -/
theorem real?_of_integer?
    (hinteger : parts.integer? = some n) :
    ∃ x, parts.real? = some x ∧ (0 ≤ n → x = Binary64.ofInt n) := by
  obtain ⟨⟨hfraction, hexponent, hnonzero, hvalue⟩, hfits⟩ := integer?_eq_some_iff.mp hinteger
  simp only [fitsLiteral, Bool.and_eq_true, decide_eq_true_eq] at hfits
  have hle : Text.decimalValue parts.whole ≤ greatestSignificand := by
    simp only [greatestSignificand]
    split at hvalue <;> omega
  refine ⟨_, real?_of_integer hfraction hexponent hle, fun hpos => ?_⟩
  cases hsign : parts.negative with
  | false => simp [hvalue, hsign]
  | true =>
      have hzero := hnonzero hsign
      simp only [hsign, if_true] at hvalue
      omega

/-- A literal that denotes a number is in range. -/
theorem real?_ne_none_of_number? {number : JsonNumber} (hnumber : parts.number? = some number) :
    parts.real? ≠ none := by
  rw [number?] at hnumber
  cases hinteger : parts.integer? with
  | some n =>
      obtain ⟨x, hreal, -⟩ := real?_of_integer? hinteger
      rw [hreal]
      exact Option.some_ne_none x
  | none =>
      rw [hinteger] at hnumber
      obtain ⟨x, hreal, -⟩ := Option.map_eq_some_iff.mp hnumber
      rw [hreal]
      exact Option.some_ne_none x

end NumberParts

/-! ## Sole members of an object -/

/-- An object has exactly one member of a name, and its value is the given string. -/
def HasSole (members : List (List Letter × Source)) (name text : String) : Prop :=
  ∃ before after, members = before ++ (lettersOf name, .string (lettersOf text)) :: after ∧
    ∀ other ∈ before ++ after, other.1 ≠ lettersOf name

theorem filter_eq_singleton_iff
    {members : List (List Letter × Source)} {name text : String} :
    members.filter (·.1 = lettersOf name) = [(lettersOf name, .string (lettersOf text))] ↔
      HasSole members name text := by
  simp only [List.filter_eq_cons_iff, List.filter_eq_nil_iff, decide_eq_true_eq, HasSole,
    List.forall_mem_append, true_and]

theorem document?_eq_string_iff {source : Source} {text : String} :
    source.document? = some (.string text) ↔ source = .string (lettersOf text) := by
  cases source with
  | string letters => simp [Source.document?, textOf?_eq_some_iff]
  | null | bool | number | array | object => simp [Source.document?]

theorem member?_eq_string_iff {member : List Letter × Source} {name text : String} :
    Source.member? Source.document? member = some (name, .string text) ↔
      member = (lettersOf name, .string (lettersOf text)) := by
  obtain ⟨letters, value⟩ := member
  simp [Source.member?, Option.bind_eq_some_iff, textOf?_eq_some_iff, document?_eq_string_iff]

theorem soleString?_eq_some_iff_filter
    {documents : List (String × Json)} {name text : String} :
    soleString? name documents = some text ↔
      documents.filter (·.1 = name) = [(name, .string text)] := by
  constructor
  · intro hsole
    unfold soleString? at hsole
    split at hsole
    next key content hfilter =>
      have hkey : (key, Json.string content) ∈ documents.filter (·.1 = name) := by
        rw [hfilter]
        exact List.mem_singleton_self _
      obtain rfl : key = name := of_decide_eq_true (List.mem_filter.mp hkey).2
      rw [hfilter, Option.some.inj hsole]
    next => contradiction
  · intro hfilter
    unfold soleString?
    rw [hfilter]

/-- The sole string of a name is told by the letters of the names and the values alone. -/
theorem soleString?_eq_some_iff
    {members : List (List Letter × Source)} {documents : List (String × Json)}
    (hdocuments : members.mapM (Source.member? Source.document?) = some documents)
    {name text : String} :
    soleString? name documents = some text ↔ HasSole members name text := by
  have hpairs : List.Forall₂
      (fun member document => Source.member? Source.document? member = some document)
      members documents :=
    (mapM_eq_some_iff fun _ _ _ => Iff.rfl).mp hdocuments
  have hnamed : List.Forall₂
      (fun member document => Source.member? Source.document? member = some document)
      (members.filter (·.1 = lettersOf name)) (documents.filter (·.1 = name)) := by
    refine List.rel_filter ?_ hpairs
    rintro ⟨letters, value⟩ ⟨key, document⟩ hmember
    simp only [Source.member?, Option.bind_eq_bind, Option.bind_eq_some_iff,
      textOf?_eq_some_iff, Option.pure_def, Option.some.injEq, Prod.mk.injEq] at hmember
    obtain ⟨text, rfl, _, _, rfl, _⟩ := hmember
    simp [lettersOf_inj]
  rw [soleString?_eq_some_iff_filter, ← filter_eq_singleton_iff]
  constructor
  · intro hfilter
    rw [hfilter] at hnamed
    obtain ⟨member, rest, hmember, hrest, heq⟩ := List.forall₂_cons_right_iff.mp hnamed
    rw [heq, List.forall₂_nil_right_iff.mp hrest, member?_eq_string_iff.mp hmember]
  · intro hfilter
    rw [hfilter] at hnamed
    obtain ⟨document, rest, hmember, hrest, heq⟩ := List.forall₂_cons_left_iff.mp hnamed
    rw [heq, List.forall₂_nil_left_iff.mp hrest]
    rw [member?_eq_string_iff.mpr rfl] at hmember
    rw [Option.some.inj hmember]

end Json

namespace Value

open Json (Source Letter Spells SpellsLetters SpellsDocument HasSole lettersOf textOf? IsBlanks
  isBlank)

/-! ## The shapes of values -/

/-- A document stands for a value by its shape. -/
inductive Denotes : Source → Value → Prop
  | null : Denotes .null .null
  | bool (b : Bool) : Denotes (.bool b) (.bool b)
  | int {parts : Json.NumberParts} {n : Int} (hwrites : parts.Writes n) (hlow : -2 ^ 63 ≤ n)
      (hhigh : n < 2 ^ 63) : Denotes (.number parts) (.int (Int64.ofInt n))
  | double {parts : Json.NumberParts} {x : Binary64}
      (hother : ∀ n, parts.Writes n → n < -2 ^ 63 ∨ 2 ^ 63 ≤ n)
      (hreal : parts.real? = some x) : Denotes (.number parts) (.double x)
  | string (text : String) : Denotes (.string (lettersOf text)) (.string text)
  | array {items : List Source} {values : List Value}
      (hitems : List.Forall₂ Denotes items values) : Denotes (.array items) (.array values)
  | resource {members : List (List Letter × Source)} {kind : String}
      (hsole : HasSole members "resource" kind) : Denotes (.object members) (.resource kind)
  | closure {members : List (List Letter × Source)} {name : String}
      (hother : ∀ kind, ¬ HasSole members "resource" kind)
      (hsole : HasSole members "closure" name) : Denotes (.object members) (.closure name)

/-- A document stands for no value: it is an object that names neither a resource nor a closure, or
a list with such a part. -/
inductive Shapeless : Source → Prop
  | object {members : List (List Letter × Source)}
      (hresource : ∀ kind, ¬ HasSole members "resource" kind)
      (hclosure : ∀ name, ¬ HasSole members "closure" name) : Shapeless (.object members)
  | array {items : List Source} {item : Source} (hmem : item ∈ items)
      (hitem : Shapeless item) : Shapeless (.array items)

/-- The value of a document as it is written. -/
def ofSource? (source : Source) : Option Value := source.document?.bind ofJson?

theorem ofItems?_eq_mapM (items : List Json) : ofItems? items = items.mapM ofJson? := by
  induction items with
  | nil => rfl
  | cons item rest ih => rw [ofItems?, ih, List.mapM_cons]

theorem ofSource?_array (items : List Source) :
    ofSource? (.array items) = (items.mapM ofSource?).map array := by
  have hitems : (items.mapM Source.document?).bind (List.mapM ofJson?) = items.mapM ofSource? := by
    induction items with
    | nil => rfl
    | cons item items ih =>
        simp only [List.mapM_cons, ← ih, ofSource?]
        cases item.document? with
        | none => rfl
        | some document =>
            cases items.mapM Source.document? with
            | none => cases hfound : ofJson? document <;> simp [hfound]
            | some documents => simp
  rw [ofSource?, Source.document?, Source.itemDocuments?_eq_mapM, ← hitems]
  cases items.mapM Source.document? with
  | none => rfl
  | some documents => simp [ofJson?, ofItems?_eq_mapM]

theorem ofSource?_object (members : List (List Letter × Source)) :
    ofSource? (.object members) =
      (members.mapM (Source.member? Source.document?)).bind ofMembers? := by
  rw [ofSource?, Source.document?, Source.memberDocuments?_eq_mapM]
  cases members.mapM (Source.member? Source.document?) <;> rfl

theorem denotes_int_iff
    {parts : Json.NumberParts} {n : Int} (hwrites : parts.Writes n)
    (hrange : -2 ^ 63 ≤ n ∧ n < 2 ^ 63) {value : Value} :
    Denotes (.number parts) value ↔ value = .int (Int64.ofInt n) := by
  constructor
  · intro hdenotes
    cases hdenotes with
    | int hsame _ _ => rw [hwrites.unique hsame]
    | double hother _ => rcases hother n hwrites with h | h <;> omega
  · rintro rfl
    exact .int hwrites hrange.1 hrange.2

theorem denotes_double_iff
    {parts : Json.NumberParts} {x : Binary64}
    (hother : ∀ n, parts.Writes n → n < -2 ^ 63 ∨ 2 ^ 63 ≤ n)
    (hreal : parts.real? = some x) {value : Value} :
    Denotes (.number parts) value ↔ value = .double x := by
  constructor
  · intro hdenotes
    cases hdenotes with
    | int hwrites hlow hhigh => rcases hother _ hwrites with h | h <;> omega
    | double _ hsame => rw [Option.some.inj (hreal.symm.trans hsame)]
  · rintro rfl
    exact .double hother hreal

theorem ofNumber_eq_iff
    {parts : Json.NumberParts} (hrange : parts.real? ≠ none) :
    ∃ number, parts.number? = some number ∧
      ∀ value, ofNumber number = value ↔ Denotes (.number parts) value := by
  obtain ⟨x, hreal⟩ := Option.ne_none_iff_exists'.mp hrange
  cases hinteger : parts.integer? with
  | none =>
      have hother : ∀ n, parts.Writes n → n < -2 ^ 63 ∨ 2 ^ 63 ≤ n := by
        intro n hwrites
        have hunfit : ¬ Json.fitsLiteral n = true := by
          intro hfits
          rw [Json.NumberParts.integer?_eq_some_iff.mpr ⟨hwrites, hfits⟩] at hinteger
          contradiction
        simp only [Json.fitsLiteral, Bool.and_eq_true, decide_eq_true_eq] at hunfit
        omega
      refine ⟨.real x, by simp [Json.NumberParts.number?, hinteger, hreal], fun value => ?_⟩
      rw [denotes_double_iff hother hreal, ofNumber, eq_comm]
  | some n =>
      obtain ⟨hwrites, hlong⟩ := Json.NumberParts.integer?_eq_some_iff.mp hinteger
      obtain ⟨_, hsame, hnearest⟩ := Json.NumberParts.real?_of_integer? hinteger
      obtain rfl := Option.some.inj (hreal.symm.trans hsame)
      refine ⟨.integer n, by simp [Json.NumberParts.number?, hinteger], fun value => ?_⟩
      rw [ofNumber]
      split
      next hfits =>
        simp only [fitsInt, Bool.and_eq_true, decide_eq_true_eq] at hfits
        rw [denotes_int_iff hwrites (by omega), eq_comm]
      next hunfit =>
        simp only [Json.fitsLiteral, fitsInt, Bool.and_eq_true, decide_eq_true_eq] at hlong hunfit
        have hother : ∀ m, parts.Writes m → m < -2 ^ 63 ∨ 2 ^ 63 ≤ m := by
          intro m hsame
          rw [hsame.unique hwrites]
          omega
        rw [denotes_double_iff hother hreal, hnearest (by omega), eq_comm]

theorem ofMembers?_eq_some_iff
    {members : List (List Letter × Source)} {documents : List (String × Json)}
    (hdocuments : members.mapM (Source.member? Source.document?) = some documents)
    {value : Value} :
    ofMembers? documents = some value ↔ Denotes (.object members) value := by
  have hsole {name text : String} :
      Json.soleString? name documents = some text ↔ HasSole members name text :=
    Json.soleString?_eq_some_iff hdocuments
  rw [ofMembers?]
  split
  next kind hkind =>
    have hresource := hsole.mp hkind
    constructor
    · intro hvalue
      rw [← Option.some.inj hvalue]
      exact .resource hresource
    · intro hdenotes
      cases hdenotes with
      | resource hother => rw [Option.some.inj (hkind.symm.trans (hsole.mpr hother))]
      | closure hother _ => exact absurd hresource (hother kind)
  next hnone =>
    have hresource : ∀ kind, ¬ HasSole members "resource" kind := by
      intro kind hkind
      rw [hsole.mpr hkind] at hnone
      contradiction
    rw [Option.map_eq_some_iff]
    constructor
    · rintro ⟨name, hname, rfl⟩
      exact .closure hresource (hsole.mp hname)
    · intro hdenotes
      cases hdenotes with
      | resource hother => exact absurd hother (hresource _)
      | @closure _ name _ hclosure => exact ⟨name, hsole.mpr hclosure, rfl⟩

theorem ofMembers?_eq_none_iff
    {members : List (List Letter × Source)} {documents : List (String × Json)}
    (hdocuments : members.mapM (Source.member? Source.document?) = some documents) :
    ofMembers? documents = none ↔ Shapeless (.object members) := by
  have hsole {name text : String} :
      Json.soleString? name documents = some text ↔ HasSole members name text :=
    Json.soleString?_eq_some_iff hdocuments
  have hnone : ∀ name, Json.soleString? name documents = none ↔
      ∀ text, ¬ HasSole members name text := by
    intro name
    rw [Option.eq_none_iff_forall_ne_some]
    exact forall_congr' fun text => not_congr hsole
  constructor
  · intro hmembers
    rw [ofMembers?] at hmembers
    split at hmembers
    next => contradiction
    next hresource =>
      exact .object ((hnone "resource").mp hresource)
        ((hnone "closure").mp (Option.map_eq_none_iff.mp hmembers))
  · intro hshapeless
    cases hshapeless with
    | object hresource hclosure =>
        rw [ofMembers?, (hnone "resource").mpr hresource, (hnone "closure").mpr hclosure]
        rfl

/-! ## Decoding by shape -/

theorem exists_document_of_complete
    {source : Source} (hcomplete : source.Complete) :
    ∃ document, source.document? = some document := by
  rw [← Option.ne_none_iff_exists']
  induction hcomplete with
  | null | bool => simp [Source.document?]
  | number hrange =>
      obtain ⟨number, hnumber, -⟩ := ofNumber_eq_iff hrange
      simp [Source.document?, hnumber]
  | string text => simp [Source.document?, Json.textOf?_lettersOf]
  | array hitems ih =>
      rw [Source.document?, Source.itemDocuments?_eq_mapM, Ne, Option.map_eq_none_iff,
        Json.mapM_eq_none_iff]
      rintro ⟨item, hmem, hnone⟩
      exact ih item hmem hnone
  | object hkeys hvalues ih =>
      rw [Source.document?, Source.memberDocuments?_eq_mapM, Ne, Option.map_eq_none_iff,
        Json.mapM_eq_none_iff]
      rintro ⟨member, hmem, hnone⟩
      obtain ⟨key, hkey⟩ := hkeys member hmem
      obtain ⟨document, hdocument⟩ := Option.ne_none_iff_exists'.mp (ih member hmem)
      rw [Source.member?, hkey, Json.textOf?_lettersOf, hdocument] at hnone
      contradiction

/-- A document that is spelled is complete if it stands for a document. -/
theorem complete_of_spells
    {depth : Nat} {text : List Char} {source : Source} (hspells : Spells depth text source)
    (hdocument : source.document? ≠ none) : source.Complete := by
  induction hspells with
  | null => exact .null
  | bool _ b => exact .bool b
  | @number _ _ parts hnumber =>
      cases hparts : parts.number? with
      | none => exact absurd (by rw [Source.document?, hparts]; rfl) hdocument
      | some number => exact .number (Json.NumberParts.real?_ne_none_of_number? hparts)
  | @string _ _ letters hletters =>
      cases htext : textOf? letters with
      | none => exact absurd (by rw [Source.document?, htext]; rfl) hdocument
      | some text =>
          obtain rfl := Json.textOf?_eq_some_iff.mp htext
          exact .string text
  | @array _ _ elements _ _ _ ih =>
      rw [Source.document?, Source.itemDocuments?_eq_mapM, Ne, Option.map_eq_none_iff,
        Json.mapM_eq_none_iff] at hdocument
      refine .array ?_
      rw [List.forall_mem_map]
      intro element hmem
      exact ih element hmem fun hnone => hdocument ⟨_, List.mem_map_of_mem hmem, hnone⟩
  | @object _ _ members _ _ _ ih =>
      rw [Source.document?, Source.memberDocuments?_eq_mapM, Ne, Option.map_eq_none_iff,
        Json.mapM_eq_none_iff] at hdocument
      have hmember : ∀ member ∈ members, Source.member? Source.document? member.source ≠ none :=
        fun member hmem hnone => hdocument ⟨_, List.mem_map_of_mem hmem, hnone⟩
      refine .object ?_ ?_
      all_goals
        rw [List.forall_mem_map]
        intro member hmem
        obtain ⟨⟨key, document⟩, hfound⟩ := Option.ne_none_iff_exists'.mp (hmember member hmem)
        simp only [Source.member?, Option.bind_eq_bind, Option.bind_eq_some_iff] at hfound
        obtain ⟨_, hkey, _, hvalue, -⟩ := hfound
      · exact ⟨_, Json.textOf?_eq_some_iff.mp hkey⟩
      · refine ih member hmem fun hnone => ?_
        rw [Json.Member.source, hnone] at hvalue
        contradiction

theorem exists_memberDocuments_of_complete
    {members : List (List Letter × Source)} (hcomplete : (Source.object members).Complete) :
    ∃ documents, members.mapM (Source.member? Source.document?) = some documents := by
  obtain ⟨document, hdocument⟩ := exists_document_of_complete hcomplete
  rw [Source.document?, Source.memberDocuments?_eq_mapM] at hdocument
  obtain ⟨documents, hdocuments, -⟩ := Option.map_eq_some_iff.mp hdocument
  exact ⟨documents, hdocuments⟩

theorem ofSource?_eq_some_iff
    {source : Source} (hcomplete : source.Complete) {value : Value} :
    ofSource? source = some value ↔ Denotes source value := by
  induction hcomplete generalizing value with
  | null =>
      constructor
      · intro hvalue
        rw [← Option.some.inj hvalue]
        exact .null
      · rintro ⟨⟩
        rfl
  | bool b =>
      constructor
      · intro hvalue
        rw [← Option.some.inj hvalue]
        exact .bool b
      · rintro ⟨⟩
        rfl
  | number hrange =>
      obtain ⟨number, hnumber, hdenotes⟩ := ofNumber_eq_iff hrange
      rw [← hdenotes, ofSource?, Source.document?, hnumber]
      exact Option.some_inj
  | string text =>
      rw [ofSource?, Source.document?, Json.textOf?_lettersOf]
      constructor
      · intro hvalue
        rw [← Option.some.inj hvalue]
        exact .string text
      · intro hdenotes
        generalize hletters : lettersOf text = letters at hdenotes
        cases hdenotes with
        | string other =>
            rw [Json.lettersOf_inj.mp hletters]
            rfl
  | array hitems ih =>
      rw [ofSource?_array, Option.map_eq_some_iff]
      simp only [Json.mapM_eq_some_iff fun item hmem value => ih item hmem]
      constructor
      · rintro ⟨values, hvalues, rfl⟩
        exact .array hvalues
      · intro hdenotes
        cases hdenotes with
        | array hvalues => exact ⟨_, hvalues, rfl⟩
  | object hkeys hvalues _ =>
      obtain ⟨documents, hdocuments⟩ := exists_memberDocuments_of_complete (.object hkeys hvalues)
      rw [ofSource?_object, hdocuments]
      exact ofMembers?_eq_some_iff hdocuments

theorem ofSource?_eq_none_iff {source : Source} (hcomplete : source.Complete) :
    ofSource? source = none ↔ Shapeless source := by
  induction hcomplete with
  | null | bool =>
      exact iff_of_false (by simp [ofSource?, Source.document?, ofJson?]) (fun h => by cases h)
  | number hrange =>
      obtain ⟨number, hnumber, -⟩ := ofNumber_eq_iff hrange
      exact iff_of_false
        (by simp [ofSource?, Source.document?, hnumber, ofJson?]) (fun h => by cases h)
  | string text =>
      exact iff_of_false
        (by simp [ofSource?, Source.document?, Json.textOf?_lettersOf, ofJson?])
        (fun h => by cases h)
  | array hitems ih =>
      rw [ofSource?_array, Option.map_eq_none_iff, Json.mapM_eq_none_iff]
      constructor
      · rintro ⟨item, hmem, hitem⟩
        exact .array hmem ((ih item hmem).mp hitem)
      · intro hshapeless
        cases hshapeless with
        | array hmem hitem => exact ⟨_, hmem, (ih _ hmem).mpr hitem⟩
  | object hkeys hvalues _ =>
      obtain ⟨documents, hdocuments⟩ := exists_memberDocuments_of_complete (.object hkeys hvalues)
      rw [ofSource?_object, hdocuments]
      exact ofMembers?_eq_none_iff hdocuments

theorem understands_read (depth : Nat) : Json.Understands depth (read depth) ofSource? := by
  intro text source hspells before rest hbefore hrest
  have htree := Json.understands_readTree depth text source hspells before rest hbefore hrest
  rw [read, Json.toOption_bind, htree, ofSource?]
  cases source.document? with
  | none => rfl
  | some document => cases hvalue : ofJson? document <;> simp [hvalue] <;> rfl

theorem recognizes_read (depth : Nat) : Json.Recognizes depth (read depth) ofSource? := by
  intro text value rest hread
  obtain ⟨⟨document, after⟩, htree, hread⟩ := Grammar.bind_eq_ok_iff.mp hread
  simp only at hread
  split at hread
  next found hvalue =>
    obtain ⟨rfl, rfl⟩ := Prod.mk.inj (Except.ok.inj hread)
    obtain ⟨before, core, source, htext, hbefore, hspells, hdocument⟩ :=
      Json.recognizes_readTree depth _ _ _ htree
    refine ⟨before, core, source, htext, hbefore, hspells, ?_⟩
    rw [ofSource?, hdocument]
    exact hvalue
  next => contradiction

/-- No text is decoded but the texts of the grammar. -/
theorem ofText_eq_ok_iff {text : String} {value : Value} :
    ofText text = .ok value ↔
      ∃ source, SpellsDocument 127 text source ∧ source.Complete ∧ Denotes source value := by
  rw [ofText, Json.readDocument_eq_ok_iff (understands_read Json.nestingLimit)
    (recognizes_read Json.nestingLimit)]
  refine exists_congr fun source => and_congr_right fun hspells => ?_
  constructor
  · intro hvalue
    have hdocument : source.document? ≠ none := by
      intro hnone
      rw [ofSource?, hnone] at hvalue
      contradiction
    obtain ⟨_, _, _, _, _, _, hcore⟩ := hspells
    have hcomplete := complete_of_spells hcore hdocument
    exact ⟨hcomplete, (ofSource?_eq_some_iff hcomplete).mp hvalue⟩
  · rintro ⟨hcomplete, hdenotes⟩
    exact (ofSource?_eq_some_iff hcomplete).mpr hdenotes

theorem readDocument_of_complete
    {text : String} {source : Source} (hspells : SpellsDocument 127 text source)
    (hcomplete : source.Complete) :
    ∃ document, source.document? = some document ∧
      Json.readDocument Json.readTree text = .ok document := by
  obtain ⟨document, hdocument⟩ := exists_document_of_complete hcomplete
  have hread := (Json.understands_readTree Json.nestingLimit).readDocument hspells
  rw [hdocument] at hread
  exact ⟨document, hdocument, Json.eq_ok_of_toOption hread⟩

theorem ofText_of_readDocument
    {text : String} {document : Json}
    (hread : Json.readDocument Json.readTree text = .ok document) :
    ofText text =
      match ofJson? document with
      | some value => .ok value
      | none => .error (.noVariant "Value") := by
  rw [Json.readDocument] at hread
  cases htree : Json.readTree Json.nestingLimit text.toList with
  | error fault =>
      rw [htree] at hread
      contradiction
  | ok found =>
      obtain ⟨tree, rest⟩ := found
      simp only [htree, Json.ok_bind] at hread
      split at hread
      next hend =>
        obtain rfl : tree = document := Except.ok.inj hread
        rw [ofText, Json.readDocument, read, htree]
        cases hvalue : ofJson? tree with
        | some value =>
            simp only [Json.ok_bind, hvalue, pure_bind, hend, if_true]
            rfl
        | none =>
            simp only [Json.ok_bind, hvalue]
            rfl
      next => contradiction

/-- A JSON text without numbers out of range and halves that stand alone is decoded by its shape,
and no other text is decoded. -/
theorem ofText_by_shape :
    (∀ (text : String) (source : Source), SpellsDocument 127 text source → source.Complete →
        (∀ value, ofText text = .ok value ↔ Denotes source value) ∧
          (ofText text = .error (.noVariant "Value") ↔ Shapeless source) ∧
          ((∃ value, Denotes source value) ∨ Shapeless source)) ∧
      ∀ (text : String) (value : Value), ofText text = .ok value ↔
        ∃ source, SpellsDocument 127 text source ∧ source.Complete ∧ Denotes source value := by
  refine ⟨fun text source hspells hcomplete => ?_, fun text value => ofText_eq_ok_iff⟩
  obtain ⟨document, hdocument, hread⟩ := readDocument_of_complete hspells hcomplete
  have hsource : ofSource? source = ofJson? document := by rw [ofSource?, hdocument]; rfl
  have htext := ofText_of_readDocument hread
  simp only [← ofSource?_eq_some_iff hcomplete, ← ofSource?_eq_none_iff hcomplete, hsource]
  cases hvalue : ofJson? document with
  | some value =>
      rw [hvalue] at htext
      simp [htext]
  | none =>
      rw [hvalue] at htext
      simp [htext]

theorem ofText_by_shape_of_repeated_key :
    let entry : Source := .object [(lettersOf "resource", .string (lettersOf "a")),
      (lettersOf "closure", .string (lettersOf "f")), (lettersOf "resource", .null)]
    let source : Source := .array [.number ⟨true, ['0'], none, none⟩,
      .number ⟨false, ['1'], none, some (-23)⟩, entry]
    let text := " [-0 ,1e-23, \x7b\"resource\":\"a\", \"closure\" : \"f\",\"resource\":null\x7d]"
    let small : Binary64 :=
      ⟨false, 6805647338418770, -129, by decide, by decide, by decide, by decide⟩
    SpellsDocument 127 text source ∧ source.Complete ∧
      ofText text = .ok (.array [.double (.zero true), .double small, .closure "f"]) := by
  intro entry source text small
  have hresource : SpellsLetters "resource".toList (lettersOf "resource") := .of_plain (by simp)
  have hclosure : SpellsLetters "closure".toList (lettersOf "closure") := .of_plain (by simp)
  have hname (c : Char) (hc : c ≠ '"' ∧ c ≠ '\\' ∧ 0x20 ≤ c.toNat) :
      Spells 125 ['"', c, '"'] (.string [.char c]) :=
    .string 125 (.cons (.plain hc.1 hc.2.1 hc.2.2) .nil nofun)
  have hzero : Spells 126 ['-', '0'] (.number ⟨true, ['0'], none, none⟩) :=
    .number 126 ⟨[], [], rfl, ⟨⟨by simp, by simp⟩, by simp⟩, .absent, .absent⟩
  have hscaled :
      Spells 126 ['1', 'e', '-', '2', '3'] (.number ⟨false, ['1'], none, some (-23)⟩) :=
    .number 126 ⟨[], ['e', '-', '2', '3'], rfl, ⟨⟨by simp, by simp⟩, by simp⟩, .absent,
      .negative (.inl rfl) ⟨by simp, by simp⟩⟩
  have hentry :
      Spells 126 "\x7b\"resource\":\"a\", \"closure\" : \"f\",\"resource\":null\x7d".toList
        entry := by
    refine @Spells.object 125 []
      [⟨[], "resource".toList, [], lettersOf "resource",
          [], "\"a\"".toList, [], .string [.char 'a']⟩,
        ⟨[' '], "closure".toList, [' '], lettersOf "closure",
          [' '], "\"f\"".toList, [], .string [.char 'f']⟩,
        ⟨[], "resource".toList, [], lettersOf "resource", [], "null".toList, [], .null⟩] ?_ ?_ ?_
    · simp [IsBlanks]
    · simp only [List.forall_mem_cons]
      refine ⟨⟨?_, ?_, ⟨?_, ?_⟩, hresource⟩, ⟨?_, ?_, ⟨?_, ?_⟩, hclosure⟩,
        ⟨?_, ?_, ⟨?_, ?_⟩, hresource⟩, by simp⟩
      all_goals simp [IsBlanks, isBlank]
    · simp only [List.forall_mem_cons]
      exact ⟨hname 'a' (by decide), hname 'f' (by decide), .null 125, by simp⟩
  have hspells : SpellsDocument 127 text source := by
    refine ⟨[' '],
      "[-0 ,1e-23, \x7b\"resource\":\"a\", \"closure\" : \"f\",\"resource\":null\x7d]".toList, [],
      by decide, by simp [IsBlanks, isBlank], by simp [IsBlanks], ?_⟩
    refine @Spells.array 126 []
      [⟨[], ['-', '0'], [' '], .number ⟨true, ['0'], none, none⟩⟩,
        ⟨[], ['1', 'e', '-', '2', '3'], [], .number ⟨false, ['1'], none, some (-23)⟩⟩,
        ⟨[' '], "\x7b\"resource\":\"a\", \"closure\" : \"f\",\"resource\":null\x7d".toList,
          [], entry⟩] ?_ ?_ ?_
    · simp [IsBlanks]
    · simp [IsBlanks, isBlank, Json.Element.IsPadded]
    · simp only [List.forall_mem_cons]
      exact ⟨hzero, hscaled, hentry, by simp⟩
  have hcomplete : source.Complete := by
    refine .array ?_
    simp only [List.forall_mem_cons]
    refine ⟨.number (by decide +kernel), .number (by decide +kernel), .object ?_ ?_, by simp⟩
    · simp only [List.forall_mem_cons]
      exact ⟨⟨"resource", rfl⟩, ⟨"closure", rfl⟩, ⟨"resource", rfl⟩, by simp⟩
    · simp only [List.forall_mem_cons]
      exact ⟨.string "a", .string "f", .null, by simp⟩
  have hnumber : Denotes (.number ⟨true, ['0'], none, none⟩) (.double (.zero true)) := by
    refine .double (fun n hwrites => ?_) (by decide +kernel)
    exact absurd hwrites.value (hwrites.nonzero rfl)
  have hsmall : Denotes (.number ⟨false, ['1'], none, some (-23)⟩) (.double small) := by
    refine .double (fun n hwrites => ?_) (by decide +kernel)
    have hexponent := hwrites.exponent
    contradiction
  have hclosureOnly : Denotes entry (.closure "f") := by
    refine .closure (fun kind hkind => ?_) ⟨[_], [_], rfl, by decide⟩
    -- Two members have that name, so that neither of them is the only one.
    have hcount : 2 = 1 := congrArg List.length (Json.filter_eq_singleton_iff.mpr hkind)
    exact absurd hcount (by decide)
  refine ⟨hspells, hcomplete,
    ((ofText_by_shape.1 text source hspells hcomplete).1 _).mpr (.array ?_)⟩
  exact .cons hnumber (.cons hsmall (.cons hclosureOnly .nil))

end Value

end ArgumentContract

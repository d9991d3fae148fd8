import ArgumentContract.Json.Record
import ArgumentContract.Proofs.Json.Printed

/-!
# Printed records are read back

A record is printed as an object with a member for each of its fields.  Reading goes from the record
with every field at its default to the printed one, one member after the other; a field that is not
printed stays at its default.
-/

namespace ArgumentContract.Json

/-! ## Single fields -/

theorem Reads.map
    {α β : Type} {reader : Reader α} {part : List Char} {found : α}
    (hreads : Reads reader part found) (f : α → β) :
    Reads (fun text => do
      let (x, rest) ← reader text
      return (f x, rest)) part (f found) := by
  refine ⟨hreads.starts, fun rest hfollows => ?_⟩
  simp only [hreads.eq_ok rest hfollows]
  rfl

theorem reads_readText (text : String) : Reads readText (printString text) text := by
  refine ⟨⟨'"', _, rfl, rfl, by decide, by decide⟩, fun rest _ => ?_⟩
  rw [printString_append, readText, skipBlanks_cons rfl]
  exact readString_printed text rest

theorem reads_readOptional_readText (text : String) :
    Reads (readOptional readText) (printString text) (some text) := by
  have htext := (reads_readText text).map some
  refine ⟨htext.starts, fun rest hfollows => ?_⟩
  have hread := htext.eq_ok rest hfollows
  rw [printString_append] at hread ⊢
  exact hread

namespace Record

variable {σ : Type} {record : Record σ} {depth : Nat}

/-- Printed members lead from one state of a record to another.  The fields set so far are named in
`seen`, the last one first. -/
inductive Sets (record : Record σ) (depth : Nat) :
    List String → σ → List (List Char) → List String → σ → Prop
  | done (seen : List String) (state : σ) : Sets record depth seen state [] seen state
  | field {seen last : List String} {state next final : σ} {key : String} {part : List Char}
      {parts : List (List Char)} {field : Field σ}
      (hfield : record.fields.find? (·.name = key) = some field)
      (hnew : seen.contains key = false) (hpart : Reads (field.read depth state) part next)
      (hrest : Sets record depth (key :: seen) next parts last final) :
      Sets record depth seen state ((printString key ++ ':' :: part) :: parts) last final

theorem readMember_of_find?
    {key : String} {field : Field σ} {seen : List String} {state next : σ} {part : List Char}
    (hfield : record.fields.find? (·.name = key) = some field)
    (hnew : seen.contains key = false) (hpart : Reads (field.read depth state) part next)
    {rest : List Char} (hfollows : Follows rest) :
    record.readMember depth seen state key (':' :: (part ++ rest)) =
      .ok ((key :: seen, next), rest) := by
  have hread := hpart.eq_ok rest hfollows
  simp only [readMember, hfield, hnew, readColon_colon, bind, Except.bind]
  rw [hread]
  rfl

theorem Sets.readMembers_separated
    {seen last : List String} {state final : σ} {parts : List (List Char)}
    (hsets : record.Sets depth seen state parts last final) (first : Bool) {count : Nat}
    (hcount : parts.length < count) (rest : List Char) :
    record.readMembers depth count first seen state
        (separated first parts ++ '\x7d' :: rest) =
      .ok ((last, final), rest) := by
  induction hsets generalizing first count with
  | done seen state =>
      obtain ⟨count, rfl⟩ := Nat.exists_eq_add_of_lt hcount
      cases first <;> rfl
  | @field seen last state next final key part parts field hfield hnew hpart hsets ih =>
      obtain ⟨count, rfl⟩ : ∃ smaller, count = smaller + 1 := ⟨count - 1, by omega⟩
      have hrest := ih false (Nat.lt_of_succ_lt_succ hcount)
      have hmember :=
        readMember_of_find? hfield hnew hpart (follows_separated (Or.inr rfl) parts rest)
      simp only [separated_cons, List.append_assoc, List.cons_append]
      rw [Record.readMembers, nextKey_printString]
      simp only [bind, Except.bind, readString_printed, hmember, hrest]

theorem Sets.ne_nil
    {seen last : List String} {state final : σ} {parts : List (List Char)}
    (hsets : record.Sets depth seen state parts last final) :
    ∀ part ∈ parts, part ≠ [] := by
  induction hsets with
  | done => simp
  | field hfield hnew hpart hsets ih =>
      rw [List.forall_mem_cons]
      exact ⟨List.cons_ne_nil _ _, ih⟩

theorem Sets.readMembers_printed
    {seen last : List String} {state final : σ} {parts : List (List Char)}
    (hsets : record.Sets depth seen state parts last final) (rest : List Char) :
    record.readMembers depth (separate [','] parts ++ '\x7d' :: rest).length true seen state
        (separate [','] parts ++ '\x7d' :: rest) =
      .ok ((last, final), rest) :=
  hsets.readMembers_separated true
    (length_lt_separated_append hsets.ne_nil true '\x7d' rest) rest

/-- A record is read back from an object whose members set its fields, if no needed field is
missing among them. -/
theorem Sets.reads_read
    {last : List String} {final : σ} {parts : List (List Char)}
    (hsets : record.Sets depth [] record.blank parts last final)
    (hneeded : record.fields.find?
      (fun field => field.neededInObject && !last.contains field.name) = none) :
    Reads (record.read (depth + 1)) ('\x7b' :: separate [','] parts ++ ['\x7d']) final := by
  refine ⟨startsPart_brace _, fun rest _ => ?_⟩
  have hmembers := hsets.readMembers_printed rest
  simp only [List.cons_append, List.append_assoc, List.nil_append]
  rw [read, skipBlanks_cons rfl]
  simp only [readObject, bind, Except.bind, hmembers, hneeded]
  rfl

end Record

end ArgumentContract.Json

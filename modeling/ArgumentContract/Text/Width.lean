/-!
# Byte widths

Positions in a message are byte offsets of its UTF-8 form, while the text itself is handled as a
list of characters.  `width` is the number of bytes of a text; `takeBytes` and `dropBytes` cut a
text at an offset.  The two parts of a cut always make up the text again, and a cut at the width
of an initial part gives back exactly that part.
-/

namespace ArgumentContract.Text

/-- Bytes that a text occupies in UTF-8. -/
def width : List Char → Nat
  | [] => 0
  | c :: rest => c.utf8Size + width rest

/-- The longest initial part of whole characters that fits into `count` bytes. -/
def takeBytes : Nat → List Char → List Char
  | _, [] => []
  | count, c :: rest =>
      if c.utf8Size ≤ count then
        c :: takeBytes (count - c.utf8Size) rest
      else []

/-- What is left of a text after `takeBytes`. -/
def dropBytes : Nat → List Char → List Char
  | _, [] => []
  | count, c :: rest =>
      if c.utf8Size ≤ count then
        dropBytes (count - c.utf8Size) rest
      else c :: rest

theorem width_append (left right : List Char) :
    width (left ++ right) = width left + width right := by
  induction left with
  | nil => simp [width]
  | cons c rest ih => simp [width, ih, Nat.add_assoc]

theorem width_eq_zero_iff {text : List Char} : width text = 0 ↔ text = [] := by
  cases text with
  | nil => simp [width]
  | cons c rest =>
      have hpos := c.utf8Size_pos
      simp only [width, reduceCtorEq, iff_false]
      omega

theorem width_pos {text : List Char} (hne : text ≠ []) : 0 < width text :=
  Nat.pos_of_ne_zero (mt width_eq_zero_iff.mp hne)

theorem takeBytes_append_dropBytes (count : Nat) (text : List Char) :
    takeBytes count text ++ dropBytes count text = text := by
  induction text generalizing count with
  | nil => rfl
  | cons c rest ih =>
      by_cases hfits : c.utf8Size ≤ count
      · simp [takeBytes, dropBytes, hfits, ih]
      · simp [takeBytes, dropBytes, hfits]

theorem takeBytes_width (left right : List Char) :
    takeBytes (width left) (left ++ right) = left := by
  induction left with
  | nil =>
      cases right with
      | nil => rfl
      | cons c rest =>
          have hpos : ¬ c.utf8Size ≤ 0 := by
            have := c.utf8Size_pos
            omega
          simp [takeBytes, width, hpos]
  | cons c rest ih => simp [takeBytes, width, ih]

theorem dropBytes_width (left right : List Char) :
    dropBytes (width left) (left ++ right) = right := by
  have hparts := takeBytes_append_dropBytes (width left) (left ++ right)
  rw [takeBytes_width] at hparts
  exact List.append_cancel_left hparts

/-- A text has only one initial part of a given width. -/
theorem eq_of_append_eq_of_width_eq
    {left other right rest : List Char} (htext : left ++ right = other ++ rest)
    (hwidth : width left = width other) :
    left = other ∧ right = rest := by
  have hfront := takeBytes_width left right
  rw [htext, hwidth, takeBytes_width] at hfront
  subst hfront
  exact ⟨rfl, List.append_cancel_left htext⟩

end ArgumentContract.Text

namespace PrefixLogic.Text

/-- The number of bytes that a text takes in UTF-8. -/
def byteLength : List Char → Nat
  | [] => 0
  | c :: rest => c.utf8Size + byteLength rest

/-- The text after its first `count` bytes. -/
def dropBytes (count : Nat) : List Char → List Char
  | [] => []
  | c :: rest => if count = 0 then c :: rest else dropBytes (count - c.utf8Size) rest

/-- The first `count` bytes of a text. -/
def takeBytes (count : Nat) : List Char → List Char
  | [] => []
  | c :: rest => if count = 0 then [] else c :: takeBytes (count - c.utf8Size) rest

/-- The part of a text between two byte offsets, the second not included. -/
def byteSlice (text : List Char) (start stop : Nat) : List Char :=
  takeBytes (stop - start) (dropBytes start text)

@[simp] theorem byteLength_append (a b : List Char) :
    byteLength (a ++ b) = byteLength a + byteLength b := by
  induction a with
  | nil => simp [byteLength]
  | cons c rest ih => simp [byteLength, ih, Nat.add_assoc]

@[simp] theorem dropBytes_zero (text : List Char) : dropBytes 0 text = text := by
  cases text <;> rfl

@[simp] theorem takeBytes_zero (text : List Char) : takeBytes 0 text = [] := by
  cases text <;> rfl

/-- A cut at the length of a beginning falls right behind it. -/
@[simp] theorem dropBytes_byteLength_append (a b : List Char) :
    dropBytes (byteLength a) (a ++ b) = b := by
  induction a with
  | nil => simp [byteLength]
  | cons c rest ih =>
    have hpos := c.utf8Size_pos
    rw [byteLength, List.cons_append, dropBytes, if_neg (by omega), Nat.add_sub_cancel_left, ih]

@[simp] theorem takeBytes_byteLength_append (a b : List Char) :
    takeBytes (byteLength a) (a ++ b) = a := by
  induction a with
  | nil => simp [byteLength]
  | cons c rest ih =>
    have hpos := c.utf8Size_pos
    rw [byteLength, List.cons_append, takeBytes, if_neg (by omega), Nat.add_sub_cancel_left, ih]

/-- A slice whose ends fall between characters is exactly the text between them. -/
theorem byteSlice_append (a b c : List Char) :
    byteSlice (a ++ b ++ c) (byteLength a) (byteLength a + byteLength b) = b := by
  rw [byteSlice, Nat.add_sub_cancel_left, List.append_assoc, dropBytes_byteLength_append,
    takeBytes_byteLength_append]

theorem length_takeBytes_le (count : Nat) (text : List Char) :
    (takeBytes count text).length ≤ text.length := by
  induction text generalizing count with
  | nil => exact Nat.le_refl _
  | cons c rest ih =>
    rw [takeBytes]
    split
    · simp
    · simpa using ih _

theorem length_dropBytes_le (count : Nat) (text : List Char) :
    (dropBytes count text).length ≤ text.length := by
  induction text generalizing count with
  | nil => exact Nat.le_refl _
  | cons c rest ih =>
    rw [dropBytes]
    split
    · exact Nat.le_refl _
    · exact Nat.le_succ_of_le (ih _)

/-- A slice that begins behind the first byte is shorter than its text, which
    is what lets a group be read by the same rules as the text around it. -/
theorem length_byteSlice_lt {text : List Char} {start : Nat} (stop : Nat) (hne : text ≠ [])
    (hstart : 0 < start) : (byteSlice text start stop).length < text.length := by
  cases text with
  | nil => exact absurd rfl hne
  | cons c rest =>
    rw [byteSlice, dropBytes, if_neg (by omega)]
    exact Nat.lt_succ_of_le
      (Nat.le_trans (length_takeBytes_le _ _) (length_dropBytes_le _ _))

end PrefixLogic.Text

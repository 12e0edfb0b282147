namespace PrefixLogic.Utf8

/-- The bytes of a string in UTF-8, as it is stored. -/
def bytes (text : String) : List UInt8 :=
  text.toByteArray.data.toList

theorem bytes_eq_flatMap (text : String) :
    bytes text = text.toList.flatMap String.utf8EncodeChar := by
  have hencode : text.toByteArray = text.toList.utf8Encode := by
    rw [← String.toByteArray_ofList, String.ofList_toList]
  rw [bytes, hencode, List.utf8Encode, List.data_toByteArray]

/-- Bytes that are less than others, whatever stands behind either. -/
def Below (front front' : List UInt8) : Prop :=
  ∀ rest rest', front ++ rest < front' ++ rest'

theorem below_cons {byte byte' : UInt8} (hlt : byte < byte') (front front' : List UInt8) :
    Below (byte :: front) (byte' :: front') := by
  intro rest rest'
  exact List.cons_lt_cons_iff.mpr (.inl hlt)

/-- The number of bytes behind the first one of a character. -/
def following (value : Nat) : Nat :=
  if value ≤ 0x7f then 0 else if value ≤ 0x7ff then 1 else if value ≤ 0xffff then 2 else 3

/-- The bits that tell in the first byte how many others follow. -/
def marker : Nat → Nat
  | 0 => 0
  | 1 => 0xc0
  | 2 => 0xe0
  | _ => 0xf0

/-- A number in a first byte and some others, of which each holds six bits of it. -/
def encode (mark : Nat) : Nat → Nat → List UInt8
  | 0, value => [.ofNat (value + mark)]
  | count + 1, value => encode mark count (value / 64) ++ [.ofNat (value % 64 + 0x80)]

theorem utf8EncodeChar_eq_encode (c : Char) :
    String.utf8EncodeChar c =
      encode (marker (following c.val.toNat)) (following c.val.toNat) c.val.toNat := by
  have hbound : c.val.toNat < 0x110000 := by
    rcases c.valid with h | h <;> omega
  rw [String.utf8EncodeChar]
  generalize c.val.toNat = value at *
  unfold following
  split
  · rfl
  split
  · rw [Nat.mod_eq_of_lt (by omega)]
    rfl
  split
  · rw [Nat.mod_eq_of_lt (show value / 4096 < 16 by omega)]
    simp [encode, marker, Nat.div_div_eq_div_mul]
  · rw [Nat.mod_eq_of_lt (show value / 262144 < 8 by omega)]
    simp [encode, marker, Nat.div_div_eq_div_mul]

/-- What the first byte holds. -/
def leading (mark : Nat) : Nat → Nat → Nat
  | 0, value => value + mark
  | count + 1, value => leading mark count (value / 64)

theorem exists_encode_eq_cons (mark count value : Nat) :
    ∃ rest, encode mark count value = .ofNat (leading mark count value) :: rest := by
  induction count generalizing value with
  | zero => exact ⟨[], rfl⟩
  | succ count ih =>
    obtain ⟨rest, hrest⟩ := ih (value / 64)
    refine ⟨rest ++ [.ofNat (value % 64 + 0x80)], ?_⟩
    rw [encode, hrest, leading, List.cons_append]

theorem ofNat_lt_ofNat {a b : Nat} (hlt : a < b) (hbound : b < 256) :
    UInt8.ofNat a < UInt8.ofNat b := by
  rw [UInt8.lt_iff_toNat_lt, UInt8.toNat_ofNat', UInt8.toNat_ofNat']
  omega

/-- Of two numbers in as many bytes the higher bits decide, and where these are the same
    the last six. -/
theorem below_encode {mark count value value' : Nat} (hlt : value < value')
    (hbound : leading mark count value' < 256) :
    Below (encode mark count value) (encode mark count value') := by
  induction count generalizing value value' with
  | zero => exact below_cons (ofNat_lt_ofNat (Nat.add_lt_add_right hlt mark) hbound) [] []
  | succ count ih =>
    intro rest rest'
    rw [encode, encode, List.append_assoc, List.append_assoc]
    rcases Nat.lt_or_eq_of_le (Nat.div_le_div_right (Nat.le_of_lt hlt)) with hhigh | hhigh
    · exact ih hhigh hbound _ _
    · rw [hhigh]
      exact List.append_left_lt (below_cons (ofNat_lt_ofNat (by omega) (by omega)) [] [] rest rest')

/-- The first byte of a higher number in more bytes is higher, and no byte overflows. -/
theorem leading_following {value value' : Nat} (hlt : value < value')
    (hbound : value' < 0x110000) :
    leading (marker (following value')) (following value') value' < 256 ∧
    (following value = following value' ∨
      leading (marker (following value)) (following value) value <
        leading (marker (following value')) (following value') value') := by
  have hfirst : ∀ number, leading (marker (following number)) (following number) number =
      if number ≤ 0x7f then number
      else if number ≤ 0x7ff then number / 64 + 0xc0
      else if number ≤ 0xffff then number / 4096 + 0xe0
      else number / 262144 + 0xf0 := by
    intro number
    unfold following
    repeat' split
    all_goals simp [leading, marker, Nat.div_div_eq_div_mul]
  rw [hfirst, hfirst, following, following]
  -- One case for each pair of lengths; the longer one of the lower number cannot be.
  repeat' split
  all_goals omega

/-- Characters are ordered as their bytes are. -/
theorem below_utf8EncodeChar {c d : Char} (hlt : c < d) :
    Below (String.utf8EncodeChar c) (String.utf8EncodeChar d) := by
  have hvalue : c.val.toNat < d.val.toNat := hlt
  have hbound : d.val.toNat < 0x110000 := by
    rcases d.valid with h | h <;> omega
  obtain ⟨hbyte, hsame | hfirst⟩ := leading_following hvalue hbound
  · rw [utf8EncodeChar_eq_encode, utf8EncodeChar_eq_encode, hsame]
    exact below_encode hvalue hbyte
  · obtain ⟨rest, hrest⟩ := exists_encode_eq_cons _ _ c.val.toNat
    obtain ⟨rest', hrest'⟩ := exists_encode_eq_cons _ _ d.val.toNat
    rw [utf8EncodeChar_eq_encode, utf8EncodeChar_eq_encode, hrest, hrest']
    exact below_cons (ofNat_lt_ofNat hfirst hbyte) rest rest'

theorem flatMap_utf8EncodeChar_lt {a b : List Char} (hlt : a < b) :
    a.flatMap String.utf8EncodeChar < b.flatMap String.utf8EncodeChar := by
  induction a generalizing b with
  | nil =>
    cases b with
    | nil => exact absurd hlt (List.not_lt_nil [])
    | cons d rest' =>
      obtain ⟨byte, more, hbytes⟩ := List.exists_cons_of_ne_nil (@String.utf8EncodeChar_ne_nil d)
      rw [List.flatMap_nil, List.flatMap_cons, hbytes]
      exact List.nil_lt_cons _ _
  | cons c rest ih =>
    cases b with
    | nil => exact absurd hlt (List.not_lt_nil _)
    | cons d rest' =>
      rw [List.flatMap_cons, List.flatMap_cons]
      rcases List.cons_lt_cons_iff.mp hlt with hfirst | ⟨rfl, hrest⟩
      · exact below_utf8EncodeChar hfirst _ _
      · exact List.append_left_lt (ih hrest)

/-- The order of strings by their characters is the order by their bytes. -/
theorem bytes_lt_bytes_iff {a b : String} : bytes a < bytes b ↔ a < b := by
  have hmono : ∀ {a b : String}, a < b → bytes a < bytes b := by
    intro a b hlt
    rw [bytes_eq_flatMap, bytes_eq_flatMap]
    exact flatMap_utf8EncodeChar_lt hlt
  refine ⟨fun hbytes => ?_, hmono⟩
  refine String.not_le.mp fun hle => ?_
  by_cases heq : a = b
  · rw [heq] at hbytes
    exact List.lt_irrefl _ hbytes
  · have hlt : b < a := String.not_le.mp fun hge => heq (String.le_antisymm hge hle)
    exact List.lt_asymm hbytes (hmono hlt)

theorem bytes_le_bytes_iff {a b : String} : bytes a ≤ bytes b ↔ a ≤ b := by
  rw [← List.not_lt, ← String.not_lt, bytes_lt_bytes_iff]

end PrefixLogic.Utf8

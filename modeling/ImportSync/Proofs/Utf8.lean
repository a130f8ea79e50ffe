import ImportSync.Text.Utf8

/-!
A text survives being written and read again. Reading after a character's bytes goes on where the
bytes end, for each of the four lengths that a character can have.
-/

namespace ImportSync.Utf8

/-! ### Bytes one by one -/

/-- The range of the second byte of a character of three or four bytes, by its first byte. -/
def secondRange (b : Nat) : ByteRange :=
  (if b = 0xE0 then 0xA0 else if b = 0xF0 then 0x90 else 0x80,
    if b = 0xED then 0x9F else if b = 0xF4 then 0x8F else 0xBF)

theorem lead?_two {b : Nat} (hlow : 0xC2 ≤ b) (hhigh : b < 0xE0) :
    lead? b = some (b - 0xC0, [tail]) := by
  rw [lead?, if_neg (by omega), if_neg (by omega), if_pos hhigh]

theorem lead?_three {b : Nat} (hlow : 0xE0 ≤ b) (hhigh : b < 0xF0) :
    lead? b = some (b - 0xE0, [secondRange b, tail]) := by
  rw [lead?, if_neg (by omega), if_neg (by omega), if_neg (by omega)]
  by_cases hE0 : b = 0xE0
  · subst hE0
    rfl
  · rw [if_neg hE0]
    by_cases hED : b = 0xED
    · subst hED
      rfl
    · rw [if_neg hED, if_pos hhigh]
      simp [secondRange, tail, hE0, hED, show b ≠ 0xF0 by omega, show b ≠ 0xF4 by omega]

theorem lead?_four {b : Nat} (hlow : 0xF0 ≤ b) (hhigh : b < 0xF5) :
    lead? b = some (b - 0xF0, [secondRange b, tail, tail]) := by
  rw [lead?, if_neg (by omega), if_neg (by omega), if_neg (by omega), if_neg (by omega),
    if_neg (by omega), if_neg (by omega)]
  by_cases hF0 : b = 0xF0
  · subst hF0
    rfl
  · rw [if_neg hF0]
    by_cases hF4 : b = 0xF4
    · subst hF4
      rfl
    · rw [if_pos (by omega)]
      simp [secondRange, tail, hF0, hF4, show b ≠ 0xE0 by omega, show b ≠ 0xED by omega]

theorem unitsFrom_single {b : UInt8} (h : b.toNat < 0x80) (rest : Bytes) :
    unitsFrom 0 [] (b :: rest) = some (Char.ofNat b.toNat) :: unitsFrom 0 [] rest := by
  simp [unitsFrom, lead?, h]

theorem unitsFrom_lead {b : UInt8} {v : Nat} {range : ByteRange} {due : List ByteRange}
    (h : lead? b.toNat = some (v, range :: due)) (rest : Bytes) :
    unitsFrom 0 [] (b :: rest) = unitsFrom v (range :: due) rest := by
  simp [unitsFrom, h]

theorem unitsFrom_inner {b : UInt8} {v : Nat} {range next : ByteRange} {due : List ByteRange}
    (hlow : range.1 ≤ b.toNat) (hhigh : b.toNat ≤ range.2) (rest : Bytes) :
    unitsFrom v (range :: next :: due) (b :: rest) =
      unitsFrom (v * 64 + (b.toNat - 0x80)) (next :: due) rest := by
  simp [unitsFrom, hlow, hhigh]

theorem unitsFrom_last {b : UInt8} {v : Nat} {range : ByteRange}
    (hlow : range.1 ≤ b.toNat) (hhigh : b.toNat ≤ range.2) (rest : Bytes) :
    unitsFrom v [range] (b :: rest) =
      some (Char.ofNat (v * 64 + (b.toNat - 0x80))) :: unitsFrom 0 [] rest := by
  simp [unitsFrom, hlow, hhigh]

/-! ### Characters and texts -/

theorem toNat_ofNat_of_lt {n : Nat} (h : n < 256) : (UInt8.ofNat n).toNat = n := by
  simp [Nat.mod_eq_of_lt h]

theorem toNat_tail (k : Nat) : (UInt8.ofNat (0x80 + k % 64)).toNat = 0x80 + k % 64 :=
  toNat_ofNat_of_lt (by omega)

/-- A byte after the first one lies in the range of such bytes. -/
theorem tail_range (k : Nat) : tail.1 ≤ (UInt8.ofNat (0x80 + k % 64)).toNat ∧
    (UInt8.ofNat (0x80 + k % 64)).toNat ≤ tail.2 := by
  rw [toNat_tail]
  simp only [tail]
  omega

theorem unitsFrom_two {c : Nat} (hlow : 0x80 ≤ c) (hhigh : c < 0x800) (rest : Bytes) :
    unitsFrom 0 []
        (UInt8.ofNat (0xC0 + c / 64) :: UInt8.ofNat (0x80 + c % 64) :: rest) =
      some (Char.ofNat c) :: unitsFrom 0 [] rest := by
  have hb : (UInt8.ofNat (0xC0 + c / 64)).toNat = 0xC0 + c / 64 := toNat_ofNat_of_lt (by omega)
  have hvalue : (0xC0 + c / 64 - 0xC0) * 64 + (0x80 + c % 64 - 0x80) = c := by omega
  rw [unitsFrom_lead (lead?_two (by omega) (by omega)),
    unitsFrom_last (tail_range c).1 (tail_range c).2, hb, toNat_tail, hvalue]

theorem unitsFrom_three {c : Nat} (hlow : 0x800 ≤ c) (hhigh : c < 0x10000)
    (hvalid : c < 0xD800 ∨ 0xDFFF < c) (rest : Bytes) :
    unitsFrom 0 []
        (UInt8.ofNat (0xE0 + c / 4096) :: UInt8.ofNat (0x80 + c / 64 % 64) ::
          UInt8.ofNat (0x80 + c % 64) :: rest) =
      some (Char.ofNat c) :: unitsFrom 0 [] rest := by
  have hb : (UInt8.ofNat (0xE0 + c / 4096)).toNat = 0xE0 + c / 4096 :=
    toNat_ofNat_of_lt (by omega)
  have hsecond : (secondRange (0xE0 + c / 4096)).1 ≤ 0x80 + c / 64 % 64 ∧
      0x80 + c / 64 % 64 ≤ (secondRange (0xE0 + c / 4096)).2 := by
    simp only [secondRange]
    constructor <;> (repeat' split) <;> omega
  have hvalue : ((0xE0 + c / 4096 - 0xE0) * 64 + (0x80 + c / 64 % 64 - 0x80)) * 64 +
      (0x80 + c % 64 - 0x80) = c := by
    omega
  rw [← toNat_tail] at hsecond
  rw [unitsFrom_lead (lead?_three (by omega) (by omega)), hb,
    unitsFrom_inner hsecond.1 hsecond.2, unitsFrom_last (tail_range c).1 (tail_range c).2,
    toNat_tail, toNat_tail, hvalue]

theorem unitsFrom_four {c : Nat} (hlow : 0x10000 ≤ c) (hhigh : c < 0x110000) (rest : Bytes) :
    unitsFrom 0 []
        (UInt8.ofNat (0xF0 + c / 262144) :: UInt8.ofNat (0x80 + c / 4096 % 64) ::
          UInt8.ofNat (0x80 + c / 64 % 64) :: UInt8.ofNat (0x80 + c % 64) :: rest) =
      some (Char.ofNat c) :: unitsFrom 0 [] rest := by
  have hb : (UInt8.ofNat (0xF0 + c / 262144)).toNat = 0xF0 + c / 262144 :=
    toNat_ofNat_of_lt (by omega)
  have hsecond : (secondRange (0xF0 + c / 262144)).1 ≤ 0x80 + c / 4096 % 64 ∧
      0x80 + c / 4096 % 64 ≤ (secondRange (0xF0 + c / 262144)).2 := by
    simp only [secondRange]
    constructor <;> (repeat' split) <;> omega
  have hvalue : (((0xF0 + c / 262144 - 0xF0) * 64 + (0x80 + c / 4096 % 64 - 0x80)) * 64 +
      (0x80 + c / 64 % 64 - 0x80)) * 64 + (0x80 + c % 64 - 0x80) = c := by
    omega
  rw [← toNat_tail] at hsecond
  rw [unitsFrom_lead (lead?_four (by omega) (by omega)), hb,
    unitsFrom_inner hsecond.1 hsecond.2,
    unitsFrom_inner (tail_range (c / 64)).1 (tail_range (c / 64)).2,
    unitsFrom_last (tail_range c).1 (tail_range c).2, toNat_tail, toNat_tail, toNat_tail, hvalue]

/-- The bytes of a character are read as that character, whatever follows them. -/
theorem unitsFrom_encodeChar (c : Char) (rest : Bytes) :
    unitsFrom 0 [] (encodeChar c ++ rest) = some c :: unitsFrom 0 [] rest := by
  have hvalid : c.toNat < 0xD800 ∨ (0xDFFF < c.toNat ∧ c.toNat < 0x110000) := c.valid
  have hself : Char.ofNat c.toNat = c := Char.ofNat_toNat c
  rw [encodeChar]
  by_cases h1 : c.toNat < 0x80
  · have hb : (UInt8.ofNat c.toNat).toNat = c.toNat := toNat_ofNat_of_lt (by omega)
    simp only [if_pos h1, List.cons_append, List.nil_append]
    rw [unitsFrom_single (by omega), hb, hself]
  by_cases h2 : c.toNat < 0x800
  · simp only [if_neg h1, if_pos h2, List.cons_append, List.nil_append]
    rw [unitsFrom_two (by omega) h2, hself]
  by_cases h3 : c.toNat < 0x10000
  · simp only [if_neg h1, if_neg h2, if_pos h3, List.cons_append, List.nil_append]
    rw [unitsFrom_three (by omega) h3 (by omega), hself]
  · simp only [if_neg h1, if_neg h2, if_neg h3, List.cons_append, List.nil_append]
    rw [unitsFrom_four (by omega) (by omega), hself]

theorem units_encode (t : Text) : units (encode t) = t.map some := by
  induction t with
  | nil => rfl
  | cons c t ih =>
      rw [encode, List.flatMap_cons, units, unitsFrom_encodeChar]
      exact congrArg (some c :: ·) ih

/-- Reading the bytes of a text gives the text back. -/
theorem decode?_encode (t : Text) : decode? (encode t) = some t := by
  have hall : (units (encode t)).all Option.isSome = true := by
    simp [units_encode]
  rw [decode?, if_pos hall, units_encode, List.filterMap_map]
  simp

end ImportSync.Utf8

/-!
Texts as lists of characters. Classes of characters are ascending tables of code point ranges. A
character is blank when it has the property White_Space, which the byte order mark and the zero width
space do not have. Texts are trimmed, cut at a character or a part, and put together again.
-/

namespace ImportSync

/-- A text is the list of its characters, so that every rule about it is a recursion on it. -/
abbrev Text := List Char

namespace Text

/-- The code points from the first component to the second, both included. -/
abbrev CodeRange := Nat × Nat

def inRanges (ranges : List CodeRange) (n : Nat) : Bool :=
  ranges.any fun r => r.1 ≤ n && n ≤ r.2

end Text

end ImportSync

namespace ImportSync.Text

/-! ### Blanks -/

/-- Characters with the property White_Space. -/
def isBlank (c : Char) : Bool :=
  inRanges
    [(0x09, 0x0D), (0x20, 0x20), (0x85, 0x85), (0xA0, 0xA0), (0x1680, 0x1680), (0x2000, 0x200A),
     (0x2028, 0x2029), (0x202F, 0x202F), (0x205F, 0x205F), (0x3000, 0x3000)]
    c.toNat

def trimStart (t : Text) : Text :=
  t.dropWhile isBlank

def trimEnd (t : Text) : Text :=
  (t.reverse.dropWhile isBlank).reverse

def trim (t : Text) : Text :=
  trimEnd (trimStart t)

/-! ### Parts -/

def joinWith (sep : Text) (pieces : List Text) : Text :=
  sep.intercalate pieces

def hasPart (part : Text) : Text → Bool
  | [] => part.isEmpty
  | c :: rest => part.isPrefixOf (c :: rest) || hasPart part rest

/-- The text before the first occurrence of `part`, and the text from there on. -/
def cutAt? (part : Text) : Text → Option (Text × Text)
  | [] => if part.isEmpty then some ([], []) else none
  | c :: rest =>
    if part.isPrefixOf (c :: rest) then
      some ([], c :: rest)
    else
      (cutAt? part rest).map fun cut => (c :: cut.1, cut.2)

def afterLine? : Text → Option Text
  | [] => none
  | c :: rest => if c = '\n' then some rest else afterLine? rest

def lineOf (t : Text) : Text :=
  t.takeWhile (· != '\n')

theorem length_afterLine?_lt {t r : Text} (h : afterLine? t = some r) :
    r.length < t.length := by
  induction t with
  | nil => simp [afterLine?] at h
  | cons c rest ih =>
    simp only [afterLine?] at h
    split at h
    · simp only [Option.some.injEq] at h
      simp [h]
    · exact Nat.lt_succ_of_lt (ih h)

theorem length_cutAt?_le {part t a b : Text} (h : cutAt? part t = some (a, b)) :
    b.length ≤ t.length := by
  induction t generalizing a with
  | nil =>
    simp only [cutAt?] at h
    split at h <;> simp_all
  | cons c rest ih =>
    simp only [cutAt?] at h
    split at h
    · simp only [Option.some.injEq, Prod.mk.injEq] at h
      simp [← h.2]
    · obtain ⟨cut, found, eq⟩ := Option.map_eq_some_iff.1 h
      simp only [Prod.mk.injEq] at eq
      have := ih (a := cut.1) (by rw [found, ← eq.2])
      exact Nat.le_succ_of_le this

theorem length_afterLine_getD_le (t : Text) :
    ((afterLine? t).getD []).length ≤ t.length := by
  cases h : afterLine? t with
  | none => simp
  | some r => exact Nat.le_of_lt (length_afterLine?_lt h)

/-- Replaces occurrences of `part` from left to right, the first `skip` characters being the rest
of an occurrence that was replaced already. -/
def replaceFrom (part replacement : Text) : Nat → Text → Text
  | _, [] => []
  | skip + 1, _ :: rest => replaceFrom part replacement skip rest
  | 0, c :: rest =>
    if part.isPrefixOf (c :: rest) then
      replacement ++ replaceFrom part replacement (part.length - 1) rest
    else
      c :: replaceFrom part replacement 0 rest

/-- Replaces every occurrence of the non-empty text `part`, from left to right and without looking
at what was put in. -/
def replaceAll (part replacement : Text) (t : Text) : Text :=
  replaceFrom part replacement 0 t

def ofNat (n : Nat) : Text :=
  Nat.toDigits 10 n

/-! ### Characters by number -/

def hexDigit? (c : Char) : Option Nat :=
  if c.isDigit then some (c.toNat - '0'.toNat)
  else if 'a' ≤ c ∧ c ≤ 'f' then some (c.toNat - 'a'.toNat + 10)
  else if 'A' ≤ c ∧ c ≤ 'F' then some (c.toNat - 'A'.toNat + 10)
  else none

def hexValue? (digits : Text) : Option Nat :=
  digits.foldlM (fun n c => (hexDigit? c).map (n * 16 + ·)) 0

/-- What a quoted text is made of. An escape may name half of a pair by itself, which is no
character. -/
inductive Unit16 where
  | char (c : Char)
  | high (n : Nat)
  | low (n : Nat)
  deriving DecidableEq, Repr

namespace Unit16

def ofNat (n : Nat) : Unit16 :=
  if 0xD800 ≤ n ∧ n < 0xDC00 then .high n
  else if 0xDC00 ≤ n ∧ n < 0xE000 then .low n
  else .char (Char.ofNat n)

/-- Puts a character in the place of two halves that stand together. -/
def joinHalves : List Unit16 → List Unit16
  | [] => []
  | .high h :: .low l :: rest =>
    .char (Char.ofNat (0x10000 + (h - 0xD800) * 0x400 + (l - 0xDC00))) :: joinHalves rest
  | u :: rest => u :: joinHalves rest

def char? : Unit16 → Option Char
  | .char c => some c
  | _ => none

end Unit16

/-- The text of a list of units, if no half stands alone. -/
def ofUnits? (units : List Unit16) : Option Text :=
  (Unit16.joinHalves units).mapM Unit16.char?

end ImportSync.Text

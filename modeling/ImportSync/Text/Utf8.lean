import ImportSync.Text.Basic

/-!
Texts as bytes. Reading yields a list with an entry for every character and for every malformed
sequence, a malformed sequence being as long as the bytes could still have become a character. The
strict reading wants characters only; the lossy one puts a replacement character where a malformed
sequence stands.
-/

namespace ImportSync.Utf8

abbrev Bytes := List UInt8

abbrev ByteRange := Nat × Nat

def tail : ByteRange := (0x80, 0xBF)

/-- What the first byte of a character says: its share of the code point, and the ranges of the bytes
that are to follow. None if no character starts with the byte. -/
def lead? (b : Nat) : Option (Nat × List ByteRange) :=
  if b < 0x80 then some (b, [])
  else if b < 0xC2 then none
  else if b < 0xE0 then some (b - 0xC0, [tail])
  else if b = 0xE0 then some (0, [(0xA0, 0xBF), tail])
  else if b = 0xED then some (0xD, [(0x80, 0x9F), tail])
  else if b < 0xF0 then some (b - 0xE0, [tail, tail])
  else if b = 0xF0 then some (0, [(0x90, 0xBF), tail, tail])
  else if b < 0xF4 then some (b - 0xF0, [tail, tail, tail])
  else if b = 0xF4 then some (4, [(0x80, 0x8F), tail, tail])
  else none

/-- Reads bytes after the beginning of a character, of which `due` is still to come. -/
def unitsFrom (value : Nat) (due : List ByteRange) : Bytes → List (Option Char)
  | [] => if due.isEmpty then [] else [none]
  | b :: rest =>
    let start :=
      match lead? b.toNat with
      | none => none :: unitsFrom 0 [] rest
      | some (v, []) => some (Char.ofNat v) :: unitsFrom 0 [] rest
      | some (v, due) => unitsFrom v due rest
    match due with
    | [] => start
    | range :: due =>
      if range.1 ≤ b.toNat && b.toNat ≤ range.2 then
        let v := value * 64 + (b.toNat - 0x80)
        if due.isEmpty then
          some (Char.ofNat v) :: unitsFrom 0 [] rest
        else
          unitsFrom v due rest
      else
        none :: start

/-- The characters of a byte sequence, and none for every malformed sequence. -/
def units (bytes : Bytes) : List (Option Char) :=
  unitsFrom 0 [] bytes

def decode? (bytes : Bytes) : Option Text :=
  let found := units bytes
  if found.all Option.isSome then some (found.filterMap id) else none

def replacement : Char := Char.ofNat 0xFFFD

def decodeLossy (bytes : Bytes) : Text :=
  (units bytes).map (·.getD replacement)

def encodeChar (c : Char) : Bytes :=
  let n := c.toNat
  let tailByte (k : Nat) : UInt8 := .ofNat (0x80 + k % 64)
  if n < 0x80 then [.ofNat n]
  else if n < 0x800 then [.ofNat (0xC0 + n / 64), tailByte n]
  else if n < 0x10000 then [.ofNat (0xE0 + n / 4096), tailByte (n / 64), tailByte n]
  else [.ofNat (0xF0 + n / 262144), tailByte (n / 4096), tailByte (n / 64), tailByte n]

def encode (t : Text) : Bytes :=
  t.flatMap encodeChar

end ImportSync.Utf8

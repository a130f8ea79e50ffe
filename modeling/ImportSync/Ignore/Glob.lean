import ImportSync.Text.Basic
import ImportSync.Text.Utf8

/-!
Glob patterns over the bytes of a path. A question mark stands for one byte and a star for any number
of them, neither for a slash; two stars between slashes, or between a slash and an end, stand for any
number of directories. Braces hold alternatives, brackets hold a class, and a backslash takes the
character after it as it is. A bracket that is never closed is taken as it is as well.
-/

namespace ImportSync.Ignore

open Utf8 (Bytes ByteRange)

def slash : UInt8 := 0x2F

inductive GlobPart where
  | literal (bytes : Bytes)
  /-- One byte, no slash. -/
  | any
  /-- Any number of bytes without a slash. -/
  | star
  /-- Any number of directories at the start. -/
  | deepStart
  /-- A slash and anything after it, at the end. -/
  | deepEnd
  /-- A slash, and any number of directories after it. -/
  | deepMiddle
  /-- One byte in the ranges, or outside of them. -/
  | oneOf (negated : Bool) (ranges : List ByteRange)
  deriving DecidableEq, Repr

/-- A pattern is the list of its alternatives without braces. -/
abbrev Glob := List (List GlobPart)

/-! ### Characters of a pattern -/

inductive GlobSign where
  | literal (c : Char)
  | any
  | star
  | oneOf (negated : Bool) (ranges : List (Char × Char))
  | opening
  | comma
  | closing
  deriving DecidableEq, Repr

/-- What is known of a class after some of its characters: its ranges, the last one first, and whether
the last one is still to get its end. -/
structure ClassReading where
  ranges : List (Char × Char) := []
  inRange : Bool := false

/-- Reads one character of a class. A range cannot run backwards. -/
def ClassReading.step (r : ClassReading) (c : Char) : Option ClassReading :=
  match r.ranges, r.inRange with
  | (first, _) :: others, true =>
    if c < first then none else some { ranges := (first, c) :: others }
  | [], _ => some { ranges := [(c, c)] }
  | ranges, false =>
    if c = '-' then some { ranges, inRange := true } else some { ranges := (c, c) :: ranges }

/-- The ranges of a class. A dash at the end stands for itself. -/
def classRanges? (members : Text) : Option (List (Char × Char)) :=
  (members.foldlM ClassReading.step {}).map fun r =>
    (if r.inRange then ('-', '-') :: r.ranges else r.ranges).reverse

/-- The members of the class that starts after an opening bracket: whether the class is negated, and
its characters. The first character can be a closing bracket. None if the class is not closed. -/
def classMembers? (t : Text) : Option (Bool × Text) :=
  let negated := t.head? == some '!' || t.head? == some '^'
  match if negated then t.drop 1 else t with
  | [] => none
  | c :: rest =>
    if rest.contains ']' then some (negated, c :: rest.takeWhile (· != ']')) else none

/-- The signs of a pattern, the first `skip` characters being part of the sign before. None if a
backslash ends the pattern or a range runs backwards. -/
def signsFrom? : Nat → Text → Option (List GlobSign)
  | _, [] => some []
  | skip + 1, _ :: rest => signsFrom? skip rest
  | 0, c :: rest =>
    let plain (sign : GlobSign) := (signsFrom? 0 rest).map (sign :: ·)
    match c with
    | '\\' => rest.head?.bind fun d => (signsFrom? 1 rest).map (.literal d :: ·)
    | '?' => plain .any
    | '*' => plain .star
    | '\x7b' => plain .opening
    | ',' => plain .comma
    | '\x7d' => plain .closing
    | '[' =>
      match classMembers? rest with
      | none => plain (.literal '[')
      | some (negated, members) => do
        let ranges ← classRanges? members
        let others ← signsFrom? ((if negated then 1 else 0) + members.length + 1) rest
        return .oneOf negated ranges :: others
    | c => plain (.literal c)

/-! ### Alternatives -/

/-- A brace that is open: what stands before it, and its alternatives that are complete. -/
structure OpenBrace where
  before : Glob
  branches : Glob := []

/-- A pattern that is being read. Parts are kept backwards. -/
structure GlobReading where
  braces : List OpenBrace := []
  current : Glob := [[]]
  last : Option GlobSign := none

namespace GlobReading

def push (r : GlobReading) (p : GlobPart) : GlobReading :=
  { r with current := r.current.map (p :: ·) }

/-- Puts a part for any number of directories in place of the slash before it. Several of them in a
row at one end are one. -/
def deepen (r : GlobReading) (p : GlobPart) : GlobReading :=
  { r with current := r.current.map fun parts =>
      match parts with
      | .deepStart :: _ => parts
      | .deepEnd :: _ => parts
      | _ => p :: parts.drop 1 }

def isStart (r : GlobReading) : Bool :=
  r.current.all List.isEmpty

/-- Whether two stars may stand for directories after what comes before them. -/
def mayDeepen (r : GlobReading) : Bool :=
  match r.last with
  | some (.literal '/') => true
  | some .comma | some .opening => !r.braces.isEmpty
  | _ => false

def endsBefore (r : GlobReading) : List GlobSign → Bool
  | [] => true
  | .comma :: _ | .closing :: _ => !r.braces.isEmpty
  | _ => false

/-- Closes a brace. Empty alternatives do not count. -/
def closeBrace (r : GlobReading) : Option GlobReading :=
  match r.braces with
  | [] => none
  | brace :: braces =>
    let branches := (brace.branches ++ r.current).filter (!·.isEmpty)
    let branches := if branches.isEmpty then [[]] else branches
    some { r with
      braces
      current := brace.before.flatMap fun before => branches.map (· ++ before) }

end GlobReading

def singles (bytes : Bytes) : List ByteRange :=
  bytes.map fun b => (b.toNat, b.toNat)

/-- The byte ranges of a range of characters. A character of several bytes stands for each of them,
and a range leads from the last byte of its start to the first byte of its end. -/
def byteRanges (first last : Char) : List ByteRange :=
  let low := Utf8.encodeChar first
  let high := Utf8.encodeChar last
  if first = last then singles low
  else
    singles low.dropLast ++ [(((low.getLast?).getD 0).toNat, ((high.head?).getD 0).toNat)]
      ++ singles (high.drop 1)

def readSigns (r : GlobReading) : List GlobSign → Option Glob
  | [] => if r.braces.isEmpty then some (r.current.map List.reverse) else none
  | .star :: .star :: .literal '/' :: rest =>
    let after : Option GlobSign := some (.literal '/')
    if r.isStart then
      readSigns { r.push .deepStart with last := after } rest
    else if r.mayDeepen then
      readSigns { r.deepen .deepMiddle with last := after } rest
    else
      readSigns { ((r.push .star).push .star).push (.literal [slash]) with last := after } rest
  | .star :: .star :: rest =>
    let r' := { r with last := some .star }
    if r.isStart && rest.isEmpty then
      readSigns (r'.push .deepStart) rest
    else if !r.isStart && r.mayDeepen && r.endsBefore rest then
      readSigns (r'.deepen .deepEnd) rest
    else
      readSigns ((r'.push .star).push .star) rest
  | sign :: rest =>
    let r' := { r with last := some sign }
    match sign with
    | .literal c => readSigns (r'.push (.literal (Utf8.encodeChar c))) rest
    | .any => readSigns (r'.push .any) rest
    | .star => readSigns (r'.push .star) rest
    | .oneOf negated ranges =>
      readSigns (r'.push (.oneOf negated (ranges.flatMap fun (a, b) => byteRanges a b))) rest
    | .opening =>
      readSigns { r' with
        braces := { before := r.current } :: r.braces
        current := [[]] } rest
    | .comma =>
      match r.braces with
      | [] => readSigns (r'.push (.literal (Utf8.encodeChar ','))) rest
      | brace :: braces =>
        readSigns { r' with
          braces := { brace with branches := brace.branches ++ r.current } :: braces
          current := [[]] } rest
    | .closing => r'.closeBrace.bind fun r => readSigns r rest

def Glob.ofText? (t : Text) : Option Glob :=
  (signsFrom? 0 t).bind (readSigns {})

/-! ### Matching -/

def suffixes : Bytes → List Bytes
  | [] => [[]]
  | b :: rest => (b :: rest) :: suffixes rest

def afterStar : Bytes → List Bytes
  | [] => [[]]
  | b :: rest => (b :: rest) :: if b = slash then [] else afterStar rest

def afterSlashes : Bytes → List Bytes
  | [] => []
  | b :: rest => if b = slash then rest :: afterSlashes rest else afterSlashes rest

/-- What can be left of a path when a part has taken its share. -/
def GlobPart.rests (p : GlobPart) (s : Bytes) : List Bytes :=
  match p with
  | .literal bytes => if bytes.isPrefixOf s then [s.drop bytes.length] else []
  | .any =>
    match s with
    | b :: rest => if b = slash then [] else [rest]
    | [] => []
  | .star => afterStar s
  | .deepStart => s :: afterSlashes s
  | .deepEnd =>
    match s with
    | b :: rest => if b = slash then suffixes rest else []
    | [] => []
  | .deepMiddle =>
    match s with
    | b :: rest => if b = slash then rest :: afterSlashes rest else []
    | [] => []
  | .oneOf negated ranges =>
    match s with
    | b :: rest =>
      if (ranges.any fun r => r.1 ≤ b.toNat && b.toNat ≤ r.2) != negated then [rest] else []
    | [] => []

/-- Whether parts in a row take up a whole path. Directories alone take up everything. -/
def covers (parts : List GlobPart) (s : Bytes) : Bool :=
  parts = [.deepStart] ||
    (parts.foldl (fun rests p => rests.flatMap p.rests) [s]).any List.isEmpty

def Glob.covers (g : Glob) (s : Bytes) : Bool :=
  List.any g fun parts => Ignore.covers parts s

end ImportSync.Ignore

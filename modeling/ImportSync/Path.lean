import ImportSync.Text.Basic
import ImportSync.Text.Lowercase

/-!
Paths as texts. A path is cut at its slashes; empty pieces and pieces that are a single dot name
nothing, and two dots name the directory above. Paths of scanned files are kept in one spelling, with
forward slashes and without a slash at the end.

A cleaned path has no piece that names nothing, and two dots stand in it only at the start of a relative
path: elsewhere they cancel the piece before them, and at the root they have no effect. There is a way
from one place to another unless only one of the two paths is absolute, or the start lies below a
directory whose name its path does not tell.

Paths are ordered segment by segment without regard to case, so that the files of a directory stay
together; a path comes before those that go on from it, and paths that differ in nothing else are ordered
by their spelling.
-/

namespace ImportSync

namespace Path

def isAbsolute (p : Text) : Bool :=
  p.head? == some '/'

def here : Text := ['.']

def above : Text := ['.', '.']

/-- The pieces of a path that name something, in order. -/
def pieces (p : Text) : List Text :=
  (List.splitOn '/' p).filter fun s => !s.isEmpty && s != here

def ofPieces (absolute : Bool) (ps : List Text) : Text :=
  (if absolute then ['/'] else []) ++ Text.joinWith ['/'] ps

/-- Appends a path to a directory. An absolute path stays what it is. -/
def join (dir p : Text) : Text :=
  if isAbsolute p || dir.isEmpty then p
  else if dir.getLast? == some '/' then dir ++ p
  else dir ++ '/' :: p

/-- The one spelling of a path: forward slashes, and none at the end. -/
def normalize (p : Text) : Text :=
  ((p.map fun c => if c = '\\' then '/' else c).reverse.dropWhile (· == '/')).reverse

/-- Drops what names nothing from the end of a path: slashes, and single dots after them. The path is
given backwards. -/
def trimEndReversed : Text → Text
  | '/' :: rest => if rest.isEmpty then ['/'] else trimEndReversed rest
  | '.' :: '/' :: rest => if rest.isEmpty then ['/'] else trimEndReversed rest
  | p => p

/-- The directory that a path lies in, spelled as in the path. The root lies in none, and neither
does the empty path. -/
def parent? (p : Text) : Option Text :=
  match trimEndReversed p.reverse with
  | [] => none
  | ['/'] => none
  | reversed => some (trimEndReversed (reversed.dropWhile (· != '/'))).reverse

/-- The last piece of a path, unless it names a directory above. -/
def fileName? (p : Text) : Option Text :=
  match (pieces p).getLast? with
  | some s => if s == above then none else some s
  | none => none

/-- A file name cut at its last dot: the stem before it, and the extension after it. A dot that the
name starts with does not count. -/
def splitName (s : Text) : Text × Option Text :=
  let extension := (s.reverse.takeWhile (· != '.')).reverse
  let stem := s.take (s.length - extension.length - 1)
  if extension.length == s.length || stem.isEmpty then (s, none) else (stem, some extension)

def extension? (p : Text) : Option Text :=
  (fileName? p).bind fun s => (splitName s).2

def stem? (p : Text) : Option Text :=
  (fileName? p).map fun s => (splitName s).1

end Path

/-- The path of a scanned file, in its one spelling. -/
structure SourcePath where
  text : Text
  deriving DecidableEq, Repr

namespace SourcePath

def ofText (p : Text) : SourcePath :=
  ⟨Path.normalize p⟩

/-- The pieces between the slashes, empty ones included. -/
def segments (m : SourcePath) : List Text :=
  List.splitOn '/' m.text

def fileName (m : SourcePath) : Text :=
  m.segments.getLast?.getD []

/-- Whether the path ends in a dot and the extension, letter case aside. The extension may be given
with its dot or without, and may contain dots. -/
def hasExtension (m : SourcePath) (extension : Text) : Bool :=
  let wanted := Text.lowercase (extension.dropWhile (· == '.'))
  !wanted.isEmpty && ('.' :: wanted).isSuffixOf (Text.lowercase m.text)

def hasAnyExtension (m : SourcePath) (extensions : List Text) : Bool :=
  extensions.any m.hasExtension

end SourcePath

end ImportSync

namespace ImportSync.Path

/-! ### Cleaning -/

/-- Adds one piece to the cleaned pieces before it, which are given backwards. -/
def pushPiece (absolute : Bool) (before : List Text) (piece : Text) : List Text :=
  if piece = above then
    match before with
    | [] => if absolute then [] else [above]
    | last :: others => if last = above then above :: before else others
  else
    piece :: before

def cleanPieces (p : Text) : List Text :=
  ((pieces p).foldl (pushPiece (isAbsolute p)) []).reverse

/-- The cleaned path with the given pieces; a single dot if it would be empty. -/
def ofCleanPieces (absolute : Bool) (ps : List Text) : Text :=
  if ps.isEmpty && !absolute then here else ofPieces absolute ps

/-- The shortest path that leads to the same place, as far as its text tells. -/
def clean (p : Text) : Text :=
  ofCleanPieces (isAbsolute p) (cleanPieces p)

/-! ### The way from one place to another -/

/-- What is left of two lists after the beginning they share. -/
def dropCommon : List Text → List Text → List Text × List Text
  | a :: as, b :: bs => if a = b then dropCommon as bs else (a :: as, b :: bs)
  | as, bs => (as, bs)

/-- The pieces of the way from `base` to `target`: up out of what is left of the base, and down into
what is left of the target. -/
def relativePieces? (target base : Text) : Option (List Text) :=
  if isAbsolute target != isAbsolute base then
    none
  else
    let (down, up) := dropCommon (cleanPieces target) (cleanPieces base)
    if up.contains above then none else some (up.map (fun _ => above) ++ down)

def relative? (target base : Text) : Option Text :=
  (relativePieces? target base).map (ofCleanPieces false)

/-- How a module in the directory `dir` refers to the file at `target`: the relative path after `./`,
or the target itself where there is no relative path. -/
def reference (dir target : Text) : Text :=
  match relative? target dir with
  | some way => "./".toList ++ way
  | none => normalize target

/-! ### Order -/

def compareLists (cmp : α → α → Ordering) : List α → List α → Ordering
  | [], [] => .eq
  | [], _ :: _ => .lt
  | _ :: _, [] => .gt
  | a :: as, b :: bs => (cmp a b).then (compareLists cmp as bs)

/-- Compares two texts by code point, which orders them as their UTF-8 bytes do. -/
def compareTexts (a b : Text) : Ordering :=
  compareLists (fun x y => compare x.toNat y.toNat) a b

/-- Compares two paths by a case folding of their segments, and by their spelling where that does not
tell them apart. -/
def compareBy (fold : Char → Text) (a b : Text) : Ordering :=
  let folded (p : Text) := (List.splitOn '/' p).map fun s => s.flatMap fold
  (compareLists compareTexts (folded a) (folded b)).then (compareTexts a b)

def compare (a b : Text) : Ordering :=
  compareBy Text.lowerChar a b

end ImportSync.Path

namespace ImportSync.SourcePath

def sortBy (fold : Char → Text) (ms : List SourcePath) : List SourcePath :=
  ms.mergeSort fun a b => (Path.compareBy fold a.text b.text).isLE

def sort (ms : List SourcePath) : List SourcePath :=
  sortBy Text.lowerChar ms

end ImportSync.SourcePath

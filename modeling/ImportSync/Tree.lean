import ImportSync.Failure
import ImportSync.Ignore.Rules
import ImportSync.Path
import ImportSync.Text.Utf8

/-!
A file tree as a value. Everything in it has a location, which is the list of names that lead to it from
the root; what lies at a location is a file, a directory or a symbolic link. Links are followed wherever
they stand in a path, two dots lead to the directory that holds the one reached so far, and a path that
goes through too many links leads nowhere.

The tree is as much of a file system as a run depends on. Names are texts, so names that are not
well-formed cannot stand in it. A file has one location, so two names of one file (hard links) are two
files. There are no owners, permissions or times, and reading what is there never fails: a file is
unreadable only where a path leads to none.

Walking enters directories but no links to directories; links to files count as files. On request, hidden
entries are left out and ignore files are obeyed: the two kinds that stand in directories, those of the
directories above included, but no rules that a repository or a user keeps elsewhere. A walk fails only
where there is nothing at its root.
-/

namespace ImportSync

/-- The names that lead from the root to a place. -/
abbrev Location := List Text

inductive Entry where
  | file (bytes : Utf8.Bytes)
  | dir
  | link (target : Text)
  deriving DecidableEq, Repr

/-- A file tree, and the directory in it from which relative paths lead. -/
structure FileTree where
  workingDir : Location
  entries : List (Location × Entry)
  deriving Repr

namespace FileTree

/-- What lies at a location. The root is always a directory. -/
def get? (t : FileTree) (l : Location) : Option Entry :=
  if l.isEmpty then some .dir else t.entries.lookup l

def set (t : FileTree) (l : Location) (e : Entry) : FileTree :=
  { t with entries := t.entries.filter (·.1 != l) ++ [(l, e)] }

/-- Takes away what lies at a location and below it. -/
def erase (t : FileTree) (l : Location) : FileTree :=
  { t with entries := t.entries.filter (!l.isPrefixOf ·.1) }

def isDirAt (t : FileTree) (l : Location) : Bool :=
  match t.get? l with
  | some .dir => true
  | _ => false

def pathOf (l : Location) : Text :=
  Path.ofPieces true l

def workingPath (t : FileTree) : Text :=
  pathOf t.workingDir

/-- The files and links below a directory, by the names that lead to them from there. -/
def filesBelow (t : FileTree) (dir : Location) : List (Location × Entry) :=
  t.entries.filterMap fun (l, e) =>
    match e with
    | .dir => none
    | _ => if dir.isPrefixOf l && l != dir then some (l.drop dir.length, e) else none

/-- What files and links below a directory became: those that are new, other or gone. -/
def changesBelow (before after : FileTree) (dir : Location) : List (Location × Option Entry) :=
  let old := before.filesBelow dir
  let new := after.filesBelow dir
  (new.filterMap fun (l, e) => if old.lookup l = some e then none else some (l, some e))
    ++ old.filterMap fun (l, _) => if (new.lookup l).isSome then none else some (l, none)

end FileTree

end ImportSync

namespace ImportSync.FileTree

/-! ### Where a path leads -/

/-- Follows the pieces of a path from a directory as far as the first link, where `jump` goes on. The
last piece may lead to nothing as long as it lies in a directory. -/
def followWith (jump : Location → List Text → Option Location) (t : FileTree) (dir : Location) :
    List Text → Option Location
  | [] => some dir
  | piece :: rest =>
    if piece.isEmpty || piece == Path.here then
      followWith jump t dir rest
    else if piece == Path.above then
      followWith jump t dir.dropLast rest
    else
      match t.get? (dir ++ [piece]) with
      | some .dir => followWith jump t (dir ++ [piece]) rest
      | some (.link target) =>
        jump (if Path.isAbsolute target then [] else dir) (List.splitOn '/' target ++ rest)
      | _ => if rest.isEmpty then some (dir ++ [piece]) else none

def follow (t : FileTree) : Nat → Location → List Text → Option Location
  | 0 => t.followWith fun _ _ => none
  | links + 1 => t.followWith (t.follow links)

def linkLimit : Nat := 40

/-- Where a path leads: to something, or to nothing in a directory. -/
def locate? (t : FileTree) (p : Text) : Option Location :=
  if p.isEmpty then none
  else t.follow linkLimit (if Path.isAbsolute p then [] else t.workingDir) (List.splitOn '/' p)

def find? (t : FileTree) (p : Text) : Option Entry :=
  (t.locate? p).bind t.get?

def read? (t : FileTree) (p : Text) : Option Utf8.Bytes :=
  match t.find? p with
  | some (.file bytes) => some bytes
  | _ => none

def readText? (t : FileTree) (p : Text) : Option Text :=
  (t.read? p).bind Utf8.decode?

/-- The path without links or detours to the place that a path leads to, if there is something. -/
def canonical? (t : FileTree) (p : Text) : Option Text :=
  (t.locate? p).bind fun l => (t.get? l).map fun _ => pathOf l

def readAt? (t : FileTree) (dir : Location) (name : Text) : Option Utf8.Bytes :=
  match (t.follow linkLimit dir [name]).bind t.get? with
  | some (.file bytes) => some bytes
  | _ => none

/-! ### Changes -/

/-- Makes the directories that the pieces of a path name and that are not there. None if something
else stands in the way. -/
def createDirsFrom (t : FileTree) (dir : Location) : List Text → Option FileTree
  | [] => some t
  | piece :: rest =>
    if piece.isEmpty || piece == Path.here then
      t.createDirsFrom dir rest
    else if piece == Path.above then
      t.createDirsFrom dir.dropLast rest
    else
      match t.get? (dir ++ [piece]) with
      | none => (t.set (dir ++ [piece]) .dir).createDirsFrom (dir ++ [piece]) rest
      | some .dir => t.createDirsFrom (dir ++ [piece]) rest
      | some (.file _) => none
      | some (.link _) =>
        match t.follow linkLimit dir [piece] with
        | some l => if t.isDirAt l then t.createDirsFrom l rest else none
        | none => none

def createDirs? (t : FileTree) (p : Text) : Option FileTree :=
  t.createDirsFrom (if Path.isAbsolute p then [] else t.workingDir) (List.splitOn '/' p)

/-- Writes the file that a path leads to, in a directory that is there. -/
def write? (t : FileTree) (p : Text) (bytes : Utf8.Bytes) : Option FileTree :=
  (t.locate? p).bind fun l => if t.isDirAt l then none else some (t.set l (.file bytes))

/-- The location that a path names, a link at its end not being followed. -/
def place? (t : FileTree) (p : Text) : Option Location :=
  (Path.fileName? p).bind fun name =>
    (t.follow linkLimit (if Path.isAbsolute p then [] else t.workingDir)
      (Path.pieces p).dropLast).map (· ++ [name])

def withParent (t : FileTree) (p : Text) : FileTree :=
  (t.createDirs? ((Path.parent? p).getD [])).getD t

def putFile (t : FileTree) (p : Text) (bytes : Utf8.Bytes) : FileTree :=
  let t := t.withParent p
  (t.write? p bytes).getD t

def putDir (t : FileTree) (p : Text) : FileTree :=
  (t.createDirs? p).getD t

def putLink (t : FileTree) (p target : Text) : FileTree :=
  let t := t.withParent p
  match t.place? p with
  | some l => t.set l (.link target)
  | none => t

def remove (t : FileTree) (p : Text) : FileTree :=
  match t.place? p with
  | some l => t.erase l
  | none => t

/-! ### Walking -/

/-- Names of ignore files, the stronger one first. -/
def ignoreFileNames : List Text := [".ignore".toList, ".gitignore".toList]

/-- What the ignore files of one name say about a location. The file nearest to it that says anything
decides. -/
def ignoreVerdict? (t : FileTree) (l : Location) (isDir : Bool) (name : Text) :
    Option Ignore.Verdict :=
  (List.range l.length).reverse.findSome? fun depth =>
    (t.readAt? (l.take depth) name).bind fun bytes =>
      Ignore.verdict? (Ignore.rulesOf bytes) (l.drop depth) isDir

def isHidden (l : Location) : Bool :=
  (l.getLast?.bind List.head?) == some '.'

/-- Whether a location is left out: because it is ignored, or because it is hidden and nothing keeps
it. -/
def isSkipped (t : FileTree) (l : Location) : Bool :=
  match ignoreFileNames.findSome? (t.ignoreVerdict? l (t.isDirAt l)) with
  | some .ignored => true
  | some .kept => false
  | none => isHidden l

/-- Whether the names lead from a directory through directories, past nothing that is left out. -/
def isReached (t : FileTree) (skips : Location → Bool) (dir : Location) : List Text → Bool
  | [] => true
  | [name] => !skips (dir ++ [name])
  | name :: rest =>
    t.isDirAt (dir ++ [name]) && !skips (dir ++ [name]) && t.isReached skips (dir ++ [name]) rest

def reachedFiles (t : FileTree) (skips : Location → Bool) (root : Text) (dir : Location) :
    List (List Text) :=
  ((t.filesBelow dir).map (·.1)).filter fun names =>
    t.isReached skips dir names && (t.read? (Path.join root (Text.joinWith ['/'] names))).isSome

/-- The files that are found at a path: the file itself, or those below the directory. Their paths
start as the given one is spelled. -/
def walk (t : FileTree) (root : Text) (respectIgnore : Bool) : Except Failure (List SourcePath) :=
  match t.locate? root with
  | none => .error (.pathNotFound root)
  | some l =>
    match t.get? l with
    | some .dir =>
      let skips := if respectIgnore then t.isSkipped else fun _ => false
      .ok ((t.reachedFiles skips root l).map fun names =>
        .ofText (Path.join root (Text.joinWith ['/'] names)))
    | some (.file _) => .ok [.ofText root]
    | _ => .error (.pathNotFound root)

end ImportSync.FileTree

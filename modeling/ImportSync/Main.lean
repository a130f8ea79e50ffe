import ImportSync.CommandLine

/-!
The program. It takes a picture of the part of the file system that a command can look at, runs the
command on it, and writes the files that came out different.
-/

open ImportSync

namespace ImportSync.Main

def depthLimit : Nat := 256

def readBytes (path : String) : IO Utf8.Bytes :=
  return (← IO.FS.readBinFile path).toList

/-- Adds what a path leads to, and a link if the place has another path. -/
def addPath (t : FileTree) (path : String) : IO FileTree := do
  try
    let place ← IO.FS.realPath path
    let found := place.toString
    let t := if found == path then t else t.putLink path.toList found.toList
    match (← place.metadata).type with
    | .dir => return t.putDir found.toList
    | .file => return t.putFile found.toList (← readBytes found)
    | _ => return t
  catch _ => return t

/-- Adds what lies below a directory. Links are added with what they lead to, and are not entered. -/
def addBelow : Nat → FileTree → String → IO FileTree
  | 0, t, _ => return t
  | depth + 1, t, dir => do
    let mut tree := t
    for entry in ← (← IO.FS.realPath dir).readDir do
      let path := entry.path.toString
      match (← entry.path.symlinkMetadata).type with
      | .dir => tree ← addBelow depth (tree.putDir path.toList) path
      | .other => pure ()
      | _ => tree ← addPath tree path
    return tree

/-- Adds a root, what lies below it, and the ignore files above it. -/
def addRoot (t : FileTree) (path : String) : IO FileTree := do
  let mut tree ← addPath t path
  match tree.locate? path.toList with
  | some place =>
    for depth in List.range place.length do
      for name in FileTree.ignoreFileNames do
        tree ← addPath tree (String.ofList (FileTree.pathOf (place.take depth ++ [name])))
    if tree.isDirAt place then
      tree ← addBelow depthLimit tree (String.ofList (FileTree.pathOf place))
    return tree
  | none => return tree

def absolute (workingPath path : Text) : String :=
  String.ofList (Path.join workingPath path)

def picture (c : CommandLine.Command) : IO FileTree := do
  let here := (← IO.currentDir).toString.toList
  let empty : FileTree := { workingDir := Path.pieces here, entries := [] }
  let mut tree := empty.putDir here
  for path in c.arguments.root.toList ++ c.arguments.config.toList do
    tree ← addPath tree (absolute here path)
  match c.arguments.load tree with
  | .error _ => return tree
  | .ok (s, _) =>
    for root in s.importRoots ++ s.modifyRoots do
      tree ← addRoot tree (absolute here (s.resolve root))
    addPath tree (absolute here s.aggregator.path)

def writeChanges (before after : FileTree) : IO Unit := do
  for (place, entry) in before.changesBelow after [] do
    match entry with
    | some (.file bytes) =>
      IO.FS.createDirAll (String.ofList (FileTree.pathOf place.dropLast))
      IO.FS.writeBinFile (String.ofList (FileTree.pathOf place)) ⟨bytes.toArray⟩
    | _ => pure ()

def printOutput (o : CommandLine.Output) : IO UInt32 := do
  IO.print (String.ofList o.standardOut)
  IO.eprint (String.ofList o.standardError)
  return UInt32.ofNat o.exitCode

end ImportSync.Main

open ImportSync.Main

def main (args : List String) : IO UInt32 := do
  let started ← IO.monoMsNow
  match CommandLine.Command.ofTokens (args.map String.toList) with
  | .error r => printOutput (r.output { workingDir := [], entries := [] })
  | .ok c =>
    let before ← picture c
    let done := c.run {} before
    writeChanges before done.tree
    printOutput (.ofSync ((← IO.monoMsNow) - started) 1 done)

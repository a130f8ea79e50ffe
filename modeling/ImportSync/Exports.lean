import ImportSync.Path
import ImportSync.Syntax.Grammar.Statements
import ImportSync.Text.Basic

/-!
The names a module exports. Only named exports count: the exported side of a specifier, the name of a
namespace, and what exported variables bind at the surface of their patterns. Names of exported functions
and classes count on request. A name keeps its first position.

Names are remembered by file. A file that takes part in a run twice is read once: its names are kept
together with a fingerprint of the text they were found in, and serve again as long as the fingerprint is
the same. A text that does not parse leaves no trace.

The set of exported names remembers the order in which names came in, which is the order they are written
in; a name that comes in again, or is empty, changes nothing.
-/

namespace ImportSync

/-! ### The set of names -/

/-- Names without repetition and without the empty one, in the order they came in. -/
structure ExportSet where
  names : List Text
  nodup : names.Nodup
  nonempty : ∀ n ∈ names, n ≠ []

namespace ExportSet

def empty : ExportSet where
  names := []
  nodup := .nil
  nonempty := by simp

def contains (s : ExportSet) (n : Text) : Bool :=
  s.names.contains n

def admits (s : ExportSet) (n : Text) : Bool :=
  !n.isEmpty && !s.contains n

/-- Adds a name at the end, unless it is empty or already there. -/
def insert (s : ExportSet) (n : Text) : ExportSet :=
  if h : s.admits n then
    { names := s.names ++ [n]
      nodup := by
        have absent : n ∉ s.names := by
          simp only [admits, contains, Bool.and_eq_true, Bool.not_eq_true',
            List.contains_eq_mem, decide_eq_false_iff_not] at h
          exact h.2
        refine List.nodup_append.2 ⟨s.nodup, by simp, ?_⟩
        intro a ha b hb hab
        have hbn : b = n := by simpa using hb
        exact absent (hbn ▸ hab ▸ ha)
      nonempty := by
        intro a ha
        rcases List.mem_append.1 ha with old | new
        · exact s.nonempty a old
        · have han : a = n := by simpa using new
          rintro rfl
          simp [admits, ← han] at h }
  else
    s

def extend (s : ExportSet) (ns : List Text) : ExportSet :=
  ns.foldl insert s

def ofList (ns : List Text) : ExportSet :=
  empty.extend ns

def without (s : ExportSet) (localNames : List Text) : List Text :=
  s.names.filter (!localNames.contains ·)

end ExportSet

/-! ### Names of a module -/

structure DialectOptions where
  /-- Whether markup is allowed outside the dialect with types. -/
  markup : Bool := true
  /-- Whether texts are typed, whatever their file is called. -/
  typed : Option Bool := none
  isModule : Bool := true
  deriving DecidableEq, Repr

structure CollectOptions where
  dialect : DialectOptions := {}
  /-- Whether the names of exported functions and classes count. -/
  includeDeclarations : Bool := false
  deriving DecidableEq, Repr

def typedExtensions : List Text :=
  ["ts".toList, "tsx".toList, "mts".toList, "cts".toList]

/-- Extensions of files that contain markup, whatever the options say. -/
def markupExtensions : List Text :=
  ["jsx".toList, "tsx".toList]

def DialectOptions.dialectOf (o : DialectOptions) (m : SourcePath) : Syntax.Dialect :=
  let extension := Text.lowercase ((Path.extension? m.text).getD [])
  let typed := o.typed.getD (typedExtensions.contains extension)
  let marked := markupExtensions.contains extension
  { typed, markup := if typed then marked else o.markup || marked, isModule := o.isModule }

namespace Syntax

def ExportName.identifier? : ExportName → Option Text
  | .identifier id => some id
  | .quoted _ => none

def Pattern.name? : Pattern → Option Text
  | .name id => some id
  | _ => none

def Pattern.arrayNames : Pattern → List Text
  | .array items => items.filterMap Pattern.name?
  | _ => []

def Pattern.objectNames : Pattern → List Text
  | .object items => items.filterMap Pattern.name?
  | _ => []

/-- The names that declarators bind at their surface: plain names first, then those in array
patterns, then those in object patterns. -/
def surfaceNames (targets : List Pattern) : List Text :=
  targets.filterMap Pattern.name? ++ targets.flatMap Pattern.arrayNames
    ++ targets.flatMap Pattern.objectNames

def Declaration.collectedNames (includeDeclarations : Bool) : Declaration → List Text
  | .variables targets => surfaceNames targets
  | .function id => if includeDeclarations then [id] else []
  | .class id => if includeDeclarations then [id] else []
  | .typeLevel => []

/-- The names that count of a statement, in source order and with repetitions. -/
def Statement.collectedNames (includeDeclarations : Bool) : Statement → List Text
  | .exportList names => names.filterMap ExportName.identifier?
  | .exportDeclaration d => d.collectedNames includeDeclarations
  | .exportAll given => (given.bind ExportName.identifier?).toList
  | .exportDefault => []
  | .plain => []

/-- The names a module exports: those that count of its statements, each once at its first position,
and none that is empty. -/
def collectNames (includeDeclarations : Bool) (statements : List Statement) : List Text :=
  ((statements.flatMap (Statement.collectedNames includeDeclarations)).eraseDups).filter
    (!·.isEmpty)

end Syntax

def namesExported? (m : SourcePath) (source : Text) (o : CollectOptions) : Option (List Text) :=
  (Syntax.parse? (o.dialect.dialectOf m) source).map (Syntax.collectNames o.includeDeclarations)

/-! ### Remembered names -/

/-- How names are found in a module text; none if it is ill-formed. -/
abbrev Extractor := SourcePath → Text → CollectOptions → Option (List Text)

/-- What a text yields: its names, or that it did not parse and so exports nothing. -/
structure Findings where
  names : List Text := []
  parseFailed : Bool := false
  deriving DecidableEq, Repr

def Findings.of (extract : Extractor) (o : CollectOptions) (m : SourcePath) (purged : Text) :
    Findings :=
  match extract m purged o with
  | some names => { names }
  | none => { parseFailed := true }

/-- Names by file, with the fingerprint of the text they come from. The entry put in last counts. -/
structure NameCache (F : Type) where
  entries : List (SourcePath × F × List Text) := []

namespace NameCache

variable {F : Type}

def get? (c : NameCache F) (m : SourcePath) : Option (F × List Text) :=
  c.entries.lookup m

def insert (c : NameCache F) (m : SourcePath) (mark : F) (names : List Text) : NameCache F :=
  ⟨(m, mark, names) :: c.entries⟩

/-- The names that are remembered of a file, if they come from a text of the given fingerprint. -/
def remembered? [DecidableEq F] (c : NameCache F) (m : SourcePath) (mark : F) :
    Option (List Text) :=
  (c.get? m).bind fun (mark', names) => if mark' = mark then some names else none

def findings [DecidableEq F] (c : NameCache F) (fingerprint : Text → F) (extract : Extractor)
    (o : CollectOptions) (m : SourcePath) (purged : Text) : Findings × NameCache F :=
  match c.remembered? m (fingerprint purged) with
  | some names => ({ names }, c)
  | none =>
    match extract m purged o with
    | some names => ({ names }, c.insert m (fingerprint purged) names)
    | none => ({ parseFailed := true }, c)

end NameCache

end ImportSync

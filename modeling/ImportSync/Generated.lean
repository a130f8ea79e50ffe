import ImportSync.Path
import ImportSync.Text.Basic

/-!
Generated imports at the start of a text. A generated line refers to the aggregator by some dots and a
tail of the aggregator's path, so one pattern is kept for every tail of its present path and of the paths
it had before.

They are removed in rounds. One round removes a line that is recognised, or an unresolved merge conflict
between two such lines, with the blanks before it; rounds follow one another until there is nothing of
the kind. Every round leaves a shorter text, so they come to an end.
-/

namespace ImportSync

/-! ### References -/

structure References where
  patterns : List Text
  deriving DecidableEq, Repr

namespace References

/-- The non-empty tails of a list, longest first. -/
def tails : List α → List (List α)
  | [] => []
  | a :: as => (a :: as) :: tails as

/-- How a generated line ends that refers to a path by the given pieces. -/
def pattern (pieces : List Text) : Text :=
  "./".toList ++ Text.joinWith ['/'] pieces ++ "';".toList

def patternsOf (name : Text) : List Text :=
  (tails (Path.pieces (Path.normalize name))).map pattern

/-- The references to an aggregator at its present path or at one it had before. -/
def ofNames (current : Text) (previous : List Text) : References :=
  ⟨((current :: previous).flatMap patternsOf).eraseDups⟩

def recognizes (r : References) (line : Text) : Bool :=
  r.patterns.any fun p => Text.hasPart p line

end References

/-! ### Removal -/

/-- The first line of a text that is not blank, without the blanks around it. -/
def headLine (code : Text) : Text :=
  Text.trim (Text.lineOf (Text.trimStart code))

namespace Purge

def conflictOpening : Text := "<<<<<<<".toList

def conflictDivider : Text := "=======".toList

def conflictClosing : Text := ">>>>>>>".toList

/-- Whether one side of a conflict is a single line that is recognised. -/
def isGenerated (refs : References) (side : Text) : Bool :=
  !(Text.trim side).contains '\n' && refs.recognizes (Text.trim side)

/-- What follows the conflict that a text starts with, if both its sides are single generated
lines. -/
def afterConflict? (refs : References) (text : Text) : Option Text :=
  (Text.afterLine? text).bind fun ours =>
  (Text.cutAt? conflictDivider ours).bind fun (ours, separator) =>
  (Text.afterLine? separator).bind fun theirs =>
  (Text.cutAt? conflictClosing theirs).bind fun (theirs, close) =>
    if isGenerated refs ours && isGenerated refs theirs then
      some ((Text.afterLine? close).getD [])
    else
      none

/-- One round: what is left after the generated line or conflict that a text starts with, if it
starts with one. -/
def step? (refs : References) (code : Text) : Option Text :=
  let trimmed := Text.trimStart code
  if trimmed.isEmpty then
    none
  else if refs.recognizes (headLine trimmed) then
    some ((Text.afterLine? trimmed).getD [])
  else if conflictOpening.isPrefixOf (headLine trimmed) then
    afterConflict? refs trimmed
  else
    none

theorem length_afterConflict?_lt {refs : References} {text rest : Text}
    (h : afterConflict? refs text = some rest) : rest.length < text.length := by
  simp only [afterConflict?, Option.bind_eq_some_iff] at h
  obtain ⟨ours, hours, ⟨_, separator⟩, hcut, theirs, htheirs, ⟨_, close⟩, hend, h⟩ := h
  split at h
  · simp only [Option.some.injEq] at h
    have h1 := Text.length_afterLine?_lt hours
    have h2 := Text.length_cutAt?_le hcut
    have h3 : theirs.length < separator.length := Text.length_afterLine?_lt htheirs
    have h4 := Text.length_cutAt?_le hend
    have h5 := Text.length_afterLine_getD_le close
    rw [h] at h5
    omega
  · simp at h

theorem length_step?_lt {refs : References} {code rest : Text} (h : step? refs code = some rest) :
    rest.length < code.length := by
  have trimmed_le : (Text.trimStart code).length ≤ code.length :=
    (List.dropWhile_sublist _).length_le
  simp only [step?] at h
  split at h
  · simp at h
  · rename_i nonempty
    have positive : 0 < (Text.trimStart code).length := by
      cases ht : Text.trimStart code with
      | nil => simp [ht] at nonempty
      | cons c cs => simp
    split at h
    · simp only [Option.some.injEq] at h
      subst h
      cases hl : Text.afterLine? (Text.trimStart code) with
      | none => simp only [Option.getD_none, List.length_nil]; omega
      | some r =>
        have := Text.length_afterLine?_lt hl
        simp only [Option.getD_some]
        omega
    · split at h
      · have := length_afterConflict?_lt h
        omega
      · simp at h

end Purge

/-- A text without the generated imports it starts with. What stays is left as it is, blanks
included. -/
def purge (refs : References) (code : Text) : Text :=
  match h : Purge.step? refs code with
  | some rest =>
    have : rest.length < code.length := Purge.length_step?_lt h
    purge refs rest
  | none => code
termination_by code.length

end ImportSync

import ImportSync.Proofs.Contributions
import Mathlib.Data.List.Flatten
import Mathlib.Data.List.Nodup

/-!
Laws of collecting exported names. Statements give names place by place, and a name keeps the first place
that gives it. So what two texts give together is what they give one after the other, and counting functions
and classes adds their names to what is collected without them. It may move a name forward that stands
elsewhere as well, but moves none if every name has one place.
-/

namespace ImportSync.Syntax

/-! ### Places that give names -/

/-- The names that count of statements, one for each place that gives one. -/
def namesByPlace (includeDeclarations : Bool) (statements : List Statement) : List Text :=
  statements.flatMap (Statement.collectedNames includeDeclarations)

theorem namesByPlace_append (includeDeclarations : Bool) (first later : List Statement) :
    namesByPlace includeDeclarations (first ++ later) =
      namesByPlace includeDeclarations first ++ namesByPlace includeDeclarations later :=
  List.flatMap_append

/-- The empty name may be dropped before repetitions are. -/
theorem collectNames_eq (includeDeclarations : Bool) (statements : List Statement) :
    collectNames includeDeclarations statements =
      ((namesByPlace includeDeclarations statements).filter (!·.isEmpty)).eraseDups :=
  filter_eraseDups _ _

/-- Collecting names is putting them into a set in their order. -/
theorem collectNames_eq_ofList (includeDeclarations : Bool) (statements : List Statement) :
    collectNames includeDeclarations statements =
      (ExportSet.ofList (namesByPlace includeDeclarations statements)).names := by
  rw [collectNames_eq, ExportSet.ofList, ExportSet.names_extend, ExportSet.empty, List.nil_append]
  refine congrArg List.eraseDups (List.filter_congr fun n _ => ?_)
  cases n <;> simp

theorem collectNames_append (includeDeclarations : Bool) (first later : List Statement) :
    collectNames includeDeclarations (first ++ later) =
      (collectNames includeDeclarations first ++ collectNames includeDeclarations later).eraseDups := by
  simp only [collectNames_eq]
  rw [namesByPlace_append, List.filter_append, eraseDups_append_eraseDups]

theorem mem_collectNames {includeDeclarations : Bool} {statements : List Statement} {n : Text} :
    n ∈ collectNames includeDeclarations statements ↔
      n ≠ [] ∧ ∃ s ∈ statements, n ∈ s.collectedNames includeDeclarations := by
  simp [collectNames_eq, namesByPlace, List.mem_eraseDups, and_comm]

/-! ### Functions and classes -/

/-- A function or a class of the name is declared and exported by one of the statements. -/
def Declares (statements : List Statement) (n : Text) : Prop :=
  .exportDeclaration (.function n) ∈ statements ∨ .exportDeclaration (.class n) ∈ statements

theorem Statement.collectedNames_sublist (s : Statement) :
    (s.collectedNames false).Sublist (s.collectedNames true) := by
  cases s with
  | exportDeclaration d =>
      cases d with
      | function id => exact List.nil_sublist _
      | «class» id => exact List.nil_sublist _
      | «variables» targets => exact .refl _
      | typeLevel => exact .refl _
  | plain => exact .refl _
  | exportList names => exact .refl _
  | exportAll given => exact .refl _
  | exportDefault => exact .refl _

theorem Statement.mem_collectedNames_true {s : Statement} {n : Text} :
    n ∈ s.collectedNames true ↔
      n ∈ s.collectedNames false ∨ s = .exportDeclaration (.function n) ∨
        s = .exportDeclaration (.class n) := by
  cases s with
  | exportDeclaration d =>
      cases d with
      | function id => simp [collectedNames, Declaration.collectedNames, eq_comm]
      | «class» id => simp [collectedNames, Declaration.collectedNames, eq_comm]
      | «variables» targets => simp [collectedNames, Declaration.collectedNames]
      | typeLevel => simp [collectedNames, Declaration.collectedNames]
  | plain => simp [collectedNames]
  | exportList names => simp [collectedNames]
  | exportAll given => simp [collectedNames]
  | exportDefault => simp [collectedNames]

/-- What functions and classes add are their names. -/
theorem mem_collectNames_true {statements : List Statement} {n : Text} :
    n ∈ collectNames true statements ↔
      n ∈ collectNames false statements ∨ n ≠ [] ∧ Declares statements n := by
  rw [mem_collectNames, mem_collectNames, ← and_or_left]
  refine and_congr_right fun _ => ?_
  constructor
  · rintro ⟨s, hs, hn⟩
    rcases Statement.mem_collectedNames_true.1 hn with hn | rfl | rfl
    · exact .inl ⟨s, hs, hn⟩
    · exact .inr (.inl hs)
    · exact .inr (.inr hs)
  · rintro (⟨s, hs, hn⟩ | hs | hs)
    · exact ⟨s, hs, Statement.mem_collectedNames_true.2 (.inl hn)⟩
    · exact ⟨_, hs, Statement.mem_collectedNames_true.2 (.inr (.inl rfl))⟩
    · exact ⟨_, hs, Statement.mem_collectedNames_true.2 (.inr (.inr rfl))⟩

/-- If every name has one place, then functions and classes come in between the other names. -/
theorem collectNames_sublist {statements : List Statement}
    (h : ∀ n ∈ collectNames true statements, (namesByPlace true statements).count n ≤ 1) :
    (collectNames false statements).Sublist (collectNames true statements) := by
  have hplaces : (namesByPlace false statements).Sublist (namesByPlace true statements) :=
    List.Sublist.flatMap_right statements fun s _ => s.collectedNames_sublist
  have hnodup : ((namesByPlace true statements).filter (!·.isEmpty)).Nodup := by
    refine List.nodup_iff_count_le_one.2 fun n => ?_
    by_cases hn : n ∈ collectNames true statements
    · exact (List.filter_sublist.count_le n).trans (h n hn)
    · rw [collectNames_eq, List.mem_eraseDups] at hn
      rw [List.count_eq_zero_of_not_mem hn]
      exact Nat.zero_le 1
  have hfiltered := hplaces.filter (!·.isEmpty)
  -- without repetitions there is nothing to erase in either list
  rw [collectNames_eq, collectNames_eq, eraseDups_of_nodup hnodup,
    eraseDups_of_nodup (hnodup.sublist hfiltered)]
  exact hfiltered

/-- A name that stands in two places moves to the first one that counts. -/
example :
    let statements : List Statement :=
      [.exportDeclaration (.function ['f']), .exportList [.identifier ['g'], .identifier ['f']]]
    collectNames false statements = [['g'], ['f']] ∧ collectNames true statements = [['f'], ['g']] := by
  decide

/-! ### Main statement -/

/-- What is collected with functions and classes holds what is collected without them, and their names. If
every name has one place, then none of them moves. -/
structure AddsDeclarations (statements : List Statement) (fewer all : List Text) : Prop where
  mem_all : ∀ n, n ∈ all ↔ n ∈ fewer ∨ n ≠ [] ∧ Declares statements n
  sublist : (∀ n ∈ all, (namesByPlace true statements).count n ≤ 1) → fewer.Sublist all

theorem addsDeclarations (statements : List Statement) :
    AddsDeclarations statements (collectNames false statements) (collectNames true statements) where
  mem_all _ := mem_collectNames_true
  sublist := collectNames_sublist

/-- Names are collected without repetition and without the empty one; those of two parts are those of the
first and then those of the second, each name where it comes first; and counting functions and classes adds
their names, in any list of statements and in every module. -/
theorem names_collected_by_laws :
    (∀ includeDeclarations statements, (collectNames includeDeclarations statements).Nodup ∧
      [] ∉ collectNames includeDeclarations statements) ∧
    (∀ includeDeclarations first later, collectNames includeDeclarations (first ++ later) =
      (collectNames includeDeclarations first ++ collectNames includeDeclarations later).eraseDups) ∧
    (∀ statements,
      AddsDeclarations statements (collectNames false statements) (collectNames true statements)) ∧
    ∀ m source dialect,
      (namesExported? m source { dialect } = none ↔
        namesExported? m source { dialect, includeDeclarations := true } = none) ∧
      ∀ fewer all, namesExported? m source { dialect } = some fewer →
        namesExported? m source { dialect, includeDeclarations := true } = some all →
        ∃ statements, parse? (dialect.dialectOf m) source = some statements ∧
          AddsDeclarations statements fewer all := by
  refine ⟨fun includeDeclarations statements => ?_, collectNames_append, addsDeclarations,
    fun m source dialect => ⟨?_, fun fewer all hfewer hall => ?_⟩⟩
  · rw [collectNames_eq_ofList]
    exact ⟨ExportSet.nodup _, fun hnil => ExportSet.nonempty _ _ hnil rfl⟩
  · simp [namesExported?]
  · obtain ⟨statements, hparse, rfl⟩ := Option.map_eq_some_iff.1 hfewer
    obtain ⟨statements', hparse', rfl⟩ := Option.map_eq_some_iff.1 hall
    obtain rfl := Option.some.inj (hparse.symm.trans hparse')
    exact ⟨statements, hparse, addsDeclarations statements⟩

/-- A module that exports in many ways. -/
def manifoldModule : Text :=
  ("export function f()\x7b\x7d " ++
    "export let \x7bo, p: q = 1\x7d = x, [a, , ...r] = x, v;" ++
    "export class C\x7b\x7d " ++
    "export \x7bv as w, v as 'no name'\x7d;" ++
    "export * as s from 'n'").toList

theorem names_collected_by_laws_manifoldModule :
    ∃ fewer all statements,
      namesExported? ⟨"m.js".toList⟩ manifoldModule {} = some fewer ∧
      namesExported? ⟨"m.js".toList⟩ manifoldModule { includeDeclarations := true } = some all ∧
      fewer = [['v'], ['a'], ['o'], ['w'], ['s']] ∧
      all = [['f'], ['v'], ['a'], ['o'], ['C'], ['w'], ['s']] ∧
      AddsDeclarations statements fewer all ∧ fewer.Sublist all := by
  have hparsed : (parse? (DialectOptions.dialectOf {} ⟨"m.js".toList⟩) manifoldModule).map
      (fun statements => (collectNames false statements, collectNames true statements,
        namesByPlace true statements)) =
      some ([['v'], ['a'], ['o'], ['w'], ['s']], [['f'], ['v'], ['a'], ['o'], ['C'], ['w'], ['s']],
        [['f'], ['v'], ['a'], ['o'], ['C'], ['w'], ['s']]) := by decide +kernel
  obtain ⟨statements, hparse, hnames⟩ := Option.map_eq_some_iff.1 hparsed
  obtain ⟨hfewer, hnames⟩ := Prod.mk.inj hnames
  obtain ⟨hall, hplaces⟩ := Prod.mk.inj hnames
  obtain ⟨-, -, -, hmodules⟩ := names_collected_by_laws
  obtain ⟨-, hadds⟩ := hmodules ⟨"m.js".toList⟩ manifoldModule {}
  have hfewer? : namesExported? ⟨"m.js".toList⟩ manifoldModule {} = some _ :=
    Option.map_eq_some_iff.2 ⟨statements, hparse, hfewer⟩
  have hall? : namesExported? ⟨"m.js".toList⟩ manifoldModule { includeDeclarations := true } = some _ :=
    Option.map_eq_some_iff.2 ⟨statements, hparse, hall⟩
  obtain ⟨statements', hparse', hadded⟩ := hadds _ _ hfewer? hall?
  obtain rfl := Option.some.inj (hparse.symm.trans hparse')
  refine ⟨_, _, statements, hfewer?, hall?, rfl, rfl, hadded, hadded.sublist ?_⟩
  rw [hplaces]
  decide

end ImportSync.Syntax

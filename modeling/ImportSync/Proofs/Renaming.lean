import ImportSync.Proofs.References

/-!
Giving the aggregator another name. The path of an aggregator and the patterns of its name come from
one name by different ways: the path is cleaned below the root, the name is cleaned alone and then
cut into tails. Both ways end in the same pieces, however the name is spelled, so an aggregator that
knows a former name knows every import that the former aggregator put into a module of the root.
-/

namespace ImportSync

namespace Aggregator

theorem mem_canonicalName {name : Text} {c : Char} (h : c ∈ canonicalName name) :
    c = '/' ∨ c ∈ ".js".toList ∨ c ∈ name := by
  have hfile : ∀ {d : Char}, d ∈ aggregatorFileName name → d = '/' ∨ d ∈ ".js".toList ∨ d ∈ name := by
    intro d hd
    have hnormal : d ∈ Path.normalize name ∨ d ∈ aggregatorExtension := by
      rw [aggregatorFileName] at hd
      split at hd
      · exact .inl hd
      · exact List.mem_append.1 hd
    rcases hnormal with hd | hd
    · exact (Path.mem_normalize hd).imp_right .inr
    · exact .inr (.inl hd)
  rcases Path.mem_normalize h with h | h
  · exact .inl h
  · rcases Path.mem_clean h with h | h | h
    · exact .inl h
    · exact .inr (.inl (by rw [h]; decide))
    · exact hfile h

variable {root old new : Text} {previous oldPrevious : List Text}

theorem newline_not_mem_name (h : '\n' ∉ old) : '\n' ∉ (ofNames root old oldPrevious).name := by
  simp only [ofNames]
  intro hmem
  rcases mem_canonicalName hmem with hc | hc | hc
  · exact absurd hc (by decide)
  · exact absurd hc (by decide)
  · exact h hc

/-- What an aggregator is called by itself, it is called by one that had its name before. -/
theorem name_mem_previousNames (hold : old ∈ previous) :
    (ofNames root old oldPrevious).name ∈ (ofNames root new previous).previousNames := by
  simp only [ofNames]
  exact List.mem_map_of_mem hold

/-- An aggregator recognises the imports of the one whose name it had before. -/
theorem recognizes_former_reference (hroot : Path.isAbsolute root = true) (hold : old ∈ previous)
    {dir : Text} (h : (ofNames root old oldPrevious).IsNamedFrom dir) (names : List Text) :
    (ofNames root new previous).references.recognizes
      (ImportLine.named (Path.reference dir (ofNames root old oldPrevious).path) names).render
        = true := by
  have htail : '.' :: '/' :: Text.joinWith ['/']
        (Path.wayDown (ofNames root old oldPrevious).path dir) <:+
      Path.reference dir (ofNames root old oldPrevious).path :=
    Path.dot_slash_suffix_reference h.absolute (isAbsolute_path hroot old oldPrevious)
      h.down_ne_nil
  exact recognizes_of_tail (List.mem_cons_of_mem _ (name_mem_previousNames hold)) h.down_ne_nil
    h.down_suffix htail names

end Aggregator

/-- The import that an aggregator put before a body is removed by the aggregator that took its place
below the same root and has its name among the former ones. -/
theorem purge_import_of_former_name {root old new : Text} {previous oldPrevious : List Text}
    (hroot : Path.isAbsolute root = true) (hold : old ∈ previous) (hline : '\n' ∉ old) {dir : Text}
    (hdir : Path.isAbsolute dir = true) (hbelow : Path.cleanPieces root <+: Path.cleanPieces dir)
    (hnot : ¬ Path.cleanPieces (Aggregator.ofNames root old oldPrevious).path <+:
      Path.cleanPieces dir)
    {names : List Text} (hnames : ∀ n ∈ names, '\n' ∉ n) (body : Text) :
    purge (Aggregator.ofNames root new previous).references
        ((ImportLine.named (Path.reference dir (Aggregator.ofNames root old oldPrevious).path)
          names).render ++ '\n' :: body) =
      purge (Aggregator.ofNames root new previous).references body := by
  have hnamed : (Aggregator.ofNames root old oldPrevious).IsNamedFrom dir :=
    Aggregator.isNamedFrom_of_root hroot hdir hbelow hnot
  have hsource : '\n' ∉ Path.reference dir (Aggregator.ofNames root old oldPrevious).path :=
    Aggregator.newline_not_mem_reference hroot hnamed (Aggregator.newline_not_mem_name hline)
  exact purge_import_line (ImportLine.newline_not_mem_render hsource hnames)
    (Aggregator.recognizes_former_reference hroot hold hnamed names) body

/-- The name of an aggregator, spelled with backslashes, a detour and slashes at its end, and without
the extension. -/
def formerName : Text := "gen\\..\\lib\\old//".toList

/-- The aggregator of that name. -/
abbrev formerAggregator : Aggregator :=
  .ofNames "/site/".toList formerName []

/-- The aggregator that took its place. -/
abbrev laterAggregator : Aggregator :=
  .ofNames "/site/".toList "imports".toList ["first.js".toList, formerName]

theorem purge_import_of_former_name_site :
    (ImportLine.named (Path.reference "/site/src/pages".toList formerAggregator.path)
        ["a".toList, "b".toList]).render =
      "import \x7ba, b\x7d from './../../lib/old.js';".toList ∧
    purge laterAggregator.references
        ("import \x7ba, b\x7d from './../../lib/old.js';".toList ++ '\n' :: "show(a);\n".toList) =
      "show(a);\n".toList := by
  have hrender : (ImportLine.named (Path.reference "/site/src/pages".toList formerAggregator.path)
        ["a".toList, "b".toList]).render =
      "import \x7ba, b\x7d from './../../lib/old.js';".toList := by decide +kernel
  have hbody : purge laterAggregator.references "show(a);\n".toList = "show(a);\n".toList :=
    purge_of_step?_none (by decide +kernel)
  have hroot : Path.isAbsolute "/site/".toList = true := by decide
  have hformer : formerName ∈ ["first.js".toList, formerName] := by simp
  have hdir : Path.isAbsolute "/site/src/pages".toList = true := by decide
  have hpurged : purge laterAggregator.references
        ((ImportLine.named (Path.reference "/site/src/pages".toList formerAggregator.path)
          ["a".toList, "b".toList]).render ++ '\n' :: "show(a);\n".toList) =
      purge laterAggregator.references "show(a);\n".toList :=
    purge_import_of_former_name hroot hformer (by decide) hdir (by decide +kernel)
      (by decide +kernel) (by decide) _
  rw [hrender, hbody] at hpurged
  exact ⟨hrender, hpurged⟩

end ImportSync

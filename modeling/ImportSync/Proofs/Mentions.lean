import ImportSync.CommandLine
import ImportSync.Proofs.Steps

/-!
Command lines that say what arguments say. Arguments are told by the values of each option, in order, and
by the flags that are set. A command line mentions them one after another, a value in the token of its
option or in a token of its own, and it does not matter how the mentions of different options are mixed.

A value in a token of its own is taken up later than one in the token of its option, but before anything
else changes, so that reading the tokens is giving the mentions one by one.
-/

namespace ImportSync

namespace Arguments

/-! ### What arguments say -/

/-- The values of an option, in order. -/
def values (a : Arguments) : ValueOption → List Text
  | .root => a.root.toList
  | .config => a.config.toList
  | .importRoot => a.importRoots
  | .modifyRoot => a.modifyRoots
  | .outputName => a.outputName.toList
  | .previousOutputName => a.previousOutputNames
  | .scriptExtension => a.scriptExtensions
  | .assetExtension => a.assetExtensions
  | .wanted => a.wanted
  | .unwanted => a.unwanted

/-- Whether an option may be given any number of times. -/
def ValueOption.isRepeatable : ValueOption → Bool
  | .root | .config | .outputName => false
  | _ => true

/-- Whether the value of an option is a path, which cannot be empty. -/
def ValueOption.isPath : ValueOption → Bool
  | .root | .config => true
  | _ => false

theorem eq_of_values {a b : Arguments} (hvalues : ∀ o, a.values o = b.values o)
    (hflags : ∀ f, a.isSet f = b.isSet f) : a = b := by
  have hoption {x y : Option Text} (h : x.toList = y.toList) : x = y := by
    rw [← Option.head?_toList (o := x), h, Option.head?_toList]
  cases a
  cases b
  simp only [mk.injEq]
  exact ⟨hoption (hvalues .root), hoption (hvalues .config), hvalues .importRoot, hvalues .modifyRoot,
    hoption (hvalues .outputName), hvalues .previousOutputName, hvalues .scriptExtension,
    hvalues .assetExtension, hvalues .wanted, hvalues .unwanted, hflags .filterModify,
    hflags .respectIgnore, hflags .includeDeclarations, hflags .check⟩

theorem length_values_le (a : Arguments) {o : ValueOption} (h : o.isRepeatable = false) :
    (a.values o).length ≤ 1 := by
  cases o with
  | root | config | outputName => exact Option.length_toList_le
  | _ => cases h

/-! ### Mentions -/

/-- A value that can stand in a token of its own. -/
def StandsAlone (v : Text) : Prop :=
  v ≠ [] ∧ v.head? ≠ some '-'

/-- One thing that a command line says. -/
inductive Mention where
  /-- A value in the token of its option, after an equals sign. -/
  | joined (o : ValueOption) (v : Text)
  /-- A value in a token of its own, after that of its option. -/
  | apart (o : ValueOption) (v : Text) (h : StandsAlone v)
  | flag (f : Flag)

namespace Mention

/-- How a mention is written. -/
def tokens : Mention → List Text
  | .joined o v => ['-' :: '-' :: (o.spelling ++ '=' :: v)]
  | .apart o v _ => ['-' :: '-' :: o.spelling, v]
  | .flag f => ['-' :: '-' :: f.spelling]

/-- The value that is given to an option. -/
def value? (o : ValueOption) : Mention → Option Text
  | .joined p v | .apart p v _ => if p = o then some v else none
  | .flag _ => none

/-- Whether a flag is mentioned. -/
def isFlag (f : Flag) : Mention → Bool
  | .flag g => g = f
  | _ => false

/-- The arguments with what is mentioned, if that can be. -/
def give (a : Arguments) : Mention → Except ArgumentError Arguments
  | .joined o v | .apart o v _ => a.store o v
  | .flag f => a.set f

end Mention

/-- The mentions say what the arguments say: they give each option its values, in their order, and
mention the flags that are set, once. -/
structure Says (ms : List Mention) (a : Arguments) : Prop where
  values : ∀ o, ms.filterMap (Mention.value? o) = a.values o
  flags : ∀ f, ms.countP (Mention.isFlag f) = (a.isSet f).toNat

/-! ### Giving mentions one by one -/

theorem once_eq_ok_iff {present : Option Text} {stored b : Arguments} :
    once present stored = .ok b ↔ present = none ∧ stored = b := by
  cases present <;> simp [once]

theorem exists_store {a : Arguments} {o : ValueOption} {v : Text}
    (honce : o.isRepeatable = true ∨ a.values o = []) (hpath : o.isPath = true → v ≠ []) :
    ∃ b, a.store o v = .ok b ∧ (∀ p, b.values p = a.values p ++ if o = p then [v] else []) ∧
      ∀ f, b.isSet f = a.isSet f := by
  cases o with
  | root | config =>
      have hnone := Option.toList_eq_nil_iff.1 (honce.resolve_left nofun)
      have htext : v.isEmpty ≠ true := by simpa using hpath rfl
      refine ⟨_, bind_eq_ok_iff.2 ⟨_, once_eq_ok_iff.2 ⟨hnone, rfl⟩, if_neg htext⟩, fun p => ?_,
        fun f => ?_⟩
      · cases p <;> simp [values, hnone]
      · cases f <;> rfl
  | outputName =>
      have hnone := Option.toList_eq_nil_iff.1 (honce.resolve_left nofun)
      refine ⟨_, once_eq_ok_iff.2 ⟨hnone, rfl⟩, fun p => ?_, fun f => ?_⟩
      · cases p <;> simp [values, hnone]
      · cases f <;> rfl
  | _ =>
      refine ⟨_, rfl, fun p => ?_, fun f => ?_⟩
      · cases p <;> simp [values]
      · cases f <;> rfl

theorem takes_of_store {a b : Arguments} {o : ValueOption} {v : Text} (h : a.store o v = .ok b) :
    (o.isRepeatable = true ∨ a.values o = []) ∧ (o.isPath = true → v ≠ []) := by
  cases o with
  | root | config =>
      rw [store, bind_eq_ok_iff] at h
      obtain ⟨c, hc, h⟩ := h
      refine ⟨.inr (Option.toList_eq_nil_iff.2 (once_eq_ok_iff.1 hc).1), ?_⟩
      rintro - rfl
      cases h
  | outputName => exact ⟨.inr (Option.toList_eq_nil_iff.2 (once_eq_ok_iff.1 h).1), nofun⟩
  | _ => exact ⟨.inl rfl, nofun⟩

theorem exists_set {a : Arguments} {f : Flag} (h : a.isSet f = false) :
    ∃ b, a.set f = .ok b ∧ (∀ o, b.values o = a.values o) ∧ ∀ g, b.isSet g = (a.isSet g || f = g) := by
  rw [set.eq_def, if_neg (by simp [h])]
  cases f <;> exact ⟨_, rfl, fun o => by cases o <;> rfl, fun g => by cases g <;> simp [isSet]⟩

theorem unset_of_set {a b : Arguments} {f : Flag} (h : a.set f = .ok b) : a.isSet f = false := by
  rw [set.eq_def] at h
  split at h
  · cases h
  next hunset => simpa using hunset

namespace Mention

/-- What is mentioned can be given to the arguments. -/
structure Fits (m : Mention) (a : Arguments) : Prop where
  once : ∀ o v, m.value? o = some v → o.isRepeatable = true ∨ a.values o = []
  path : ∀ o, o.isPath = true → m.value? o ≠ some []
  unset : ∀ f, m.isFlag f = true → a.isSet f = false

/-- The second arguments say what the first ones say, and what is mentioned. -/
structure Adds (m : Mention) (a b : Arguments) : Prop where
  values : ∀ o, b.values o = a.values o ++ (m.value? o).toList
  flags : ∀ f, (b.isSet f).toNat = (a.isSet f).toNat + (m.isFlag f).toNat

theorem exists_give {m : Mention} {a : Arguments} (h : m.Fits a) :
    ∃ b, m.give a = .ok b ∧ m.Adds a b := by
  cases m with
  | joined o v | apart o v _ =>
      have honce := h.once o v (by simp [value?])
      have hpath : o.isPath = true → v ≠ [] := by
        rintro hpath rfl
        exact h.path o hpath (by simp [value?])
      obtain ⟨b, hb, hvalues, hflags⟩ := exists_store honce hpath
      refine ⟨b, hb, fun p => ?_, fun f => ?_⟩
      · rw [hvalues, value?]
        split <;> rfl
      · rw [hflags]
        rfl
  | flag f =>
      have hunset := h.unset f (by simp [isFlag])
      obtain ⟨b, hb, hvalues, hflags⟩ := exists_set hunset
      refine ⟨b, hb, fun p => ?_, fun g => ?_⟩
      · rw [hvalues]
        exact (List.append_nil _).symm
      · rw [hflags, isFlag]
        by_cases hg : f = g
        · subst hg
          simp [hunset]
        · simp [hg]

theorem fits_of_give {m : Mention} {a b : Arguments} (h : m.give a = .ok b) : m.Fits a := by
  cases m with
  | joined o v | apart o v _ =>
      obtain ⟨honce, hpath⟩ := takes_of_store h
      have hvalue {p : ValueOption} {w : Text} (hw : (if o = p then some v else none) = some w) :
          o = p ∧ v = w := by
        split at hw
        next heq => exact ⟨heq, Option.some.inj hw⟩
        next => cases hw
      refine ⟨fun p w hw => ?_, fun p hp hw => ?_, nofun⟩
      · obtain ⟨rfl, -⟩ := hvalue hw
        exact honce
      · obtain ⟨rfl, rfl⟩ := hvalue hw
        exact hpath hp rfl
  | flag f =>
      refine ⟨nofun, nofun, fun g hg => ?_⟩
      obtain rfl : f = g := of_decide_eq_true hg
      exact unset_of_set h

end Mention

/-- The second arguments say what the first ones say, and then what the mentions say. -/
structure Completes (a : Arguments) (ms : List Mention) (b : Arguments) : Prop where
  values : ∀ o, b.values o = a.values o ++ ms.filterMap (Mention.value? o)
  flags : ∀ f, (b.isSet f).toNat = (a.isSet f).toNat + ms.countP (Mention.isFlag f)

theorem completes_nil {a b : Arguments} : Completes a [] b ↔ a = b := by
  constructor
  · intro h
    refine eq_of_values (fun o => ?_) (fun f => ?_)
    · simpa using (h.values o).symm
    · have hflag : (b.isSet f).toNat = (a.isSet f).toNat := by simpa using h.flags f
      rw [Bool.eq_iff_iff, ← Bool.toNat_eq_one, ← Bool.toNat_eq_one, hflag]
  · rintro rfl
    exact ⟨fun o => by simp, fun f => by simp⟩

theorem completes_cons {a b c : Arguments} {m : Mention} {ms : List Mention} (h : m.Adds a b) :
    Completes b ms c ↔ Completes a (m :: ms) c := by
  have hvalues (o : ValueOption) : a.values o ++ (m :: ms).filterMap (Mention.value? o) =
      b.values o ++ ms.filterMap (Mention.value? o) := by
    rw [h.values]
    cases hv : m.value? o <;> simp [hv]
  have hflags (f : Flag) : (a.isSet f).toNat + (m :: ms).countP (Mention.isFlag f) =
      (b.isSet f).toNat + ms.countP (Mention.isFlag f) := by
    rw [h.flags, List.countP_cons]
    cases m.isFlag f with
    | false => simp
    | true =>
        rw [Bool.toNat_true, if_pos rfl]
        omega
  constructor
  · intro hc
    exact ⟨fun o => by rw [hvalues, hc.values], fun f => by rw [hflags, hc.flags]⟩
  · intro hc
    exact ⟨fun o => by rw [← hvalues, hc.values], fun f => by rw [← hflags, hc.flags]⟩

/-- Where arguments are completed, the next mention fits: an option that is not repeatable has one value
in all, and a flag is set once. -/
theorem Completes.fits {a b : Arguments} {m : Mention} {ms : List Mention} (h : Completes a (m :: ms) b)
    (hpath : ∀ o, o.isPath = true → m.value? o ≠ some []) : m.Fits a := by
  refine ⟨fun o v hv => ?_, hpath, fun f hf => ?_⟩
  · rw [or_iff_not_imp_left, Bool.not_eq_true]
    intro honce
    have hlength := b.length_values_le honce
    rw [h.values, List.filterMap_cons_some hv, List.length_append, List.length_cons] at hlength
    exact List.length_eq_zero_iff.1 (by omega)
  · have hflag := h.flags f
    rw [List.countP_cons_of_pos hf] at hflag
    have hle := Bool.toNat_le (b.isSet f)
    rw [← Bool.toNat_eq_zero]
    omega

/-- Mentions can be given one by one if they lead from what was said to what is said at the end, without
an empty path. -/
theorem foldlM_give_eq_ok_iff {a b : Arguments} {ms : List Mention} :
    ms.foldlM Mention.give a = .ok b ↔
      Completes a ms b ∧ ∀ m ∈ ms, ∀ o, o.isPath = true → m.value? o ≠ some [] := by
  induction ms generalizing a with
  | nil => simp [pure, Except.pure, completes_nil]
  | cons m ms ih =>
      rw [List.foldlM_cons, bind_eq_ok_iff, List.forall_mem_cons]
      constructor
      · rintro ⟨c, hc, hrest⟩
        obtain ⟨hcompletes, hpaths⟩ := ih.1 hrest
        have hfits := Mention.fits_of_give hc
        obtain ⟨c', hc', hadds⟩ := Mention.exists_give hfits
        cases hc.symm.trans hc'
        exact ⟨(completes_cons hadds).1 hcompletes, hfits.path, hpaths⟩
      · rintro ⟨hcompletes, hpath, hpaths⟩
        obtain ⟨c, hc, hadds⟩ := Mention.exists_give (hcompletes.fits hpath)
        exact ⟨c, hc, ih.2 ⟨(completes_cons hadds).2 hcompletes, hpaths⟩⟩

/-! ### Reading tokens -/

theorem ValueOption.spelling_spec (o : ValueOption) :
    o.spelling ≠ [] ∧ '=' ∉ o.spelling ∧ named? o.spelling = some (.value o) := by
  cases o <;> exact ⟨by decide, by decide, rfl⟩

theorem Flag.spelling_spec (f : Flag) :
    f.spelling ≠ [] ∧ '=' ∉ f.spelling ∧ named? f.spelling = some (.flag f) := by
  cases f <;> exact ⟨by decide, by decide, rfl⟩

theorem ne_equals_of_mem {spelling : Text} (h : '=' ∉ spelling) {c : Char} (hc : c ∈ spelling) :
    (c != '=') = true := by
  rw [bne_iff_ne]
  rintro rfl
  exact h hc

namespace ArgumentToken

theorem ofText_named {spelling : Text} (hne : spelling ≠ []) (h : '=' ∉ spelling) :
    ofText ('-' :: '-' :: spelling) = .long spelling none := by
  have hall : spelling.takeWhile (· != '=') = spelling :=
    List.takeWhile_eq_self_iff.2 fun c => ne_equals_of_mem h
  cases spelling with
  | nil => exact absurd rfl hne
  | cons c rest => simp [ofText, hall]

theorem ofText_joined {spelling : Text} (hne : spelling ≠ []) (h : '=' ∉ spelling) (v : Text) :
    ofText ('-' :: '-' :: (spelling ++ '=' :: v)) = .long spelling (some v) := by
  have hfront : (spelling ++ '=' :: v).takeWhile (· != '=') = spelling := by
    rw [List.takeWhile_append_of_pos fun c => ne_equals_of_mem h]
    simp
  cases spelling with
  | nil => exact absurd rfl hne
  | cons c rest =>
      rw [List.cons_append] at hfront ⊢
      simp [ofText, hfront]

theorem ofText_of_standsAlone {v : Text} (h : StandsAlone v) : ofText v = .plain v := by
  obtain ⟨-, hhead⟩ := h
  rw [ofText]
  · rintro rfl
    exact hhead rfl
  · rintro rest rfl
    exact hhead rfl
  · rintro letter rest rfl
    exact hhead rfl

end ArgumentToken

theorem readFrom_named {spelling : Text} (hne : spelling ≠ []) (h : '=' ∉ spelling) (r : Reading)
    (ts : List Text) :
    readFrom r (('-' :: '-' :: spelling) :: ts) = r.option spelling none >>= (readFrom · ts) := by
  rw [readFrom, ArgumentToken.ofText_named hne h]
  rfl

theorem readFrom_joined {spelling : Text} (hne : spelling ≠ []) (h : '=' ∉ spelling) (v : Text)
    (r : Reading) (ts : List Text) :
    readFrom r (('-' :: '-' :: (spelling ++ '=' :: v)) :: ts) =
      r.option spelling (some v) >>= (readFrom · ts) := by
  rw [readFrom, ArgumentToken.ofText_joined hne h]
  rfl

theorem readFrom_of_standsAlone {v : Text} (h : StandsAlone v) (r : Reading) (ts : List Text) :
    readFrom r (v :: ts) = r.token (.plain v) >>= (readFrom · ts) := by
  rw [readFrom, ArgumentToken.ofText_of_standsAlone h]

namespace Reading

/-- Taking up what waits changes the arguments at most. -/
theorem settle_cases {r s : Reading} (h : r.settle = .ok s) :
    (r.pending = none ∧ s = r) ∨
      ∃ o v b, r.pending = some (o, some v) ∧ r.arguments.store o v = .ok b ∧
        s = { r with arguments := b, pending := none } := by
  rw [settle] at h
  split at h
  next hnone =>
    cases h
    exact .inl ⟨hnone, rfl⟩
  next => cases h
  next o v hsome =>
    obtain ⟨b, hb, h⟩ := bind_eq_ok_iff.1 h
    cases h
    exact .inr ⟨o, v, b, hsome, hb, rfl⟩

theorem pending_of_settle {r s : Reading} (h : r.settle = .ok s) : s.pending = none := by
  rcases settle_cases h with ⟨hnone, rfl⟩ | ⟨o, v, b, -, -, rfl⟩
  · exact hnone
  · rfl

theorem settle_of_pending {r : Reading} (h : r.pending = none) : r.settle = .ok r := by
  rw [settle, h]

theorem option_joined (r : Reading) (o : ValueOption) (v : Text) :
    r.option o.spelling (some v) =
      r.settle >>= fun s => s.arguments.store o v >>= fun b => pure { s with arguments := b } := by
  rw [option.eq_def, o.spelling_spec.2.2]

theorem option_named (r : Reading) (o : ValueOption) :
    r.option o.spelling none = r.settle >>= fun s => pure { s with pending := some (o, none) } := by
  rw [option.eq_def, o.spelling_spec.2.2]

theorem option_flag (r : Reading) (f : Flag) :
    r.option f.spelling none =
      r.settle >>= fun s => s.arguments.set f >>= fun b => pure { s with arguments := b } := by
  rw [option.eq_def, f.spelling_spec.2.2]

end Reading

/-- Tokens of which the first one lets an option that waits be taken up, if its value is known. -/
def SettlesFirst (ts : List Text) : Prop :=
  ∀ r t, (∀ o, r.pending ≠ some (o, none)) →
    (readFrom r ts = .ok t ↔ ∃ s, r.settle = .ok s ∧ readFrom s ts = .ok t)

theorem settlesFirst_nil : SettlesFirst [] := by
  intro r t _
  constructor
  · intro h
    exact ⟨t, h, Reading.settle_of_pending (Reading.pending_of_settle h)⟩
  · rintro ⟨s, hs, h⟩
    cases (Reading.settle_of_pending (Reading.pending_of_settle hs)).symm.trans h
    exact hs

/-- A value in a token of its own waits until the next token, which lets it be taken up. -/
theorem readFrom_value_iff {ts : List Text} (hts : SettlesFirst ts) {v : Text} (hv : StandsAlone v)
    (o : ValueOption) {s t : Reading} (hs : s.pending = none) :
    readFrom { s with pending := some (o, none) } (v :: ts) = .ok t ↔
      ∃ b, s.arguments.store o v = .ok b ∧ readFrom { s with arguments := b } ts = .ok t := by
  rw [readFrom_of_standsAlone hv]
  refine (hts { s with pending := some (o, some v) } t nofun).trans ?_
  simp only [Reading.settle, bind_eq_ok_iff]
  constructor
  · rintro ⟨_, ⟨b, hb, ⟨⟩⟩, h⟩
    rw [← hs] at h
    exact ⟨b, hb, h⟩
  · rintro ⟨b, hb, h⟩
    refine ⟨_, ⟨b, hb, rfl⟩, ?_⟩
    rw [← hs]
    exact h

/-- Reading one mention is giving it to the arguments, once what waits has been taken up. -/
theorem readFrom_mention_iff {ts : List Text} (hts : SettlesFirst ts) (m : Mention) {r t : Reading} :
    readFrom r (m.tokens ++ ts) = .ok t ↔
      ∃ s, r.settle = .ok s ∧ ∃ b, m.give s.arguments = .ok b ∧
        readFrom { s with arguments := b } ts = .ok t := by
  cases m with
  | joined o v =>
      obtain ⟨hne, hequals, -⟩ := o.spelling_spec
      rw [Mention.tokens, List.singleton_append, readFrom_joined hne hequals, Reading.option_joined]
      simp only [bind_assoc, pure_bind, bind_eq_ok_iff, Mention.give]
  | apart o v hv =>
      obtain ⟨hne, hequals, -⟩ := o.spelling_spec
      rw [Mention.tokens, List.cons_append, readFrom_named hne hequals, Reading.option_named]
      simp only [bind_assoc, pure_bind, bind_eq_ok_iff, Mention.give]
      refine exists_congr fun s => and_congr_right fun hs => ?_
      exact readFrom_value_iff hts hv o (Reading.pending_of_settle hs)
  | flag f =>
      obtain ⟨hne, hequals, -⟩ := f.spelling_spec
      rw [Mention.tokens, List.singleton_append, readFrom_named hne hequals, Reading.option_flag]
      simp only [bind_assoc, pure_bind, bind_eq_ok_iff, Mention.give]

theorem SettlesFirst.mention {ts : List Text} (hts : SettlesFirst ts) (m : Mention) :
    SettlesFirst (m.tokens ++ ts) := by
  intro r t _
  rw [readFrom_mention_iff hts]
  refine exists_congr fun s => and_congr_right fun hs => ?_
  rw [readFrom_mention_iff hts, Reading.settle_of_pending (Reading.pending_of_settle hs)]
  simp

theorem SettlesFirst.mentions {ts : List Text} (hts : SettlesFirst ts) (ms : List Mention) :
    SettlesFirst (ms.flatMap Mention.tokens ++ ts) := by
  induction ms with
  | nil => exact hts
  | cons m ms ih =>
      rw [List.flatMap_cons, List.append_assoc]
      exact ih.mention m

/-- Reading mentions is giving them to the arguments one by one. -/
theorem readFrom_mentions_iff {ts : List Text} (hts : SettlesFirst ts) (ms : List Mention)
    {r t : Reading} (hr : r.pending = none) :
    readFrom r (ms.flatMap Mention.tokens ++ ts) = .ok t ↔
      ∃ b, ms.foldlM Mention.give r.arguments = .ok b ∧
        readFrom { r with arguments := b } ts = .ok t := by
  induction ms generalizing r with
  | nil => simp [pure, Except.pure]
  | cons m ms ih =>
      rw [List.flatMap_cons, List.append_assoc, readFrom_mention_iff (hts.mentions ms),
        Reading.settle_of_pending hr, List.foldlM_cons]
      simp only [Except.ok.injEq, exists_eq_left', bind_eq_ok_iff]
      constructor
      · rintro ⟨b, hb, h⟩
        obtain ⟨c, hc, h⟩ := (ih (r := { r with arguments := b }) hr).1 h
        exact ⟨c, ⟨b, hb, hc⟩, h⟩
      · rintro ⟨c, ⟨b, hb, hc⟩, h⟩
        exact ⟨b, hb, (ih (r := { r with arguments := b }) hr).2 ⟨c, hc, h⟩⟩

theorem ofTokens_mentions_iff {ms : List Mention} {a : Arguments} :
    ofTokens (ms.flatMap Mention.tokens) = .ok a ↔ ms.foldlM Mention.give {} = .ok a := by
  have hread {t : Reading} := readFrom_mentions_iff settlesFirst_nil ms (r := {}) (t := t) rfl
  simp only [List.append_nil] at hread
  simp only [ofTokens, ofTokensWith, bind_eq_ok_iff, hread]
  constructor
  · rintro ⟨_, ⟨t, ⟨b, hb, ⟨⟩⟩, ⟨⟩⟩, ⟨⟩⟩
    exact hb
  · intro h
    exact ⟨_, ⟨_, ⟨a, h, rfl⟩, rfl⟩, rfl⟩

/-! ### An operand among the options -/

namespace Reading

theorem token_plain {r : Reading} (hr : ∀ o, r.pending ≠ some (o, none)) (v : Text) :
    r.token (.plain v) = r.operand v := by
  rw [token]
  split
  next o hwaits => exact absurd hwaits (hr o)
  next => rfl

theorem exists_settle_of_operand {r t : Reading} {v : Text} (h : r.operand v = .ok t) :
    ∃ s, r.settle = .ok s := by
  rw [operand] at h
  split at h
  · obtain ⟨s, hs, -⟩ := bind_eq_ok_iff.1 h
    exact ⟨s, hs⟩
  · cases h

theorem operand_of_settle {r s : Reading} (h : r.settle = .ok s) (v : Text) :
    r.operand v = s.operand v := by
  have hself := settle_of_pending (pending_of_settle h)
  have hsame : s.operands = r.operands ∧ s.operandLimit = r.operandLimit := by
    rcases settle_cases h with ⟨-, rfl⟩ | ⟨o, w, b, -, -, rfl⟩ <;> exact ⟨rfl, rfl⟩
  rw [operand, operand, h, hself, hsame.1, hsame.2]

end Reading

theorem settlesFirst_operand {v : Text} (hv : StandsAlone v) (ts : List Text) :
    SettlesFirst (v :: ts) := by
  intro r t hr
  have hsettled {s : Reading} (hs : r.settle = .ok s) : readFrom r (v :: ts) = readFrom s (v :: ts) := by
    have hwaits : ∀ o, s.pending ≠ some (o, none) := by simp [Reading.pending_of_settle hs]
    rw [readFrom_of_standsAlone hv, readFrom_of_standsAlone hv, Reading.token_plain hr,
      Reading.token_plain hwaits, Reading.operand_of_settle hs]
  constructor
  · intro h
    have hoperand := h
    rw [readFrom_of_standsAlone hv, Reading.token_plain hr] at hoperand
    obtain ⟨u, hu, -⟩ := bind_eq_ok_iff.1 hoperand
    obtain ⟨s, hs⟩ := Reading.exists_settle_of_operand hu
    exact ⟨s, hs, hsettled hs ▸ h⟩
  · rintro ⟨s, hs, h⟩
    exact (hsettled hs).trans h

/-- One operand may stand before, between or after the mentions. -/
theorem ofTokensWith_operand_iff {before after : List Mention} {v : Text} (hv : StandsAlone v)
    {a : Arguments} {operands : List Text} :
    ofTokensWith 1 (before.flatMap Mention.tokens ++ v :: after.flatMap Mention.tokens) =
        .ok (a, operands) ↔
      (before ++ after).foldlM Mention.give {} = .ok a ∧ [v] = operands := by
  have hoperand (b : Arguments) :
      readFrom { arguments := b, operandLimit := 1 } (v :: after.flatMap Mention.tokens) =
        readFrom { arguments := b, operands := [v], operandLimit := 1 }
          (after.flatMap Mention.tokens ++ []) := by
    rw [readFrom_of_standsAlone hv, List.append_nil]
    rfl
  have hbefore {t : Reading} := readFrom_mentions_iff (t := t) (r := { operandLimit := 1 })
    (settlesFirst_operand hv (after.flatMap Mention.tokens)) before rfl
  have hafter {b : Arguments} {t : Reading} := readFrom_mentions_iff (t := t)
    (r := { arguments := b, operands := [v], operandLimit := 1 }) settlesFirst_nil after rfl
  rw [List.foldlM_append]
  simp only [ofTokensWith, bind_eq_ok_iff, hbefore, hoperand, hafter]
  constructor
  · rintro ⟨_, ⟨b, hb, c, hc, ⟨⟩⟩, ⟨⟩⟩
    exact ⟨⟨b, hb, hc⟩, rfl⟩
  · rintro ⟨⟨b, hb, ha⟩, rfl⟩
    exact ⟨_, ⟨b, hb, a, ha, rfl⟩, rfl⟩

/-! ### Main statement -/

theorem says_iff_completes {ms : List Mention} {a : Arguments} : Says ms a ↔ Completes {} ms a := by
  have hvalues (o : ValueOption) : values {} o = [] := by cases o <;> rfl
  have hflags (f : Flag) : isSet {} f = false := by cases f <;> rfl
  constructor
  · intro h
    refine ⟨fun o => ?_, fun f => ?_⟩
    · rw [hvalues, h.values, List.nil_append]
    · rw [hflags, h.flags, Bool.toNat_false, Nat.zero_add]
  · intro h
    refine ⟨fun o => ?_, fun f => ?_⟩
    · rw [h.values, hvalues, List.nil_append]
    · rw [h.flags, hflags, Bool.toNat_false, Nat.zero_add]

theorem foldlM_give_empty_iff {ms : List Mention} {a : Arguments} :
    ms.foldlM Mention.give {} = .ok a ↔ Says ms a ∧ a.root ≠ some [] ∧ a.config ≠ some [] := by
  rw [foldlM_give_eq_ok_iff, ← says_iff_completes]
  refine and_congr_right fun h => ?_
  have hempty (o : ValueOption) : (∃ m ∈ ms, m.value? o = some []) ↔ [] ∈ a.values o := by
    rw [← h.values, List.mem_filterMap]
  constructor
  · intro hpaths
    have hpath (o : ValueOption) (ho : o.isPath = true) : [] ∉ a.values o := by
      intro hmem
      obtain ⟨m, hm, hv⟩ := (hempty o).2 hmem
      exact hpaths m hm o ho hv
    exact ⟨fun hroot => hpath .root rfl (Option.mem_toList.2 hroot),
      fun hconfig => hpath .config rfl (Option.mem_toList.2 hconfig)⟩
  · rintro ⟨hroot, hconfig⟩ m hm o ho hv
    have hmem := (hempty o).1 ⟨m, hm, hv⟩
    cases o with
    | root => exact hroot (Option.mem_toList.1 hmem)
    | config => exact hconfig (Option.mem_toList.1 hmem)
    | _ => cases ho

/-- The arguments mentioned in the order in which their options are listed. -/
def mentions (a : Arguments) : List Mention :=
  valueOptions.flatMap (fun o => (a.values o).map (Mention.joined o)) ++
    (flags.filter a.isSet).map Mention.flag

theorem says_mentions (a : Arguments) : Says a.mentions a := by
  constructor
  · intro o
    have hvalues (p : ValueOption) : ((a.values p).map (Mention.joined p)).filterMap (Mention.value? o) =
        if p = o then a.values p else [] := by
      rw [List.filterMap_map]
      by_cases h : p = o <;> simp [Mention.value?, h]
    have hflags : ((flags.filter a.isSet).map Mention.flag).filterMap (Mention.value? o) = [] := by
      simp [Mention.value?]
    rw [mentions, List.filterMap_append, hflags, List.append_nil, List.filterMap_flatMap]
    simp only [hvalues]
    cases o <;> simp [valueOptions]
  · intro f
    have hvalues : (valueOptions.flatMap fun o => (a.values o).map (Mention.joined o)).countP
        (Mention.isFlag f) = 0 := by
      rw [List.countP_eq_zero]
      intro m hm
      obtain ⟨o, -, hm⟩ := List.mem_flatMap.1 hm
      obtain ⟨v, -, rfl⟩ := List.mem_map.1 hm
      exact Bool.false_ne_true
    have hflags : ((flags.filter a.isSet).map Mention.flag).countP (Mention.isFlag f) =
        (a.isSet f).toNat := by
      have htoNat (b : Bool) : b.toNat = if b = true then 1 else 0 := by cases b <;> rfl
      rw [List.countP_map, List.countP_filter, htoNat]
      cases f <;> simp [flags, List.countP_cons, Mention.isFlag]
    rw [mentions, List.countP_append, hvalues, hflags, Nat.zero_add]

end Arguments

open Arguments

theorem Stage.standsAlone_of_ofText? {name : Text} {stage : Stage} (h : Stage.ofText? name = some stage) :
    StandsAlone name := by
  rw [Stage.ofText?] at h
  split at h
  next hname =>
    subst hname
    exact ⟨by decide, by decide⟩
  next =>
    split at h
    next hname =>
      subst hname
      exact ⟨by decide, by decide⟩
    next => cases h

namespace CommandLine

theorem ofTokens_sync_iff {tokens : List Text} {a : Arguments} :
    Command.ofTokens ("sync".toList :: tokens) = .ok (.sync a) ↔ Arguments.ofTokens tokens = .ok a := by
  rw [Command.ofTokens, if_pos rfl]
  cases Arguments.ofTokens tokens <;> simp

theorem ofTokens_hook_iff {tokens : List Text} {a : Arguments} {name : Text} {stage : Stage}
    (hstage : Stage.ofText? name = some stage)
    (hname : ∀ b operands, ofTokensWith 1 tokens = .ok (b, operands) → [name] = operands) :
    Command.ofTokens ("hook".toList :: tokens) = .ok (.hook stage a) ↔
      ofTokensWith 1 tokens = .ok (a, [name]) := by
  rw [Command.ofTokens, if_neg (by decide), if_pos rfl]
  cases htokens : ofTokensWith 1 tokens with
  | error e => simp
  | ok read =>
      obtain ⟨b, operands⟩ := read
      obtain rfl := hname b operands htokens
      simp [hstage]

end CommandLine

/-- Arguments can be mentioned, and they are read from the tokens of mentions exactly if the mentions say
what they say, in whatever order the options stand and however the values are divided among tokens. So it
is for both commands, of which one has the name of a stage before, between or after the mentions. -/
theorem arguments_read_back {a : Arguments} (hroot : a.root ≠ some []) (hconfig : a.config ≠ some []) :
    Says a.mentions a ∧
      (∀ ms, Arguments.ofTokens (ms.flatMap Mention.tokens) = .ok a ↔ Says ms a) ∧
      (∀ ms, CommandLine.Command.ofTokens ("sync".toList :: ms.flatMap Mention.tokens) = .ok (.sync a) ↔
        Says ms a) ∧
      ∀ before after name stage, Stage.ofText? name = some stage →
        (CommandLine.Command.ofTokens ("hook".toList ::
            (before.flatMap Mention.tokens ++ name :: after.flatMap Mention.tokens)) =
          .ok (.hook stage a) ↔ Says (before ++ after) a) := by
  have hsays {ms : List Mention} : ms.foldlM Mention.give {} = .ok a ↔ Says ms a := by
    rw [foldlM_give_empty_iff]
    exact and_iff_left ⟨hroot, hconfig⟩
  refine ⟨says_mentions a, fun ms => ?_, fun ms => ?_, fun before after name stage hstage => ?_⟩
  · rw [ofTokens_mentions_iff, hsays]
  · rw [CommandLine.ofTokens_sync_iff, ofTokens_mentions_iff, hsays]
  · have hname := Stage.standsAlone_of_ofText? hstage
    rw [CommandLine.ofTokens_hook_iff hstage fun b operands h => ((ofTokensWith_operand_iff hname).1 h).2,
      ofTokensWith_operand_iff hname, hsays]
    exact and_iff_left rfl

/-- Values that look like an option, like a single dash and like nothing, and one with an equals sign. -/
def oddArguments : Arguments where
  root := some "/site".toList
  config := some "-c".toList
  importRoots := ["--modify".toList, [], "a=b".toList]
  outputName := some "-".toList
  check := true

/-- The first part of a command line for them. -/
def oddMentions : List Mention :=
  [.joined .importRoot "--modify".toList, .flag .check,
   .apart .root "/site".toList ⟨by decide, by decide⟩]

/-- The rest of it. -/
def moreOddMentions : List Mention :=
  [.joined .importRoot [], .joined .config "-c".toList, .joined .outputName "-".toList,
   .apart .importRoot "a=b".toList ⟨by decide, by decide⟩]

theorem arguments_read_back_oddArguments :
    oddArguments.root ≠ some [] ∧ oddArguments.config ≠ some [] ∧
      Arguments.ofTokens (["--import=--modify", "--check", "--root", "/site", "--import=",
        "--config=-c", "--output-name=-", "--import", "a=b"].map String.toList) = .ok oddArguments ∧
      CommandLine.Command.ofTokens (["hook", "--import=--modify", "--check", "--root", "/site", "pre-init",
        "--import=", "--config=-c", "--output-name=-", "--import", "a=b"].map String.toList) =
          .ok (.hook .preInit oddArguments) := by
  have hsays : Says (oddMentions ++ moreOddMentions) oddArguments :=
    ⟨fun o => by cases o <;> decide, fun f => by cases f <;> decide⟩
  have hroot : oddArguments.root ≠ some [] := by decide
  have hconfig : oddArguments.config ≠ some [] := by decide
  obtain ⟨-, hread, -, hhook⟩ := arguments_read_back hroot hconfig
  exact ⟨hroot, hconfig, (hread _).2 hsays,
    (hhook oddMentions moreOddMentions "pre-init".toList .preInit rfl).2 hsays⟩

end ImportSync

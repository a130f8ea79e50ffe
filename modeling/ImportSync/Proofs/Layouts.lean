import ImportSync.Proofs.Steps
import ImportSync.Settings.Load
import Mathlib.Data.List.Nodup
import Mathlib.Data.List.Pairwise
import Mathlib.Logic.Relation

/-!
Layouts of an options file. The same options may be laid out in many ways: entries may be put in another
order, entries with unknown keys may come in or go, a key may be written for another one of the same field,
and a record may be an array of its first fields. Each of these steps, in the options or in a record within
them, leaves the fields of the record as they are, and so what is read from them.
-/

namespace ImportSync

namespace Json

/-! ### Steps from one layout to another -/

/-- A step between two layouts of one record, whose fields have the given keys in order. -/
inductive Relaid (keys : List (List Text)) : Json → Json → Prop where
  /-- The entries come in another order. -/
  | reorder {entries entries' : List (Option Text × Json)} (h : entries.Perm entries') :
      Relaid keys (.object entries) (.object entries')
  /-- An entry goes whose key is that of no field. -/
  | unknown (before after : List (Option Text × Json)) {k : Text} (v : Json) (h : k ∉ keys.flatten) :
      Relaid keys (.object (before ++ (some k, v) :: after)) (.object (before ++ after))
  /-- A field is written under another one of its keys. -/
  | rename (before after : List (Option Text × Json)) {names : List Text} {k k' : Text} (v : Json)
      (hnames : names ∈ keys) (hk : k ∈ names) (hk' : k' ∈ names) :
      Relaid keys (.object (before ++ (some k, v) :: after)) (.object (before ++ (some k', v) :: after))
  /-- An array of the first fields becomes the object with just these. -/
  | positional {items : List Json} (h : items.length ≤ keys.length) :
      Relaid keys (.array items) (.object (List.zipWith (fun names v => (names.head?, v)) keys items))

/-- A step at the value of one field of a record, be it an object or an array. -/
inductive AtField (keys : List (List Text)) (names : List Text) (R : Json → Json → Prop) :
    Json → Json → Prop where
  | entry (before after : List (Option Text × Json)) {k : Text} {v v' : Json} (hk : k ∈ names)
      (h : R v v') :
      AtField keys names R (.object (before ++ (some k, v) :: after))
        (.object (before ++ (some k, v') :: after))
  | item (before after : List Json) {v v' : Json} (hplace : keys[before.length]? = some names)
      (h : R v v') :
      AtField keys names R (.array (before ++ v :: after)) (.array (before ++ v' :: after))

/-- A step at one item of a list. -/
inductive AtItem (R : Json → Json → Prop) : Json → Json → Prop where
  | item (before after : List Json) {v v' : Json} (h : R v v') :
      AtItem R (.array (before ++ v :: after)) (.array (before ++ v' :: after))

/-! ### Fields of objects -/

theorem mapM_option {α β : Type} (f : α → Option β) (xs : List α) :
    xs.mapM f = if xs.all fun x => (f x).isSome then some (xs.filterMap f) else none := by
  induction xs with
  | nil => rfl
  | cons x xs ih =>
      rw [List.mapM_cons, ih]
      cases hx : f x with
      | none => simp [hx]
      | some y =>
          rw [List.all_cons, List.filterMap_cons, hx]
          split <;> simp_all

/-- The entries of an object whose keys have a text. -/
def named (entries : List (Option Text × Json)) : List (Text × Json) :=
  entries.filterMap fun e => e.1.map (·, e.2)

theorem named_append_cons (before after : List (Option Text × Json)) (k : Text) (v : Json) :
    named (before ++ (some k, v) :: after) = named before ++ (k, v) :: named after := by
  simp [named]

theorem fields?_object (keys : List (List Text)) (entries : List (Option Text × Json)) :
    fields? keys (.object entries) =
      if entries.all (·.1.isSome) then keys.mapM (field? · (named entries)) else none := by
  have htexts := mapM_option (fun e : Option Text × Json => e.1.map (·, e.2)) entries
  simp only [Option.isSome_map] at htexts
  rw [fields?, htexts]
  split <;> rfl

/-- The value that there is, if there is one at most. -/
def atMostOne? : List Json → Option (Option Json)
  | [] => some none
  | [v] => some (some v)
  | _ => none

theorem atMostOne?_perm {vs vs' : List Json} (h : vs.Perm vs') : atMostOne? vs = atMostOne? vs' := by
  match vs, vs' with
  | [], vs' => rw [List.nil_perm.1 h]
  | [v], vs' => rw [List.singleton_perm.1 h]
  | v :: w :: vs, [] => exact absurd h.length_eq (by simp)
  | v :: w :: vs, [v'] => exact absurd h.length_eq (by simp)
  | v :: w :: vs, v' :: w' :: vs' => rfl

/-- The values of the entries under some keys. -/
def valuesUnder (names : List Text) (entries : List (Text × Json)) : List Json :=
  (entries.filter fun e => names.contains e.1).map (·.2)

theorem field?_eq (names : List Text) (entries : List (Text × Json)) :
    field? names entries = atMostOne? (valuesUnder names entries) := by
  rw [field?, valuesUnder]
  generalize (entries.filter fun e => names.contains e.1) = found
  match found with
  | [] => rfl
  | [e] => rfl
  | e :: e' :: found => rfl

theorem valuesUnder_append_cons (names : List Text) (before after : List (Text × Json)) (k : Text)
    (v : Json) :
    valuesUnder names (before ++ (k, v) :: after) =
      valuesUnder names before ++ ((if k ∈ names then [v] else []) ++ valuesUnder names after) := by
  by_cases hk : k ∈ names <;> simp [valuesUnder, hk]

theorem valuesUnder_eq_nil {names : List Text} {entries : List (Text × Json)}
    (h : ∀ e ∈ entries, e.1 ∉ names) : valuesUnder names entries = [] := by
  rw [valuesUnder, List.filter_eq_nil_iff.2 (by simpa using h), List.map_nil]

/-! ### Keys of different fields -/

/-- Every field of a record has a key, and no key is that of two fields. -/
structure Distinct (keys : List (List Text)) : Prop where
  nonempty : ∀ names ∈ keys, names ≠ []
  nodup : keys.flatten.Nodup

variable {keys : List (List Text)} {names : List Text}

theorem Distinct.tail (h : Distinct (names :: keys)) : Distinct keys where
  nonempty names' hmem := h.nonempty names' (List.mem_cons_of_mem names hmem)
  nodup := (List.nodup_append.1 (List.flatten_cons ▸ h.nodup)).2.1

theorem Distinct.not_mem_tail (h : Distinct (names :: keys)) {k : Text} (hk : k ∈ names) :
    k ∉ keys.flatten :=
  fun hmem => (List.nodup_append.1 (List.flatten_cons ▸ h.nodup)).2.2 k hk k hmem rfl

theorem Distinct.eq_of_mem (h : Distinct keys) {names' : List Text} {k : Text} (hnames : names ∈ keys)
    (hnames' : names' ∈ keys) (hk : k ∈ names) (hk' : k ∈ names') : names = names' := by
  have hsymm : Std.Symm (@List.Disjoint Text) := ⟨fun _ _ h _ hk hk' => h hk' hk⟩
  by_contra hne
  exact (List.nodup_flatten.1 h.nodup).2.forall hnames hnames' hne hk hk'

theorem Distinct.nodup_keys (h : Distinct keys) : keys.Nodup := by
  refine (List.nodup_flatten.1 h.nodup).2.imp_of_mem fun {names names'} hnames _ hdisjoint heq => ?_
  obtain ⟨k, hk⟩ := List.exists_mem_of_ne_nil names (h.nonempty names hnames)
  exact hdisjoint hk (heq ▸ hk)

/-! ### Steps leave the fields of a record -/

theorem key_mem_of_named_zipWith {items : List Json} {e : Text × Json}
    (h : e ∈ named (List.zipWith (fun names v => (names.head?, v)) keys items)) :
    e.1 ∈ keys.flatten := by
  induction keys generalizing items with
  | nil => cases h
  | cons names keys ih =>
      cases items with
      | nil => cases h
      | cons v items =>
          rw [List.flatten_cons, List.mem_append]
          obtain ⟨entry, hentry, he⟩ := List.mem_filterMap.1 h
          rcases List.mem_cons.1 hentry with rfl | hentry
          · obtain ⟨k, hk, rfl⟩ := Option.map_eq_some_iff.1 he
            exact .inl (List.mem_of_mem_head? hk)
          · exact .inr (ih (List.mem_filterMap.2 ⟨entry, hentry, he⟩))

theorem all_isSome_zipWith (h : Distinct keys) (items : List Json) :
    (List.zipWith (fun names v => (names.head?, v)) keys items).all (·.1.isSome) = true := by
  induction keys generalizing items with
  | nil => rfl
  | cons names keys ih =>
      cases items with
      | nil => rfl
      | cons v items =>
          obtain ⟨k, others, rfl⟩ := List.exists_cons_of_ne_nil (h.nonempty names List.mem_cons_self)
          exact ih h.tail items

/-- Values that are given under the first keys of their fields are the values of these fields. Before them
stand entries that belong to fields further in front. -/
theorem mapM_field?_zipWith (h : Distinct keys) (items : List Json)
    (hlength : items.length ≤ keys.length) (before : List (Text × Json))
    (hbefore : ∀ e ∈ before, e.1 ∉ keys.flatten) :
    keys.mapM (field? ·
        (before ++ named (List.zipWith (fun names v => (names.head?, v)) keys items))) =
      some (items.map some ++ List.replicate (keys.length - items.length) none) := by
  induction keys generalizing items before with
  | nil =>
      rw [List.length_eq_zero_iff.1 (Nat.le_zero.1 hlength)]
      rfl
  | cons names keys ih =>
      have hfront : valuesUnder names before = [] :=
        valuesUnder_eq_nil fun e he hmem => hbefore e he (by simp [hmem])
      have hbehind (e : Text × Json) (he : e ∈ before) : e.1 ∉ keys.flatten :=
        fun hmem => hbefore e he (by simp [hmem])
      cases items with
      | nil =>
          have hrest := ih h.tail [] (Nat.zero_le _) before hbehind
          rw [List.zipWith_nil_right] at hrest ⊢
          rw [List.mapM_cons, hrest, field?_eq, named, List.filterMap_nil, List.append_nil, hfront]
          rfl
      | cons v items =>
          obtain ⟨k, others, rfl⟩ := List.exists_cons_of_ne_nil (h.nonempty names List.mem_cons_self)
          have hk : k ∈ k :: others := List.mem_cons_self
          have hlater : valuesUnder (k :: others)
              (named (List.zipWith (fun names v => (names.head?, v)) keys items)) = [] :=
            valuesUnder_eq_nil fun e he hmem => h.not_mem_tail hmem (key_mem_of_named_zipWith he)
          have hbehind' (e : Text × Json) (he : e ∈ before ++ [(k, v)]) : e.1 ∉ keys.flatten := by
            rcases List.mem_append.1 he with he | he
            · exact hbehind e he
            · exact List.mem_singleton.1 he ▸ h.not_mem_tail hk
          have hrest := ih h.tail items (Nat.le_of_succ_le_succ hlength) _ hbehind'
          have hentries : named (List.zipWith (fun names v => (names.head?, v)) ((k :: others) :: keys)
              (v :: items)) =
              (k, v) :: named (List.zipWith (fun names v => (names.head?, v)) keys items) := rfl
          rw [List.append_assoc, List.singleton_append] at hrest
          rw [hentries, List.mapM_cons, hrest, field?_eq, valuesUnder_append_cons, hfront, hlater,
            if_pos hk, List.length_cons, List.length_cons, Nat.add_sub_add_right]
          rfl

theorem Relaid.fields?_eq {j j' : Json} (hkeys : Distinct keys) (h : Relaid keys j j') :
    j.fields? keys = j'.fields? keys := by
  cases h with
  | reorder h =>
      rw [fields?_object, fields?_object, h.all_eq]
      refine if_congr Iff.rfl (mapM_congr fun names _ => ?_) rfl
      rw [field?_eq, field?_eq]
      exact atMostOne?_perm (((h.filterMap _).filter _).map _)
  | @unknown before after k v hk =>
      have hall : (before ++ (some k, v) :: after).all (·.1.isSome) =
          (before ++ after).all (·.1.isSome) := by simp
      rw [fields?_object, fields?_object, hall]
      refine if_congr Iff.rfl (mapM_congr fun names hnames => ?_) rfl
      have hout : k ∉ names := fun hmem => hk (List.mem_flatten.2 ⟨names, hnames, hmem⟩)
      rw [field?_eq, field?_eq, named_append_cons, valuesUnder_append_cons, if_neg hout]
      simp [named, valuesUnder]
  | @rename before after names k k' v hnames hk hk' =>
      rw [fields?_object, fields?_object]
      refine if_congr (by simp) (mapM_congr fun names' hnames' => ?_) rfl
      have hsame : k ∈ names' ↔ k' ∈ names' :=
        ⟨fun hmem => hkeys.eq_of_mem hnames hnames' hk hmem ▸ hk',
          fun hmem => hkeys.eq_of_mem hnames hnames' hk' hmem ▸ hk⟩
      rw [field?_eq, field?_eq, named_append_cons, named_append_cons, valuesUnder_append_cons,
        valuesUnder_append_cons]
      simp only [hsame]
  | @positional items hlength =>
      rw [fields?_object, if_pos (all_isSome_zipWith hkeys items), fields?, if_pos hlength]
      exact (mapM_field?_zipWith hkeys items hlength [] (by simp)).symm

theorem Relaid.bind_fields?_eq {α : Type} {j j' : Json} (hkeys : Distinct keys) (h : Relaid keys j j')
    (read : List (Option Json) → Option α) :
    (j.fields? keys).bind read = (j'.fields? keys).bind read := by
  rw [h.fields?_eq hkeys]

/-! ### Steps within a field -/

/-- Of two lists of fields, both are missing, or they differ at one place only, which has values that are
related. -/
def DifferAt (first last : Nat) (R : Json → Json → Prop) (fields fields' : Option (List (Option Json))) :
    Prop :=
  (fields = none ∧ fields' = none) ∨
    ∃ before after v v', before.length = first ∧ after.length = last ∧ R v v' ∧
      fields = some (before ++ some v :: after) ∧ fields' = some (before ++ some v' :: after)

theorem DifferAt.bind_eq {α : Type} {first last : Nat} {R : Json → Json → Prop}
    {fields fields' : Option (List (Option Json))} {read : List (Option Json) → Option α}
    (h : DifferAt first last R fields fields')
    (hread : ∀ before after v v', before.length = first → after.length = last → R v v' →
      read (before ++ some v :: after) = read (before ++ some v' :: after)) :
    fields.bind read = fields'.bind read := by
  rcases h with ⟨rfl, rfl⟩ | ⟨before, after, v, v', hbefore, hafter, hR, rfl, rfl⟩
  · rfl
  · exact hread before after v v' hbefore hafter hR

theorem length_of_mapM_option {α β : Type} {f : α → Option β} {xs : List α} {ys : List β}
    (h : xs.mapM f = some ys) : ys.length = xs.length := by
  induction xs generalizing ys with
  | nil => rw [← Option.some.inj h]; rfl
  | cons x xs ih =>
      rw [List.mapM_cons] at h
      obtain ⟨y, -, h⟩ := Option.bind_eq_some_iff.1 h
      obtain ⟨ys', hys', h⟩ := Option.bind_eq_some_iff.1 h
      rw [← Option.some.inj h, List.length_cons, List.length_cons, ih hys']

/-- A change of the value under a key of one field is seen in this field only, if it is given once. -/
theorem atMostOne?_append_cons (before after : List Json) (v v' : Json) :
    (atMostOne? (before ++ v :: after) = none ∧ atMostOne? (before ++ v' :: after) = none) ∨
      (atMostOne? (before ++ v :: after) = some (some v) ∧
        atMostOne? (before ++ v' :: after) = some (some v')) := by
  match before, after with
  | [], [] => exact .inr ⟨rfl, rfl⟩
  | [], w :: after => exact .inl ⟨rfl, rfl⟩
  | [w], after => exact .inl ⟨rfl, rfl⟩
  | w :: w' :: before, after => exact .inl ⟨rfl, rfl⟩

theorem differAt_mapM {f g : List Text → Option (Option Json)} {first last : List (List Text)}
    {R : Json → Json → Prop} {v v' : Json} (hR : R v v')
    (hfirst : ∀ other ∈ first, f other = g other) (hlast : ∀ other ∈ last, f other = g other)
    (hnames : (f names = none ∧ g names = none) ∨
      (f names = some (some v) ∧ g names = some (some v'))) :
    DifferAt first.length last.length R ((first ++ names :: last).mapM f)
      ((first ++ names :: last).mapM g) := by
  rw [List.mapM_append, List.mapM_append, List.mapM_cons, List.mapM_cons, mapM_congr hfirst,
    mapM_congr hlast]
  cases hbefore : first.mapM g with
  | none => exact .inl ⟨rfl, rfl⟩
  | some before =>
      cases hafter : last.mapM g with
      | none =>
          rcases hnames with ⟨hf, hg⟩ | ⟨hf, hg⟩ <;> rw [hf, hg] <;> exact .inl ⟨rfl, rfl⟩
      | some after =>
          rcases hnames with ⟨hf, hg⟩ | ⟨hf, hg⟩ <;> rw [hf, hg]
          · exact .inl ⟨rfl, rfl⟩
          · exact .inr ⟨before, after, v, v', length_of_mapM_option hbefore,
              length_of_mapM_option hafter, hR, rfl, rfl⟩

theorem AtField.differAt {first last : List (List Text)} {R : Json → Json → Prop} {j j' : Json}
    (hkeys : Distinct (first ++ names :: last)) (h : AtField (first ++ names :: last) names R j j') :
    DifferAt first.length last.length R (j.fields? (first ++ names :: last))
      (j'.fields? (first ++ names :: last)) := by
  have hnodup := hkeys.nodup_keys
  cases h with
  | @entry before after k v v' hk hR =>
      have hall : (before ++ (some k, v) :: after).all (·.1.isSome) =
          (before ++ (some k, v') :: after).all (·.1.isSome) := by simp
      rw [fields?_object, fields?_object, hall, named_append_cons, named_append_cons]
      split
      · -- fields before and behind do not see the entry
        have hothers (other : List Text) (hother : other ∈ first ++ names :: last)
            (hne : other ≠ names) :
            field? other (named before ++ (k, v) :: named after) =
              field? other (named before ++ (k, v') :: named after) := by
          have hout : k ∉ other := fun hmem => hne (hkeys.eq_of_mem hother (by simp) hmem hk)
          rw [field?_eq, field?_eq, valuesUnder_append_cons, valuesUnder_append_cons, if_neg hout,
            if_neg hout]
        obtain ⟨-, hbehind, hbefore⟩ := List.nodup_append.1 hnodup
        refine differAt_mapM hR (fun other hother => hothers other (by simp [hother]) ?_)
          (fun other hother => hothers other (by simp [hother]) ?_) ?_
        · exact hbefore other hother names List.mem_cons_self
        · exact fun heq => (List.nodup_cons.1 hbehind).1 (heq ▸ hother)
        · simp only [field?_eq, valuesUnder_append_cons, if_pos hk]
          exact atMostOne?_append_cons _ _ v v'
      · exact .inl ⟨rfl, rfl⟩
  | @item before after v v' hplace hR =>
      have hfirst : before.length = first.length := by
        refine (List.getElem?_inj (List.getElem?_eq_some_iff.1 hplace).1 hnodup).1 ?_
        rw [hplace, List.getElem?_append_right (Nat.le_refl _), Nat.sub_self]
        rfl
      have hsame : (before ++ v' :: after).length = (before ++ v :: after).length := by simp
      rw [fields?, fields?, hsame]
      split
      next hlength =>
        generalize hmissing : (first ++ names :: last).length - (before ++ v :: after).length = missing
        refine .inr ⟨before.map some, after.map some ++ List.replicate missing none, v, v', ?_, ?_, hR,
          ?_, ?_⟩
        · rw [List.length_map, hfirst]
        · simp only [List.length_append, List.length_cons, List.length_map,
            List.length_replicate] at hlength hmissing ⊢
          omega
        · rw [List.map_append, List.map_cons, List.append_assoc, List.cons_append]
        · rw [List.map_append, List.map_cons, List.append_assoc, List.cons_append]
      next => exact .inl ⟨rfl, rfl⟩

end Json

open ImportSync.Json

/-! ### Records of an options file -/

theorem DialectOptions.ofJson?_eq_of_relaid {j j' : Json} (h : Relaid keys j j') :
    ofJson? j = ofJson? j' :=
  h.bind_fields?_eq ⟨by decide, by decide⟩ _

theorem FilterSection.ofJson?_eq_of_relaid {j j' : Json} (h : Relaid keys j j') :
    ofJson? j = ofJson? j' :=
  h.bind_fields?_eq ⟨by decide, by decide⟩ _

theorem CustomRule.ofJson?_eq_of_relaid {j j' : Json} (h : Relaid keys j j') :
    ofJson? j = ofJson? j' :=
  h.bind_fields?_eq ⟨by decide, by decide⟩ _

/-- A record is not null in either layout. -/
theorem optional?_eq_of_relaid {α : Type} {keys : List (List Text)} {value : Json → Option α} {j j' : Json}
    (h : Relaid keys j j') (hvalue : value j = value j') : optional? value j = optional? value j' := by
  cases h <;> exact congrArg (Option.map some) hvalue

theorem listOf?_eq_of_atItem {α : Type} {R : Json → Json → Prop} {item : Json → Option α} {j j' : Json}
    (h : AtItem R j j') (hitem : ∀ v v', R v v' → item v = item v') :
    listOf? item j = listOf? item j' := by
  obtain ⟨before, after, hR⟩ := h
  rw [listOf?, listOf?, List.mapM_append, List.mapM_append, List.mapM_cons, List.mapM_cons,
    hitem _ _ hR]

namespace OptionsFile

/-- A step between two layouts of an options file: of the options, or of a record within them. -/
inductive Relaid : Json → Json → Prop where
  | options {j j' : Json} (h : Json.Relaid keys j j') : Relaid j j'
  | dialect {j j' : Json}
      (h : AtField keys ["parser".toList, "babel".toList] (Json.Relaid DialectOptions.keys) j j') :
      Relaid j j'
  | filter {j j' : Json} (h : AtField keys ["filter".toList] (Json.Relaid FilterSection.keys) j j') :
      Relaid j j'
  | rule {j j' : Json}
      (h : AtField keys ["fileExtensionsCustom".toList] (AtItem (Json.Relaid CustomRule.keys)) j j') :
      Relaid j j'

theorem distinct_keys : Distinct keys := ⟨by decide, by decide⟩

theorem Relaid.ofJson?_eq {j j' : Json} (h : Relaid j j') : ofJson? j = ofJson? j' := by
  cases h with
  | options h => exact h.bind_fields?_eq distinct_keys _
  | dialect h =>
      have hdiffer : DifferAt 4 6 _ (j.fields? keys) (j'.fields? keys) :=
        @AtField.differAt _ (keys.take 4) (keys.drop 5) _ _ _ distinct_keys h
      refine hdiffer.bind_eq fun before after v v' hbefore hafter hR => ?_
      have hvalue := DialectOptions.ofJson?_eq_of_relaid hR
      match before, after with
      | [_, _, _, _], [_, _, _, _, _, _] =>
          simp only [List.cons_append, List.nil_append, orDefault, hvalue]
  | filter h =>
      have hdiffer : DifferAt 7 3 _ (j.fields? keys) (j'.fields? keys) :=
        @AtField.differAt _ (keys.take 7) (keys.drop 8) _ _ _ distinct_keys h
      refine hdiffer.bind_eq fun before after v v' hbefore hafter hR => ?_
      have hvalue := optional?_eq_of_relaid hR (FilterSection.ofJson?_eq_of_relaid hR)
      match before, after with
      | [_, _, _, _, _, _, _], [_, _, _] =>
          simp only [List.cons_append, List.nil_append, orDefault, hvalue]
  | rule h =>
      have hdiffer : DifferAt 8 2 _ (j.fields? keys) (j'.fields? keys) :=
        @AtField.differAt _ (keys.take 8) (keys.drop 9) _ _ _ distinct_keys h
      refine hdiffer.bind_eq fun before after v v' hbefore hafter hR => ?_
      have hvalue := listOf?_eq_of_atItem hR fun _ _ => CustomRule.ofJson?_eq_of_relaid
      match before, after with
      | [_, _, _, _, _, _, _, _], [_, _] =>
          simp only [List.cons_append, List.nil_append, orDefault, hvalue]

end OptionsFile

/-! ### Main statement -/

/-- Two JSON values that are led into one another by steps between layouts, in either direction and as many
as it takes, are both rejected or give the same options. So two sites whose options files stand for these
values read the same options, or reject the same path. -/
theorem options_read_by_content {j j' : Json} (h : Relation.EqvGen OptionsFile.Relaid j j') :
    OptionsFile.ofJson? j = OptionsFile.ofJson? j' ∧
    ∀ (t t' : FileTree) (p : Text), (t.readText? p).bind Json.parse? = some j →
      (t'.readText? p).bind Json.parse? = some j' → OptionsFile.read t p = OptionsFile.read t' p := by
  have hsame : OptionsFile.ofJson? j = OptionsFile.ofJson? j' := by
    induction h with
    | rel j j' hstep => exact hstep.ofJson?_eq
    | refl j => rfl
    | symm j j' _ ih => exact ih.symm
    | trans j j' j'' _ _ ih ih' => exact ih.trans ih'
  refine ⟨hsame, fun t t' p hread hread' => ?_⟩
  obtain ⟨content, hcontent, hparse⟩ := Option.bind_eq_some_iff.1 hread
  obtain ⟨content', hcontent', hparse'⟩ := Option.bind_eq_some_iff.1 hread'
  simp only [OptionsFile.read, hcontent, hcontent', hparse, hparse', Option.bind_some, hsame]

/-- A site whose options file holds the given text. -/
def siteWith (content : String) : FileTree where
  workingDir := ["site".toList]
  entries := [
    (["site".toList], .dir),
    (["site".toList, "sync.json".toList], .file (Utf8.encode content.toList))]

/-- Options with a note, under the older key of the dialect, which is an array. -/
def notedOptions : Json :=
  .object [
    (some "babel".toList, .array [.bool false]),
    (some "note".toList, .number),
    (some "import".toList, .array [.string (some "./lib".toList)])]

/-- The same options in their order, without the note. -/
def orderedOptions : Json :=
  .object [
    (some "import".toList, .array [.string (some "./lib".toList)]),
    (some "parser".toList, .object [(some "jsx".toList, .bool false)])]

theorem options_read_by_content_notedOptions :
    OptionsFile.ofJson? notedOptions = OptionsFile.ofJson? orderedOptions ∧
    OptionsFile.ofJson? orderedOptions =
      some { importRoots := some ["./lib".toList], dialect := { markup := false } } ∧
    OptionsFile.read (siteWith "\x7b\"babel\":[false],\"note\":1,\"import\":[\"./lib\"]\x7d")
        "sync.json".toList =
      OptionsFile.read (siteWith "\x7b\"import\":[\"./lib\"],\"parser\":\x7b\"jsx\":false\x7d\x7d")
        "sync.json".toList := by
  have hsteps : Relation.EqvGen OptionsFile.Relaid notedOptions orderedOptions := by
    refine .trans _ _ _ (.rel _ _ (.options (.unknown [_] [_] .number (by decide)))) ?_
    refine .trans _ _ _ (.rel _ _ (.options (.reorder (.swap _ _ _)))) ?_
    refine .trans _ _ _ (.rel _ _ (.options (@Json.Relaid.rename _ [_] []
      ["parser".toList, "babel".toList] "babel".toList "parser".toList _ (by decide) (by decide)
      (by decide)))) ?_
    exact .rel _ _ (.dialect (.entry [_] [] (by decide) (.positional (by decide))))
  obtain ⟨hsame, hread⟩ := options_read_by_content hsteps
  exact ⟨hsame, by decide +kernel, hread _ _ _ rfl rfl⟩

end ImportSync

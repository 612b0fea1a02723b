/-
This file is about the canonical text of a manifest, which its approval is bound to: the
same whatever the order of the names in its objects.

It is the text of the value with its names sorted everywhere, so parsing it gives that
value back. Two values have one text just when they are the same, unless there is an
infinite number in one of them: that is written as nothing.
-/

import Geeboard.Text.JsonTexts

namespace Geeboard.Canonical

open List
open Text (Units Json JsonOf code quoted listed stringify parse)

/-! ### The canonical text -/

/-- Entries sorted by their names. -/
def sortedByName {Value : Type} (entries : List (Units × Value)) : List (Units × Value) :=
  entries.mergeSort fun first second => decide (first.1 ≤ second.1)

mutual

/-- The same text whatever the order of the names. -/
def canonicalJson : Json → Units
  | .array items => code '[' :: (listed (canonicalItems items) ++ [code ']'])
  | .object entries =>
    code '{' :: (listed ((sortedByName (canonicalEntries entries)).map fun entry =>
      quoted entry.1 ++ code ':' :: entry.2) ++ [code '}'])
  | .null => stringify .null
  | .bool value => stringify (.bool value)
  | .number number => stringify (.number number)
  | .string text => stringify (.string text)

def canonicalItems : List Json → List Units
  | [] => []
  | item :: items => canonicalJson item :: canonicalItems items

def canonicalEntries : List (Units × Json) → List (Units × Units)
  | [] => []
  | (name, value) :: entries => (name, canonicalJson value) :: canonicalEntries entries

end

/-! ### The same value -/

/-- Two values that are the same up to the order of the names in an object. The two zeros are one
number. -/
inductive Same : Json → Json → Prop
  | null : Same .null .null
  | bool (value : Bool) : Same (.bool value) (.bool value)
  | number {first second : Text.Number} (same : first.unsigned = second.unsigned) :
      Same (.number first) (.number second)
  | string (text : Units) : Same (.string text) (.string text)
  | array {items others : List Json} (length : items.length = others.length)
      (each : ∀ (index : Nat) (here : index < items.length) (there : index < others.length),
        Same items[index] others[index]) :
      Same (.array items) (.array others)
  | object {entries others : List (Units × Json)}
      (names : ∀ name, name ∈ entries.map Prod.fst ↔ name ∈ others.map Prod.fst)
      (each : ∀ name value other, (name, value) ∈ entries → (name, other) ∈ others →
        Same value other) :
      Same (.object entries) (.object others)

/-- A value without an infinite number. -/
inductive AllFinite : Json → Prop
  | null : AllFinite .null
  | bool (value : Bool) : AllFinite (.bool value)
  | number {number : Text.Number} (finite : number.IsFinite) : AllFinite (.number number)
  | string (text : Units) : AllFinite (.string text)
  | array {items : List Json} (each : ∀ item ∈ items, AllFinite item) : AllFinite (.array items)
  | object {entries : List (Units × Json)} (each : ∀ entry ∈ entries, AllFinite entry.2) :
      AllFinite (.object entries)

/-- Two values have one text just when they are the same, which a hash binds when it has no
collision there, and each is parsed back from its text. -/
structure BindsOne (first second : Json) : Prop where
  canonical : canonicalJson first = canonicalJson second ↔ Same first second
  bound : ∀ digest : Units → String,
    (digest (canonicalJson first) = digest (canonicalJson second) →
      canonicalJson first = canonicalJson second) →
    (digest (canonicalJson first) = digest (canonicalJson second) ↔ Same first second)
  firstBack : ∃ again, parse (canonicalJson first) = some again ∧ Same again first
  secondBack : ∃ again, parse (canonicalJson second) = some again ∧ Same again second

/-! ### Names sorted -/

section Sorted

variable {Value Other : Type}

theorem sortedByName_perm (entries : List (Units × Value)) :
    (sortedByName entries).Perm entries := mergeSort_perm _ _

theorem mem_sortedByName {entries : List (Units × Value)} {entry : Units × Value} :
    entry ∈ sortedByName entries ↔ entry ∈ entries := (sortedByName_perm entries).mem_iff

theorem names_sortedByName (entries : List (Units × Value)) :
    ((sortedByName entries).map Prod.fst).Perm (entries.map Prod.fst) :=
  (sortedByName_perm entries).map _

/-- The order looks at the names only. -/
theorem map_sortedByName (change : Value → Other) (entries : List (Units × Value)) :
    (sortedByName entries).map (fun entry => (entry.1, change entry.2)) =
      sortedByName (entries.map fun entry => (entry.1, change entry.2)) :=
  map_mergeSort fun _ _ _ _ => rfl

theorem sorted_sortedByName (entries : List (Units × Value)) :
    (sortedByName entries).Pairwise fun first second => first.1 ≤ second.1 := by
  have sorted : (sortedByName entries).Pairwise
      fun first second => decide (first.1 ≤ second.1) = true := by
    refine pairwise_mergeSort (fun first second third one other => ?_)
      (fun first second => ?_) entries
    · exact decide_eq_true ((of_decide_eq_true one).trans (of_decide_eq_true other))
    · rw [Bool.or_eq_true, decide_eq_true_eq, decide_eq_true_eq]
      exact le_total first.1 second.1
  exact sorted.imp fun {first second} before => of_decide_eq_true before

/-- Entries with each name once have one order. -/
theorem sortedByName_eq {entries others : List (Units × Value)}
    (distinct : (entries.map Prod.fst).Nodup) (same : entries.Perm others) :
    sortedByName entries = sortedByName others := by
  have perm := ((sortedByName_perm entries).trans same).trans (sortedByName_perm others).symm
  have single : ∀ first second, first ∈ sortedByName entries → second ∈ sortedByName others →
      first.1 ≤ second.1 → second.1 ≤ first.1 → first = second := by
    intro first second here there one other
    have firstIn := mem_sortedByName.mp here
    have secondIn := same.mem_iff.mpr (mem_sortedByName.mp there)
    exact inj_on_of_nodup_map distinct firstIn secondIn (le_antisymm one other)
  exact Perm.eq_of_pairwise single (sorted_sortedByName entries)
    (sorted_sortedByName others) perm

end Sorted

mutual

/-- A value with the names of its objects sorted. -/
def sorted : Json → Json
  | .array items => .array (sortedItems items)
  | .object entries => .object (sortedByName (sortedEntries entries))
  | .null => .null
  | .bool value => .bool value
  | .number number => .number number
  | .string text => .string text

def sortedItems : List Json → List Json
  | [] => []
  | item :: items => sorted item :: sortedItems items

def sortedEntries : List (Units × Json) → List (Units × Json)
  | [] => []
  | (name, value) :: entries => (name, sorted value) :: sortedEntries entries

end

theorem canonicalItems_eq (items : List Json) : canonicalItems items = items.map canonicalJson := by
  induction items with
  | nil => rfl
  | cons item items inductionHypothesis =>
    rw [canonicalItems, inductionHypothesis, map_cons]

theorem canonicalEntries_eq (entries : List (Units × Json)) :
    canonicalEntries entries = entries.map fun entry => (entry.1, canonicalJson entry.2) := by
  induction entries with
  | nil => rfl
  | cons entry entries inductionHypothesis =>
    rw [canonicalEntries, inductionHypothesis, map_cons]

theorem sortedItems_eq (items : List Json) : sortedItems items = items.map sorted := by
  induction items with
  | nil => rfl
  | cons item items inductionHypothesis => rw [sortedItems, inductionHypothesis, map_cons]

theorem sortedEntries_eq (entries : List (Units × Json)) :
    sortedEntries entries = entries.map fun entry => (entry.1, sorted entry.2) := by
  induction entries with
  | nil => rfl
  | cons entry entries inductionHypothesis =>
    rw [sortedEntries, inductionHypothesis, map_cons]

/-- The canonical text is the text of the value with its names sorted. -/
theorem canonicalJson_eq (value : Json) : canonicalJson value = stringify (sorted value) := by
  induction value using Json.induct with
  | null => rfl
  | bool value => rfl
  | number number => rfl
  | string text => rfl
  | array items inductionHypothesis =>
    rw [canonicalJson, sorted, stringify, canonicalItems_eq, sortedItems_eq,
      Text.stringifyItems_eq, List.map_map]
    rw [map_congr_left fun item member => inductionHypothesis item member]
    rfl
  | object entries inductionHypothesis =>
    have same : entries.map (fun entry => (entry.1, canonicalJson entry.2)) =
        entries.map fun entry => (entry.1, stringify (sorted entry.2)) :=
      map_congr_left fun entry member => by rw [inductionHypothesis entry member]
    have texts := map_sortedByName stringify (entries.map fun entry => (entry.1, sorted entry.2))
    rw [List.map_map] at texts
    rw [canonicalJson, sorted, stringify, canonicalEntries_eq, sortedEntries_eq, same,
      Text.stringifyEntries_eq]
    rw [show entries.map (fun entry => (entry.1, stringify (sorted entry.2))) =
      entries.map ((fun entry => (entry.1, stringify entry.2)) ∘
        fun entry => (entry.1, sorted entry.2)) from rfl, ← texts, List.map_map]
    rfl

theorem wellFormed_sorted {value : Json} (well : value.WellFormed) : (sorted value).WellFormed := by
  induction value using Json.induct with
  | null => exact well
  | bool value => exact well
  | number number => exact well
  | string text => exact well
  | array items inductionHypothesis =>
    cases well with
    | array each =>
      rw [sorted, sortedItems_eq]
      refine .array fun item member => ?_
      obtain ⟨inner, inside, rfl⟩ := List.mem_map.mp member
      exact inductionHypothesis inner inside (each inner inside)
  | object entries inductionHypothesis =>
    cases well with
    | object distinct each =>
      rw [sorted, sortedEntries_eq]
      refine .object ?_ fun entry member => ?_
      · rw [(names_sortedByName _).nodup_iff, List.map_map]
        exact distinct
      · obtain ⟨inner, inside, rfl⟩ := List.mem_map.mp (mem_sortedByName.mp member)
        exact inductionHypothesis inner inside (each inner inside)

/-- What is parsed from the canonical text of a value. -/
def normal (value : Json) : Json := (sorted value).plain

theorem parse_canonicalJson {value : Json} (well : value.WellFormed) :
    parse (canonicalJson value) = some (normal value) := by
  rw [canonicalJson_eq]
  exact Text.parse_stringify (wellFormed_sorted well)

/-! ### What is parsed back -/

theorem normal_number {number : Text.Number} (finite : number.IsFinite) :
    normal (.number number) = .number number.unsigned := by
  cases number with
  | infinite negative => exact absurd finite id
  | finite value => rfl
  | minusZero => rfl

theorem normal_array (items : List Json) : normal (.array items) = .array (items.map normal) := by
  unfold normal
  rw [sorted, Json.plain, sortedItems_eq, Text.plainItems_eq, List.map_map]
  rfl

theorem normal_object (entries : List (Units × Json)) :
    normal (.object entries) =
      .object (sortedByName (entries.map fun entry => (entry.1, normal entry.2))) := by
  unfold normal
  rw [sorted, Json.plain, sortedEntries_eq, Text.plainEntries_eq, map_sortedByName, List.map_map]
  rfl

/-- The value of a name that stands once in an object. -/
theorem eq_of_name {Value : Type} {entries : List (Units × Value)}
    (distinct : (entries.map Prod.fst).Nodup) {name : Units} {value other : Value}
    (here : (name, value) ∈ entries) (there : (name, other) ∈ entries) : value = other :=
  (Prod.mk.inj (inj_on_of_nodup_map distinct here there rfl)).2

/-- What is parsed back is the same just when no number in the value is infinite. -/
theorem same_normal_iff {value : Json} (well : value.WellFormed) :
    Same (normal value) value ↔ AllFinite value := by
  induction value using Json.induct with
  | null => exact iff_of_true .null .null
  | bool value => exact iff_of_true (.bool value) (.bool value)
  | string text => exact iff_of_true (.string text) (.string text)
  | number number =>
    cases number with
    | finite value => exact iff_of_true (.number rfl) (.number trivial)
    | minusZero => exact iff_of_true (.number rfl) (.number trivial)
    | infinite negative =>
      refine iff_of_false (fun same => ?_) (fun all_ => ?_)
      · have nothing : normal (.number (.infinite negative)) = .null := rfl
        rw [nothing] at same
        cases same
      · cases all_ with
        | number finite => exact finite
  | array items inductionHypothesis =>
    cases well with
    | array each =>
      rw [normal_array]
      constructor
      · intro same
        cases same with
        | array length parts =>
          refine .array fun item member => ?_
          obtain ⟨index, bound, rfl⟩ := getElem_of_mem member
          have part := parts index (by rwa [length_map]) bound
          rw [getElem_map] at part
          exact (inductionHypothesis _ member (each _ member)).mp part
      · intro all_
        cases all_ with
        | array finite =>
          refine .array (length_map _) fun index here there => ?_
          rw [getElem_map]
          have member := getElem_mem there
          exact (inductionHypothesis _ member (each _ member)).mpr (finite _ member)
  | object entries inductionHypothesis =>
    cases well with
    | object distinct each =>
      rw [normal_object]
      constructor
      · intro same
        cases same with
        | object names parts =>
          refine .object fun entry member => ?_
          have made : (entry.1, normal entry.2) ∈
              sortedByName (entries.map fun entry => (entry.1, normal entry.2)) :=
            mem_sortedByName.mpr (List.mem_map.mpr ⟨entry, member, rfl⟩)
          exact (inductionHypothesis entry member (each entry member)).mp
            (parts entry.1 _ _ made member)
      · intro all_
        cases all_ with
        | object finite =>
          refine .object (fun name => ?_) fun name value other here there => ?_
          · rw [(names_sortedByName _).mem_iff, List.map_map]
            exact Iff.rfl
          · obtain ⟨entry, member, same⟩ := List.mem_map.mp (mem_sortedByName.mp here)
            obtain ⟨rfl, rfl⟩ := Prod.mk.inj same
            have is : entry.2 = other := eq_of_name distinct member there
            rw [← is]
            exact (inductionHypothesis entry member (each entry member)).mpr
              (finite entry member)

/-- Entries of the same names with each once, and with values that are made into the same, are made
into the same entries. -/
theorem perm_of_names {Value Made : Type} (make : Value → Made)
    {entries others : List (Units × Value)} (distinct : (entries.map Prod.fst).Nodup)
    (alsoDistinct : (others.map Prod.fst).Nodup)
    (names : ∀ name, name ∈ entries.map Prod.fst ↔ name ∈ others.map Prod.fst)
    (same : ∀ name value other, (name, value) ∈ entries → (name, other) ∈ others →
      make value = make other) :
    (entries.map fun entry => (entry.1, make entry.2)).Perm
      (others.map fun entry => (entry.1, make entry.2)) := by
  have once : ∀ {list : List (Units × Value)}, (list.map Prod.fst).Nodup →
      (list.map fun entry => (entry.1, make entry.2)).Nodup := by
    intro list names
    refine Nodup.of_map Prod.fst ?_
    rw [List.map_map]
    exact names
  refine (perm_ext_iff_of_nodup (once distinct) (once alsoDistinct)).mpr fun made => ?_
  constructor
  · intro member
    obtain ⟨entry, here, rfl⟩ := List.mem_map.mp member
    obtain ⟨other, there, named⟩ := List.mem_map.mp
      ((names entry.1).mp (List.mem_map_of_mem here))
    refine List.mem_map.mpr ⟨other, there, ?_⟩
    rw [named, same entry.1 entry.2 other.2 here (named ▸ there)]
  · intro member
    obtain ⟨other, there, rfl⟩ := List.mem_map.mp member
    obtain ⟨entry, here, named⟩ := List.mem_map.mp
      ((names other.1).mpr (List.mem_map_of_mem there))
    refine List.mem_map.mpr ⟨entry, here, ?_⟩
    rw [named, same other.1 entry.2 other.2 (named ▸ here) there]

/-- Values that are the same have one text. -/
theorem canonicalJson_of_same {first second : Json} (one : first.WellFormed)
    (other : second.WellFormed) (same : Same first second) :
    canonicalJson first = canonicalJson second := by
  induction first using Json.induct generalizing second with
  | null =>
    cases same
    rfl
  | bool value =>
    cases same
    rfl
  | string text =>
    cases same
    rfl
  | number number =>
    cases same with
    | @number _ also_ equal =>
      cases number with
      | finite value =>
        cases also_ with
        | finite more =>
          cases equal
          rfl
        | minusZero =>
          cases equal
          rfl
        | infinite negative => cases equal
      | minusZero =>
        cases also_ with
        | finite more =>
          cases equal
          rfl
        | minusZero => rfl
        | infinite negative => cases equal
      | infinite negative =>
        cases also_ with
        | finite more => cases equal
        | minusZero => cases equal
        | infinite negative =>
          cases equal
          rfl
  | array items inductionHypothesis =>
    cases one with
    | array each =>
      cases same with
      | @array _ others length parts =>
        cases other with
        | array alsoEach =>
          have texts : items.map canonicalJson = others.map canonicalJson := by
            refine ext_getElem (by rwa [length_map, length_map]) ?_
            intro index here there
            rw [getElem_map, getElem_map]
            rw [length_map] at here there
            exact inductionHypothesis _ (getElem_mem here) (each _ (getElem_mem here))
              (alsoEach _ (getElem_mem there)) (parts index here there)
          rw [canonicalJson, canonicalJson, canonicalItems_eq, canonicalItems_eq, texts]
  | object entries inductionHypothesis =>
    cases one with
    | object distinct each =>
      cases same with
      | @object _ others names parts =>
        cases other with
        | object alsoDistinct alsoEach =>
          have text : ∀ name value other, (name, value) ∈ entries → (name, other) ∈ others →
              canonicalJson value = canonicalJson other := by
            intro name value other here there
            exact inductionHypothesis _ here (each _ here) (alsoEach _ there)
              (parts name value other here there)
          have once : ((entries.map fun entry => (entry.1, canonicalJson entry.2)).map
              Prod.fst).Nodup := by
            rw [List.map_map]
            exact distinct
          rw [canonicalJson, canonicalJson, canonicalEntries_eq, canonicalEntries_eq,
            sortedByName_eq once (perm_of_names canonicalJson distinct alsoDistinct names text)]

/-- Values from whose texts one value is parsed are the same. -/
theorem same_of_normal_eq {first second : Json} (one : first.WellFormed)
    (other : second.WellFormed) (finite : AllFinite first) (alsoFinite : AllFinite second)
    (equal : normal first = normal second) : Same first second := by
  have number_ : ∀ {number : Text.Number}, AllFinite (.number number) →
      normal (.number number) = .number number.unsigned := by
    intro number all_
    cases all_ with
    | number finite => exact normal_number finite
  induction first using Json.induct generalizing second with
  | null =>
    cases second with
    | null => exact .null
    | number number =>
      rw [number_ alsoFinite] at equal
      cases equal
    | bool value => cases equal
    | string text => cases equal
    | array items => cases equal
    | object entries => cases equal
  | bool value =>
    cases second with
    | bool value =>
      cases equal
      exact .bool _
    | number number =>
      rw [number_ alsoFinite] at equal
      cases equal
    | null => cases equal
    | string text => cases equal
    | array items => cases equal
    | object entries => cases equal
  | string text =>
    cases second with
    | string text =>
      cases equal
      exact .string _
    | number number =>
      rw [number_ alsoFinite] at equal
      cases equal
    | null => cases equal
    | bool value => cases equal
    | array items => cases equal
    | object entries => cases equal
  | number number =>
    rw [number_ finite] at equal
    cases second with
    | number also_ =>
      rw [number_ alsoFinite] at equal
      exact .number (JsonOf.number.inj equal)
    | null => cases equal
    | bool value => cases equal
    | string text => cases equal
    | array items => cases equal
    | object entries => cases equal
  | array items inductionHypothesis =>
    rw [normal_array] at equal
    cases second with
    | array others =>
      rw [normal_array] at equal
      have parts := JsonOf.array.inj equal
      have length : items.length = others.length := by
        have lengths := congrArg List.length parts
        rwa [length_map, length_map] at lengths
      cases one with
      | array each =>
        cases other with
        | array alsoEach =>
          cases finite with
          | array finite =>
            cases alsoFinite with
            | array alsoFinite =>
              refine .array length fun index here there => ?_
              have part := getElem_of_eq parts (by rwa [length_map] : index < _)
              rw [getElem_map, getElem_map] at part
              have inFirst := getElem_mem here
              have inSecond := getElem_mem there
              exact inductionHypothesis _ inFirst (each _ inFirst) (alsoEach _ inSecond)
                (finite _ inFirst) (alsoFinite _ inSecond) part
    | number number =>
      rw [number_ alsoFinite] at equal
      cases equal
    | null => cases equal
    | bool value => cases equal
    | string text => cases equal
    | object entries => cases equal
  | object entries inductionHypothesis =>
    rw [normal_object] at equal
    cases second with
    | object others =>
      rw [normal_object] at equal
      have parts := JsonOf.object.inj equal
      have perm := ((sortedByName_perm _).symm.trans (Perm.of_eq parts)).trans
        (sortedByName_perm _)
      cases one with
      | object distinct each =>
        cases other with
        | object alsoDistinct alsoEach =>
          cases finite with
          | object finite =>
            cases alsoFinite with
            | object alsoFinite =>
              refine .object (fun name => ?_) fun name value other here there => ?_
              · have names := (perm.map Prod.fst).mem_iff (a := name)
                rw [List.map_map, List.map_map] at names
                exact names
              · have made : (name, normal value) ∈
                    others.map fun entry => (entry.1, normal entry.2) :=
                  perm.mem_iff.mp (List.mem_map.mpr ⟨_, here, rfl⟩)
                obtain ⟨entry, member, same⟩ := List.mem_map.mp made
                obtain ⟨rfl, values⟩ := Prod.mk.inj same
                have is : entry.2 = other := eq_of_name alsoDistinct member there
                rw [is] at values
                exact inductionHypothesis _ here (each _ here) (alsoEach _ there)
                  (finite _ here) (alsoFinite _ there) values.symm
    | number number =>
      rw [number_ alsoFinite] at equal
      cases equal
    | null => cases equal
    | bool value => cases equal
    | string text => cases equal
    | array items => cases equal

/-! ### What is bound -/

/-- Two values that are parsed are bound by their texts just when none of their numbers is
infinite. -/
theorem bindsOne_iff {firstText secondText : Units} {first second : Json}
    (one : parse firstText = some first) (other : parse secondText = some second) :
    BindsOne first second ↔ AllFinite first ∧ AllFinite second := by
  have wellFirst := Text.wellFormed_parse one
  have wellSecond := Text.wellFormed_parse other
  have back : ∀ {value : Json}, value.WellFormed →
      ((∃ again, parse (canonicalJson value) = some again ∧ Same again value) ↔
        AllFinite value) := by
    intro value well
    rw [parse_canonicalJson well, ← same_normal_iff well]
    constructor
    · rintro ⟨again, made, same⟩
      exact Option.some.inj made ▸ same
    · exact fun same => ⟨_, rfl, same⟩
  constructor
  · intro binds
    exact ⟨(back wellFirst).mp binds.firstBack, (back wellSecond).mp binds.secondBack⟩
  · rintro ⟨finite, alsoFinite⟩
    have same : canonicalJson first = canonicalJson second ↔ Same first second := by
      constructor
      · intro equal
        have parsed := parse_canonicalJson wellFirst
        rw [equal, parse_canonicalJson wellSecond] at parsed
        exact same_of_normal_eq wellFirst wellSecond finite alsoFinite
          (Option.some.inj parsed).symm
      · exact canonicalJson_of_same wellFirst wellSecond
    refine ⟨same, fun digest single => ?_, (back wellFirst).mpr finite,
      (back wellSecond).mpr alsoFinite⟩
    exact ⟨fun hash => same.mp (single hash), fun is => congrArg digest (same.mpr is)⟩

/-- An object of two names, in one order and in the other. -/
def namedOnce : Json :=
  .object [(Text.codes ['b'], .null), (Text.codes ['a'], .array [.bool true])]

def namedAgain : Json :=
  .object [(Text.codes ['a'], .array [.bool true]), (Text.codes ['b'], .null)]

theorem wellFormed_named : namedOnce.WellFormed ∧ namedAgain.WellFormed := by
  have trues : Json.WellFormed (.array [.bool true]) :=
    .array (forall_mem_singleton.mpr (.bool true))
  have first : ∀ entry ∈ [(Text.codes ['b'], JsonOf.null), (Text.codes ['a'], .array [.bool true])],
      Json.WellFormed entry.2 :=
    forall_mem_cons.mpr ⟨.null, forall_mem_singleton.mpr trues⟩
  have second : ∀ entry ∈ [(Text.codes ['a'], JsonOf.array [.bool true]), (Text.codes ['b'], .null)],
      Json.WellFormed entry.2 :=
    forall_mem_cons.mpr ⟨trues, forall_mem_singleton.mpr .null⟩
  exact ⟨.object (by decide) first, .object (by decide) second⟩

theorem bindsOne_iff_named :
    BindsOne namedOnce namedAgain ↔ AllFinite namedOnce ∧ AllFinite namedAgain :=
  bindsOne_iff (Text.parse_stringify wellFormed_named.1) (Text.parse_stringify wellFormed_named.2)

/-- The text of a number that no number is near. -/
def tooLarge : List Char := ['1', 'e', '4', '0', '0']

theorem parse_tooLarge : parse (Text.codes tooLarge) = some (.number (.infinite false)) := by
  have power : Text.exponent ['e', '4', '0', '0'] = some 400 := by decide
  have magnitude : Text.magnitudeOf tooLarge = some (((1 : ℕ) : ℚ) * 10 ^ ((400 : ℤ) - (0 : ℕ))) :=
    Text.magnitudeOf_digits ['1'] ['e', '4', '0', '0'] (by decide) (by decide) (Or.inl rfl)
      (Text.no_digit_cons rfl _) rfl power
  have large : (2 : ℚ) ^ 1024 ≤ ((1 : ℕ) : ℚ) * 10 ^ ((400 : ℤ) - (0 : ℕ)) := by
    have powers : (2 : ℚ) ^ 1024 ≤ 10 ^ 400 :=
      calc (2 : ℚ) ^ 1024 = (2 ^ 128) ^ 8 := by rw [← pow_mul]
        _ ≤ (10 ^ 50) ^ 8 := pow_le_pow_left₀ (by norm_num) (by norm_num) 8
        _ = 10 ^ 400 := by rw [← pow_mul]
    rw [Nat.cast_one, one_mul, Nat.cast_zero, sub_zero, show (400 : ℤ) = ((400 : ℕ) : ℤ) from rfl,
      zpow_natCast]
    exact powers
  have number : Text.readNumber tooLarge = some (.infinite false) := by
    rw [Text.readNumber_of_magnitudeOf magnitude]
    unfold Text.signed
    rw [Text.roundDouble_of_large large]
  have token : ((Text.codes tooLarge).takeWhile Text.isNumberUnit).map Text.charOf =
      tooLarge := by decide
  have parsed : Text.parseValue 12 (Text.codes tooLarge) =
      some (.number (.infinite false), []) := by
    show Text.parseNumber (Text.codes tooLarge) = _
    unfold Text.parseNumber
    rw [token, number]
    rfl
  show (Text.parseValue 12 (Text.codes tooLarge)).bind _ = _
  rw [parsed, Option.bind_some]
  exact if_pos rfl

/-- A number that is too large and nothing at all have one text. -/
theorem infinite_written_as_null :
    ∃ first second : Json, parse (Text.codes tooLarge) = some first ∧
      parse (Text.codes "null".toList) = some second ∧
      canonicalJson first = canonicalJson second ∧ ¬Same first second := by
  refine ⟨.number (.infinite false), .null, parse_tooLarge, rfl, rfl, ?_⟩
  intro same
  cases same

end Geeboard.Canonical

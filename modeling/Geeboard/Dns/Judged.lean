/-
This file is about what the panel makes of a spelling of an IPv6 address.

The panel judges the text: by the letters it begins with, by two texts that it knows,
and by a beginning that marks a mapped address. The addresses for which that is a
judgement of the address, whichever way it is spelled, are named here, and the others
have two spellings that are judged differently. To compare two addresses the language's
own spelling is used, which is one for each.
-/

import Geeboard.Dns.Spellings

namespace Geeboard.Dns

open List Option
open Text (separated atDouble IsPiece trimmed isSpace)

/-! ### What is asked -/

/-- An address however it is spelled: it is judged the same and compared in the same form, in
which no other address is compared. -/
structure JudgedByWhatItIs (spell : String → Option String) (address : Address) : Prop where
  judged : ∀ first second : Spelling address,
    isPublicAddress first.text = isPublicAddress second.text
  compared : ∀ first second : Spelling address,
    canonicalAddress spell first.text = canonicalAddress spell second.text
  apart : ∀ (other : Address) (first : Spelling address) (second : Spelling other),
    other ≠ address → canonicalAddress spell first.text ≠ canonicalAddress spell second.text

/-! ### Which addresses are judged by what they are -/

/-- A first number whose every text begins as a private address does. -/
def IsPrivate (group : Nat) : Prop :=
  (0xfc00 ≤ group ∧ group ≤ 0xfdff) ∨ (0xfe80 ≤ group ∧ group ≤ 0xfebf)

/-- A first number whose shortest text begins as a private address does, and whose longest one
does not. -/
def LooksPrivate (group : Nat) : Prop :=
  group = 0xfc ∨ group = 0xfd ∨ (0xfc0 ≤ group ∧ group ≤ 0xfdf) ∨
    (0xfe8 ≤ group ∧ group ≤ 0xfeb)

/-- The addresses with one judgement. Neither the unspecified nor the loopback address, nor one
whose first number can be written as a private one although it is none; and where zeros are
followed by `ffff`, what comes behind is nothing, or at least two numbers of which the first
cannot be written as a private one. -/
structure HasOneJudgement (groups : List Nat) : Prop where
  specified : groups ≠ List.replicate 8 0
  loopback : groups ≠ List.replicate 7 0 ++ [1]
  first : ∀ group rest, groups = group :: rest → ¬LooksPrivate group
  mapped : ∀ zeros more, 2 ≤ zeros → groups = List.replicate zeros 0 ++ 0xffff :: more →
    more = [] ∨ ∃ next third rest, more = next :: third :: rest ∧
      ¬IsPrivate next ∧ ¬LooksPrivate next

/-! ### The letters of the private addresses -/

/-- Whether a text in lower case begins as that of a private address. -/
def startsPrivate : List Char → Bool
  | 'f' :: 'c' :: _ => true
  | 'f' :: 'd' :: _ => true
  | 'f' :: 'e' :: third :: _ => ['8', '9', 'a', 'b'].contains third
  | _ => false

/-- The numbers whose text of a length begins as that of a private address. -/
def PrivateAt (length group : Nat) : Prop :=
  (length = 2 ∧ (group = 0xfc ∨ group = 0xfd)) ∨
    (length = 3 ∧ ((0xfc0 ≤ group ∧ group ≤ 0xfdf) ∨ (0xfe8 ≤ group ∧ group ≤ 0xfeb))) ∨
    (length = 4 ∧ IsPrivate group)

theorem startsPrivate_iff (first second : Char) (tail : List Char) :
    startsPrivate (first :: second :: tail) = true ↔
      first = 'f' ∧ (second = 'c' ∨ second = 'd' ∨
        (second = 'e' ∧ ∃ third ∈ tail.head?, third ∈ ['8', '9', 'a', 'b'])) := by
  constructor
  · intro starts
    unfold startsPrivate at starts
    split at starts
    · next same =>
      cases same
      exact ⟨rfl, Or.inl rfl⟩
    · next same =>
      cases same
      exact ⟨rfl, Or.inr (Or.inl rfl)⟩
    · next third rest same =>
      cases same
      exact ⟨rfl, Or.inr (Or.inr ⟨rfl, third, rfl, contains_iff_mem.mp starts⟩)⟩
    · cases starts
  · rintro ⟨rfl, rfl | rfl | ⟨rfl, third, head, inside⟩⟩
    · rfl
    · rfl
    · cases tail with
      | nil => cases head
      | cons other tail =>
        cases head
        exact contains_iff_mem.mpr inside

/-- What the two first digits of a text make of it, with what comes third. -/
theorem startsPrivate_digits {first second : Nat} (one : first < 16) (other : second < 16)
    (tail : List Char) :
    startsPrivate (Nat.digitChar first :: Nat.digitChar second :: tail) = true ↔
      first = 15 ∧ (second = 12 ∨ second = 13 ∨
        (second = 14 ∧ ∃ third ∈ tail.head?, third ∈ ['8', '9', 'a', 'b'])) := by
  have f : Nat.digitChar first = 'f' ↔ first = 15 := digitChar_inj one (by decide : 15 < 16)
  have c : Nat.digitChar second = 'c' ↔ second = 12 := digitChar_inj other (by decide : 12 < 16)
  have d : Nat.digitChar second = 'd' ↔ second = 13 := digitChar_inj other (by decide : 13 < 16)
  have e : Nat.digitChar second = 'e' ↔ second = 14 := digitChar_inj other (by decide : 14 < 16)
  rw [startsPrivate_iff, f, c, d, e]

theorem digitChar_mem_third {digit : Nat} (small : digit < 16) :
    Nat.digitChar digit ∈ ['8', '9', 'a', 'b'] ↔ 8 ≤ digit ∧ digit ≤ 11 := by
  have each : ∀ digit < 16,
      (Nat.digitChar digit ∈ ['8', '9', 'a', 'b'] ↔ 8 ≤ digit ∧ digit ≤ 11) := by
    decide
  exact each digit small

variable {text : List Char} {group : Nat}

/-- A number's text begins as that of a private address by its length and the number. -/
theorem startsPrivate_group {tail : List Char} (spells : SpellsGroup text group)
    (ends : tail = [] ∨ ∃ more, tail = ':' :: more) :
    startsPrivate (text.map Char.toLower ++ tail) = true ↔ PrivateAt text.length group := by
  obtain ⟨is, rfl⟩ := spells
  unfold isGroup at is
  rw [Bool.and_eq_true, Bool.and_eq_true, decide_eq_true_eq, decide_eq_true_eq,
    List.all_eq_true] at is
  obtain ⟨⟨some_, most⟩, digits⟩ := is
  have nothing : ¬∃ third ∈ tail.head?, third ∈ ['8', '9', 'a', 'b'] := by
    rintro ⟨third, head, inside⟩
    rcases ends with rfl | ⟨more, rfl⟩
    · cases head
    · cases head
      exact absurd inside (by decide)
  unfold PrivateAt IsPrivate
  match text, some_, most, digits with
  | [a], _, _, digits =>
    have first := isDigitOf_hexDigit (digits a (by simp))
    have none_ : startsPrivate ([a].map Char.toLower ++ tail) = false := by
      rw [Bool.eq_false_iff]
      rcases ends with rfl | ⟨more, rfl⟩
      · rw [append_nil, map_singleton]
        generalize a.toLower = lower
        intro starts
        unfold startsPrivate at starts
        split at starts
        · next same => cases same
        · next same => cases same
        · next same => cases same
        · cases starts
      · show ¬startsPrivate (a.toLower :: ':' :: more) = true
        rw [startsPrivate_iff]
        rintro ⟨-, same | same | ⟨same, -⟩⟩
        all_goals exact absurd same (by decide)
    rw [none_, length_singleton]
    refine iff_of_false Bool.false_ne_true ?_
    omega
  | [a, b], _, _, digits =>
    have first := isDigitOf_hexDigit (digits a (by simp))
    have second := isDigitOf_hexDigit (digits b (by simp))
    show startsPrivate (a.toLower :: b.toLower :: tail) = true ↔ _
    rw [first.lower, second.lower, startsPrivate_digits first.small second.small]
    have value : hexValue [a, b] = 16 * (16 * 0 + hexDigit a) + hexDigit b := rfl
    have one := first.small
    have two := second.small
    rw [value]
    simp only [nothing, and_false, or_false, length_cons, length_nil, true_and]
    constructor
    · intro written
      omega
    · intro at_
      omega
  | [a, b, c], _, _, digits =>
    have first := isDigitOf_hexDigit (digits a (by simp))
    have second := isDigitOf_hexDigit (digits b (by simp))
    have third := isDigitOf_hexDigit (digits c (by simp))
    show startsPrivate (a.toLower :: b.toLower :: c.toLower :: tail) = true ↔ _
    rw [first.lower, second.lower, third.lower, startsPrivate_digits first.small second.small]
    have value : hexValue [a, b, c] =
      16 * (16 * (16 * 0 + hexDigit a) + hexDigit b) + hexDigit c := rfl
    have one := first.small
    have two := second.small
    have three := third.small
    rw [value]
    simp only [head?_cons, mem_some_iff, exists_eq_left', digitChar_mem_third three,
      length_cons, length_nil, true_and]
    constructor
    · intro written
      omega
    · intro at_
      omega
  | [a, b, c, d], _, _, digits =>
    have first := isDigitOf_hexDigit (digits a (by simp))
    have second := isDigitOf_hexDigit (digits b (by simp))
    have third := isDigitOf_hexDigit (digits c (by simp))
    have fourth := isDigitOf_hexDigit (digits d (by simp))
    show startsPrivate (a.toLower :: b.toLower :: c.toLower :: d.toLower :: tail) = true ↔ _
    rw [first.lower, second.lower, third.lower, startsPrivate_digits first.small second.small]
    have value : hexValue [a, b, c, d] =
      16 * (16 * (16 * (16 * 0 + hexDigit a) + hexDigit b) + hexDigit c) + hexDigit d := rfl
    have one := first.small
    have two := second.small
    have three := third.small
    have four := fourth.small
    rw [value]
    simp only [head?_cons, mem_some_iff, exists_eq_left', digitChar_mem_third three,
      length_cons, length_nil, true_and]
    constructor
    · intro written
      omega
    · intro at_
      omega

/-! ### The family of a spelling -/

/-- The characters of a spelling. -/
def IsAddressText (text : List Char) : Prop := ∀ char ∈ text, isHexDigit char = true ∨ char = ':'

theorem isAddressText_separated {texts : List (List Char)}
    (is : ∀ text ∈ texts, isGroup text = true) : IsAddressText (separated ':' texts) := by
  intro char member
  rcases Text.mem_separated member with colon | ⟨text, inside, here⟩
  · exact Or.inr colon
  · have group := is text inside
    unfold isGroup at group
    rw [Bool.and_eq_true, List.all_eq_true] at group
    exact Or.inl (group.2 char here)

theorem isAddressText_of_spells {groups : List Nat} (spells : Spells text groups) :
    IsAddressText text := by
  cases spells with
  | expanded each => exact isAddressText_separated (spelled_groups each).1
  | compressed before behind some_ =>
    intro char member
    rcases mem_append.mp member with front | rest
    · exact isAddressText_separated (spelled_groups before).1 char front
    rcases mem_cons.mp rest with colon | rest
    · exact Or.inr colon
    rcases mem_cons.mp rest with colon | back
    · exact Or.inr colon
    · exact isAddressText_separated (spelled_groups behind).1 char back

theorem solid_of_isAddressText (is : IsAddressText text) {char : Char} (member : char ∈ text) :
    isSpace char = false ∧ char ≠ '.' := by
  rcases is char member with digit | rfl
  · exact ⟨(isDigitOf_hexDigit digit).solid, (isDigitOf_hexDigit digit).marks.2⟩
  · exact ⟨rfl, by decide⟩

theorem trimmed_of_isAddressText (is : IsAddressText text) :
    trimmed text = text :=
  Text.trimmed_of_solid fun _ member => (solid_of_isAddressText is member).1

theorem addressFamily_of_isAddressText (is : IsAddressText text) :
    addressFamily (String.ofList text) = some .v6 ↔
      ':' ∈ text ∧ doubleColons text ≤ 1 ∧ text.count ':' ≤ 7 := by
  have one : text.splitOn '.' = [text] := by
    refine splitOn_eq_singleton fun member => ?_
    exact (solid_of_isAddressText is member).2 rfl
  have all_ : text.all (fun char => isHexDigit char || char == ':') = true := by
    refine List.all_eq_true.mpr fun char member => ?_
    rcases is char member with digit | colon
    · rw [digit, Bool.true_or]
    · rw [colon]
      rfl
  unfold addressFamily
  rw [String.toList_ofList, trimmed_of_isAddressText is]
  dsimp only
  rw [one, all_]
  constructor
  · intro family
    split at family
    · cases family
    · split at family
      · next holds =>
        simp only [Bool.and_eq_true, decide_eq_true_eq, contains_iff_mem] at holds
        exact ⟨holds.1.1.2, holds.1.2, holds.2⟩
      · cases family
  · rintro ⟨colon, doubled, most⟩
    have some_ : text.isEmpty = false := by
      rw [isEmpty_eq_false_iff]
      exact ne_nil_of_mem colon
    rw [if_neg (by simp), some_, decide_eq_true doubled, decide_eq_true most,
      contains_iff_mem.mpr colon]
    rfl

theorem doubleColons_of_atDouble (none_ : atDouble ':' text = none) :
    doubleColons text = 0 := by
  induction text with
  | nil => rfl
  | cons first text inductionHypothesis =>
    cases text with
    | nil =>
      unfold doubleColons
      split
      · next same => cases same
      · next same =>
        cases same
        rfl
      · rfl
    | cons second text =>
      unfold atDouble at none_
      split at none_
      · cases none_
      · next single =>
        have later := inductionHypothesis (map_eq_none_iff.mp none_)
        unfold doubleColons
        split
        · next same =>
          cases same
          exact absurd ⟨rfl, rfl⟩ single
        · next same =>
          cases same
          exact later
        · rfl

/-- A spelling with all its numbers is taken for an address. -/
theorem taken_expanded {texts : List (List Char)} (is : ∀ text ∈ texts, isGroup text = true)
    (some_ : 2 ≤ texts.length) (most : texts.length ≤ 8) :
    addressFamily (String.ofList (separated ':' texts)) = some .v6 := by
  have pieces := pieces_of_groups is
  have count := Text.count_separated pieces
  refine (addressFamily_of_isAddressText (isAddressText_separated is)).mpr ⟨?_, ?_, ?_⟩
  · refine count_pos_iff.mp ?_
    omega
  · rw [doubleColons_of_atDouble (Text.atDouble_separated pieces)]
    exact Nat.zero_le 1
  · omega

/-- A spelling that begins with two colons is taken for an address when six numbers follow at
most. -/
theorem taken_leading {more : List (List Char)} (is : ∀ text ∈ more, isGroup text = true) :
    addressFamily (String.ofList (':' :: ':' :: separated ':' more)) = some .v6 ↔
      more.length ≤ 6 := by
  have pieces := pieces_of_groups is
  have count := Text.count_separated pieces
  have address : IsAddressText (':' :: ':' :: separated ':' more) := by
    intro char member
    rcases mem_cons.mp member with colon | rest
    · exact Or.inr colon
    rcases mem_cons.mp rest with colon | rest
    · exact Or.inr colon
    · exact isAddressText_separated is char rest
  rw [addressFamily_of_isAddressText address, count_cons_self, count_cons_self, count]
  have doubled : doubleColons (':' :: ':' :: separated ':' more) = 1 := by
    rw [doubleColons, doubleColons_of_atDouble (Text.atDouble_separated pieces)]
  rw [doubled]
  constructor
  · rintro ⟨-, -, most⟩
    omega
  · intro most
    exact ⟨mem_cons_self, le_refl 1, by omega⟩

/-! ### The judgement of a spelling -/

/-- What follows the beginning of a mapped address. -/
def afterMapped : List Char → Option (List Char)
  | ':' :: ':' :: 'f' :: 'f' :: 'f' :: 'f' :: ':' :: rest => some rest
  | _ => none

theorem isPublicWithin_v6 (steps : Nat) (family : addressFamily (String.ofList text) = some .v6)
    (known : text.map Char.toLower ≠ "::1".toList ∧ text.map Char.toLower ≠ "::".toList) :
    isPublicWithin (steps + 1) (String.ofList text) =
      (afterMapped (text.map Char.toLower)).elim (!startsPrivate (text.map Char.toLower))
        fun rest => isPublicWithin steps (String.ofList rest) := by
  rw [isPublicWithin, family]
  dsimp only
  rw [String.toList_ofList, if_neg]
  · generalize text.map Char.toLower = lower
    split
    · rfl
    · rfl
    · rfl
    · rfl
    · next mapped c d e =>
      have none_ : afterMapped lower = none := by
        unfold afterMapped
        split
        · next rest => exact absurd rfl (mapped rest)
        · rfl
      have not_ : startsPrivate lower = false := by
        unfold startsPrivate
        split
        · next rest => exact absurd rfl (c rest)
        · next rest => exact absurd rfl (d rest)
        · next third rest => exact absurd rfl (e third rest)
        · rfl
      rw [none_, not_]
      rfl
  · rw [Bool.or_eq_true, beq_iff_eq, beq_iff_eq]
    exact fun either => either.elim known.1 known.2

/-- A text that begins with a number is judged by the length of its text and the number. -/
theorem isPublicWithin_group (steps : Nat) {tail : List Char} (spells : SpellsGroup text group)
    (ends : tail = [] ∨ ∃ more, tail = ':' :: more)
    (family : addressFamily (String.ofList (text ++ tail)) = some .v6) :
    isPublicWithin (steps + 1) (String.ofList (text ++ tail)) = true ↔
      ¬PrivateAt text.length group := by
  have begins : ∃ char rest, char ≠ ':' ∧ (text ++ tail).map Char.toLower = char :: rest := by
    have lower := lower_of_spellsGroup spells
    obtain ⟨some_, clean⟩ := isPiece_of_isGroup lower.1
    obtain ⟨char, rest, same⟩ := exists_cons_of_ne_nil some_
    refine ⟨char, rest ++ tail.map Char.toLower, ?_, ?_⟩
    · rintro rfl
      exact clean (same ▸ mem_cons_self)
    · rw [map_append, same, cons_append]
  obtain ⟨char, rest, other, same⟩ := begins
  have known : (text ++ tail).map Char.toLower ≠ "::1".toList ∧
      (text ++ tail).map Char.toLower ≠ "::".toList := by
    rw [same]
    exact ⟨fun equal => other (cons.inj equal).1, fun equal => other (cons.inj equal).1⟩
  have none_ : afterMapped ((text ++ tail).map Char.toLower) = none := by
    rw [same]
    unfold afterMapped
    split
    · next equal => exact absurd (cons.inj equal).1 other
    · rfl
  have lowerTail : tail.map Char.toLower = [] ∨ ∃ more, tail.map Char.toLower = ':' :: more := by
    rcases ends with rfl | ⟨more, rfl⟩
    · exact Or.inl rfl
    · exact Or.inr ⟨_, rfl⟩
  rw [isPublicWithin_v6 steps family known, none_, elim_none, map_append,
    Bool.not_eq_true', ← startsPrivate_group spells lowerTail, Bool.not_eq_true]

/-- A text that begins with two colons is judged by what follows, when that is `ffff`. -/
theorem isPublicWithin_leading (steps : Nat) {texts : List (List Char)} {groups : List Nat}
    (each : List.Forall₂ SpellsGroup texts groups) (most : texts.length ≤ 6)
    (specified : texts ≠ []) (loopback : texts.map (List.map Char.toLower) ≠ [['1']]) :
    isPublicWithin (steps + 1) (String.ofList (':' :: ':' :: separated ':' texts)) = true ↔
      ∀ text next more, texts.map (List.map Char.toLower) = text :: next :: more →
        text = "ffff".toList →
        isPublicWithin steps (String.ofList (separated ':' (next :: more))) = true := by
  obtain ⟨is, -⟩ := spelled_groups (lower_of_spells each)
  have pieces := pieces_of_groups is
  have family := (taken_leading (spelled_groups each).1).mpr most
  have lower : (':' :: ':' :: separated ':' texts).map Char.toLower =
      ':' :: ':' :: separated ':' (texts.map (List.map Char.toLower)) := by
    rw [map_cons, map_cons, Text.map_separated _ rfl]
    rfl
  have some_ : texts.map (List.map Char.toLower) ≠ [] :=
    fun none_ => specified (map_eq_nil_iff.mp none_)
  generalize texts.map (List.map Char.toLower) = parts at is pieces lower some_ loopback ⊢
  have known : (':' :: ':' :: separated ':' texts).map Char.toLower ≠ "::1".toList ∧
      (':' :: ':' :: separated ':' texts).map Char.toLower ≠ "::".toList := by
    rw [lower]
    constructor
    · intro same
      have one : separated ':' parts = ['1'] := (cons.inj (cons.inj same).2).2
      have read := Text.splitOn_separated some_ pieces
      rw [one] at read
      exact loopback read.symm
    · intro same
      exact Text.separated_ne_nil some_ pieces (cons.inj (cons.inj same).2).2
  have notPrivate : startsPrivate (':' :: ':' :: separated ':' parts) = false := rfl
  rw [isPublicWithin_v6 steps family known, lower, notPrivate]
  cases after : afterMapped (':' :: ':' :: separated ':' parts) with
  | none =>
    refine iff_of_true rfl fun text next more same mapped => ?_
    rw [same, Text.separated_cons_cons, mapped] at after
    cases after
  | some rest =>
    have begins : separated ':' parts = "ffff".toList ++ ':' :: rest := by
      unfold afterMapped at after
      split at after
      · next same =>
        cases after
        exact (cons.inj (cons.inj same).2).2
      · cases after
    have read := Text.splitOn_separated some_ pieces
    rw [begins, splitOn_append_cons_self, splitOn_eq_singleton (by decide)] at read
    have back : separated ':' (rest.splitOn ':') = rest := intercalate_splitOn ':'
    rw [elim_some, ← read]
    constructor
    · intro judged text next more same mapped
      have joined : next :: more = rest.splitOn ':' := (cons.inj same).2.symm
      rw [joined, back]
      exact judged
    · intro judged
      obtain ⟨next, more, same⟩ := exists_cons_of_ne_nil (splitOn_ne_nil ':' rest)
      have here := judged _ next more (by rw [same]; rfl) rfl
      rwa [← same, back] at here

/-! ### One judgement for an address -/

/-- A number with no colon behind it is no address. -/
theorem isPublicWithin_single (steps : Nat) (group : isGroup text = true) :
    isPublicWithin steps (String.ofList text) = false := by
  have is : IsAddressText text := by
    have alone : ∀ part ∈ [text], isGroup part = true :=
      fun part member => mem_singleton.mp member ▸ group
    have address := isAddressText_separated alone
    rwa [Text.separated_singleton] at address
  have family : addressFamily (String.ofList text) = none := by
    have clean : text.contains ':' = false := by
      rw [Bool.eq_false_iff, Ne, contains_iff_mem]
      exact (isPiece_of_isGroup group).2
    have one : text.splitOn '.' = [text] := by
      refine splitOn_eq_singleton fun member => ?_
      exact (solid_of_isAddressText is member).2 rfl
    unfold addressFamily
    rw [String.toList_ofList, trimmed_of_isAddressText is]
    dsimp only
    rw [one, clean, if_neg (by simp), if_neg (by simp)]
  cases steps with
  | zero => rfl
  | succ steps => rw [isPublicWithin, family]

/-- A number that cannot be taken for a private one has one judgement, however it is written. -/
theorem privateAt_iff (spells : SpellsGroup text group) (plain : ¬LooksPrivate group) :
    PrivateAt text.length group ↔ IsPrivate group := by
  obtain ⟨is, rfl⟩ := spells
  unfold isGroup at is
  rw [Bool.and_eq_true, Bool.and_eq_true, decide_eq_true_eq, decide_eq_true_eq,
    List.all_eq_true] at is
  obtain ⟨⟨some_, most⟩, digits⟩ := is
  have less := hexValue_lt digits
  unfold PrivateAt
  constructor
  · rintro (⟨-, two⟩ | ⟨-, three⟩ | ⟨-, four⟩)
    · exact absurd (two.elim Or.inl fun fd => Or.inr (Or.inl fd)) plain
    · exact absurd (Or.inr (Or.inr three)) plain
    · exact four
  · intro four
    refine Or.inr (Or.inr ⟨?_, four⟩)
    have large : 16 ^ 3 ≤ hexValue text := by
      unfold IsPrivate at four
      omega
    have long := (Nat.pow_lt_pow_iff_right (by decide)).mp (Nat.lt_of_le_of_lt large less)
    omega

/-- Several numbers are judged by the first. -/
theorem isPublicWithin_several (steps : Nat) {first : List Char} {more : List (List Char)}
    {rest : List Nat} (each : List.Forall₂ SpellsGroup (first :: more) (group :: rest))
    (some_ : more ≠ []) (most : more.length ≤ 7) :
    isPublicWithin (steps + 1) (String.ofList (separated ':' (first :: more))) = true ↔
      ¬PrivateAt first.length group := by
  have length := length_pos_iff.mpr some_
  have family := taken_expanded (spelled_groups each).1 (Nat.succ_le_succ length)
    (Nat.succ_le_succ most)
  obtain ⟨tail, whole, ends⟩ := Text.exists_separated_cons ':' first more
  cases each with
  | cons written each =>
    rw [whole] at family ⊢
    exact isPublicWithin_group steps written ends family

/-- Under the condition every spelling is judged by whether the first number is a private one. -/
theorem isPublic_of_hasOneJudgement {address : Address} (one : HasOneJudgement address.groups)
    (spelling : Spelling address) :
    isPublicAddress spelling.text = true ↔ ∀ group ∈ address.groups.head?, ¬IsPrivate group := by
  obtain ⟨groups, eight, small⟩ := address
  obtain ⟨text, spells, taken⟩ := spelling
  dsimp only at one spells ⊢
  unfold isPublicAddress
  generalize same : text.toList = chars at spells
  have text_ : text = String.ofList chars := by rw [← same, String.ofList_toList]
  rw [text_] at taken ⊢
  -- A text that begins with a number.
  have numbered : ∀ {first tail : List Char} {group : Nat} {rest : List Nat},
      SpellsGroup first group → groups = group :: rest → chars = first ++ tail →
      (tail = [] ∨ ∃ more, tail = ':' :: more) →
      (isPublicWithin (chars.length + 1) (String.ofList chars) = true ↔
        ∀ group ∈ groups.head?, ¬IsPrivate group) := by
    intro first tail group rest written parts whole ends
    have judged := isPublicWithin_group chars.length written ends (whole ▸ taken)
    rw [← whole, privateAt_iff written (one.first group rest parts)] at judged
    rw [judged, parts, head?_cons]
    exact ⟨fun routed other same => some.inj same ▸ routed, fun all_ => all_ group rfl⟩
  cases spells with
  | expanded each =>
    cases each with
    | nil => cases eight
    | cons first rest =>
      obtain ⟨tail, whole, ends⟩ := Text.exists_separated_cons ':' _ _
      exact numbered first rfl whole ends
  | @compressed texts more front back before behind zeros some_ =>
    cases before with
    | cons first rest =>
      obtain ⟨tail, whole, ends⟩ := Text.exists_separated_cons ':' _ _
      refine numbered first rfl (by rw [whole, append_assoc]) ?_
      rcases ends with rfl | ⟨more, rfl⟩
      · exact Or.inr ⟨_, rfl⟩
      · exact Or.inr ⟨_, rfl⟩
    | nil =>
      rw [Text.separated_nil, nil_append] at taken ⊢
      rw [nil_append] at one eight ⊢
      have most := (taken_leading (spelled_groups behind).1).mp taken
      have length := behind.length_eq
      rw [length_append, length_replicate] at eight
      have outside : ∀ group ∈ (List.replicate zeros 0 ++ back).head?, ¬IsPrivate group := by
        intro group head is
        obtain ⟨count, rfl⟩ := Nat.exists_eq_succ_of_ne_zero (Nat.pos_iff_ne_zero.mp some_)
        rw [replicate_succ, cons_append, head?_cons] at head
        cases head
        unfold IsPrivate at is
        omega
      refine iff_of_true ?_ outside
      have values := (spelled_groups (lower_of_spells behind)).2
      refine (isPublicWithin_leading _ behind most ?_ ?_).mpr ?_
      · rintro rfl
        cases behind
        refine one.specified ?_
        rw [append_nil, show zeros = 8 by simpa using eight]
      · intro loop
        rw [loop] at values
        have back_ : back = [1] := values.symm
        refine one.loopback ?_
        rw [back_] at eight ⊢
        rw [show zeros = 7 by simpa using eight]
      · intro text next rest parts mapped
        have each := lower_of_spells behind
        rw [parts] at each
        cases each with
        | @cons _ group _ others here each =>
          have is : group = 0xffff := by rw [← here.2, mapped]; rfl
          subst is
          rcases one.mapped zeros others (by omega) rfl with
            none_ | ⟨second, third, last, found, safe⟩
          · rw [none_] at each
            cases each
          · rw [found] at each
            have several := each.length_eq
            have all_ := congrArg List.length parts
            rw [length_map] at all_
            rw [length_cons, length_cons] at several all_
            refine (isPublicWithin_several _ each ?_ ?_).mpr ?_
            · rintro rfl
              cases several
            · omega
            · unfold PrivateAt IsPrivate
              unfold IsPrivate LooksPrivate at safe
              omega

/-! ### Spellings that every address has -/

/-- The spelling of an address with each number written in a way. -/
def Address.written (address : Address) (make : Nat → List Char)
    (right : ∀ group, group < 65536 → SpellsGroup (make group) group) : Spelling address where
  text := String.ofList (separated ':' (address.groups.map make))
  spells := by
    rw [String.toList_ofList]
    exact Spells.expanded (spells_texts right address.small)
  taken := by
    have length : (address.groups.map make).length = 8 := by
      rw [length_map, address.eight]
    refine taken_expanded (spelled_groups (spells_texts right address.small)).1 ?_ ?_
    · rw [length]
      decide
    · exact length.le

/-- The spelling of an address that begins with zeros, with two colons in front. -/
def Address.leading (address : Address) {zeros : Nat} {back : List Nat} (some_ : 2 ≤ zeros)
    (parts : address.groups = List.replicate zeros 0 ++ back) : Spelling address where
  text := String.ofList (':' :: ':' :: separated ':' (back.map hexText))
  spells := by
    have small : ∀ group ∈ back, group < 65536 :=
      fun group member => address.small group (parts ▸ mem_append_right _ member)
    rw [String.toList_ofList, parts]
    exact Spells.compressed List.Forall₂.nil (spells_hexTexts small)
      (Nat.lt_of_lt_of_le Nat.zero_lt_two some_)
  taken := by
    have small : ∀ group ∈ back, group < 65536 :=
      fun group member => address.small group (parts ▸ mem_append_right _ member)
    have length := address.eight
    rw [parts, length_append, length_replicate] at length
    refine (taken_leading (spelled_groups (spells_hexTexts small)).1).mpr ?_
    rw [length_map]
    omega

theorem isPublic_written (address : Address) {make : Nat → List Char}
    (right : ∀ group, group < 65536 → SpellsGroup (make group) group) {rest : List Nat}
    (parts : address.groups = group :: rest) :
    isPublicAddress (address.written make right).text = true ↔
      ¬PrivateAt (make group).length group := by
  have length := address.eight
  have each := spells_texts right address.small
  rw [parts] at length each
  rw [length_cons] at length
  unfold isPublicAddress Address.written
  dsimp only
  rw [parts]
  refine isPublicWithin_several _ each ?_ ?_
  · rw [Ne, map_eq_nil_iff]
    rintro rfl
    cases length
  · rw [length_map]
    omega

/-- The shortest text of a number that can be taken for a private one begins as one. -/
theorem privateAt_hexText (is : IsPrivate group ∨ LooksPrivate group) :
    PrivateAt (hexText group).length group := by
  have small : group < 65536 := by
    unfold IsPrivate LooksPrivate at is
    omega
  have one := length_hexText_le group 1 (by decide)
  have two := length_hexText_le group 2 (by decide)
  have three := length_hexText_le group 3 (by decide)
  have four := (length_hexText_le group 4 (by decide)).mpr small
  unfold IsPrivate LooksPrivate at is
  unfold PrivateAt IsPrivate
  omega

/-- An address that may be taken for a private one is judged both ways, with leading zeros and
without. -/
theorem two_of_looksPrivate (address : Address) {rest : List Nat}
    (parts : address.groups = group :: rest) (looks : LooksPrivate group) :
    isPublicAddress (address.written hexText fun _ => spellsGroup_hexText).text = false ∧
      isPublicAddress (address.written fullText fun _ => spellsGroup_fullText).text = true := by
  have small : group < 65536 := address.small group (parts ▸ mem_cons_self)
  constructor
  · rw [Bool.eq_false_iff, Ne, isPublic_written address _ parts, not_not]
    exact privateAt_hexText (Or.inr looks)
  · rw [isPublic_written address _ parts, length_fullText small]
    unfold LooksPrivate at looks
    unfold PrivateAt IsPrivate
    omega

/-- With all its zeros written, an address that begins with zero is public. -/
theorem isPublic_full_of_zero (address : Address) {zeros : Nat} {back : List Nat}
    (some_ : 2 ≤ zeros) (parts : address.groups = List.replicate zeros 0 ++ back) :
    isPublicAddress (address.written fullText fun _ => spellsGroup_fullText).text = true := by
  obtain ⟨count, rfl⟩ := Nat.exists_eq_succ_of_ne_zero (show zeros ≠ 0 by omega)
  rw [replicate_succ, cons_append] at parts
  rw [isPublic_written address _ parts]
  unfold PrivateAt IsPrivate
  omega

theorem isPublic_unspecified (address : Address) {zeros : Nat} (some_ : 2 ≤ zeros)
    (parts : address.groups = List.replicate zeros 0 ++ []) :
    isPublicAddress (address.leading some_ parts).text = false := by
  show isPublicAddress (String.ofList [':', ':']) = false
  decide +kernel

theorem isPublic_loopback (address : Address) {zeros : Nat} (some_ : 2 ≤ zeros)
    (parts : address.groups = List.replicate zeros 0 ++ [1]) :
    isPublicAddress (address.leading some_ parts).text = false := by
  show isPublicAddress (String.ofList [':', ':', '1']) = false
  decide +kernel

/-- What follows the beginning of a mapped address is judged alone. -/
theorem isPublic_mapped (address : Address) {zeros : Nat} {more : List Nat} (some_ : 2 ≤ zeros)
    (parts : address.groups = List.replicate zeros 0 ++ 0xffff :: more) (follows : more ≠ [])
    (alone : ∀ next third rest, more = next :: third :: rest →
      IsPrivate next ∨ LooksPrivate next) :
    isPublicAddress (address.leading some_ parts).text = false := by
  have small : ∀ group ∈ 0xffff :: more, group < 65536 :=
    fun group member => address.small group (parts ▸ mem_append_right _ member)
  have each := spells_hexTexts small
  have length := address.eight
  rw [parts, length_append, length_replicate, length_cons] at length
  have most : ((0xffff :: more).map hexText).length ≤ 6 := by
    rw [length_map, length_cons]
    omega
  unfold isPublicAddress Address.leading
  rw [String.toList_ofList, Bool.eq_false_iff, Ne, isPublicWithin_leading _ each most]
  · intro judged
    cases more with
    | nil => exact follows rfl
    | cons next more =>
      have here := judged _ _ _ rfl (by decide)
      have lower := lower_of_spells each
      cases lower with
      | cons first lower =>
        cases more with
        | nil =>
          cases lower with
          | cons second lower =>
            rw [map_nil, map_nil, Text.separated_singleton,
              isPublicWithin_single _ second.1] at here
            cases here
        | cons third rest =>
          have several := (isPublicWithin_several _ lower (cons_ne_nil _ _) (by
            rw [length_map, length_map]
            rw [length_cons] at length
            omega)).mp here
          refine several ?_
          rw [length_map]
          exact privateAt_hexText (alone next third rest rfl)
  · exact cons_ne_nil _ _
  · intro one
    have first := (cons.inj one).1
    revert first
    decide

/-! ### What is promised -/

/-- However an address is spelled, it is compared in its compressed form. -/
theorem canonicalAddress_of_spelling {spell : String → Option String}
    (canonical : SpellsCanonically spell) {address : Address} (spelling : Spelling address) :
    canonicalAddress spell spelling.text = String.ofList (canonicalText address.groups) := by
  have solid : trim spelling.text = spelling.text := by
    unfold trim
    rw [trimmed_of_isAddressText (isAddressText_of_spells spelling.spells), String.ofList_toList]
  unfold canonicalAddress
  rw [if_pos spelling.taken, solid, canonical address spelling, getD_some]

/-- An address is judged by what it is, and not by how it is spelled, just when it has one
judgement. -/
theorem judged_iff {spell : String → Option String} (canonical : SpellsCanonically spell)
    (address : Address) :
    JudgedByWhatItIs spell address ↔ HasOneJudgement address.groups := by
  constructor
  · intro holds
    have same : ∀ first second : Spelling address, isPublicAddress first.text = false →
        isPublicAddress second.text = true → False := by
      intro first second hidden shown
      have equal := holds.judged first second
      rw [hidden, shown] at equal
      cases equal
    constructor
    · intro zeros
      have parts : address.groups = List.replicate 8 0 ++ [] := zeros
      exact same _ _ (isPublic_unspecified address (by decide) parts)
        (isPublic_full_of_zero address (by decide) parts)
    · intro parts
      exact same _ _ (isPublic_loopback address (by decide) parts)
        (isPublic_full_of_zero address (by decide) parts)
    · intro group rest parts looks
      obtain ⟨hidden, shown⟩ := two_of_looksPrivate address parts looks
      exact same _ _ hidden shown
    · intro zeros more some_ parts
      by_contra bad
      refine same _ _ (isPublic_mapped address some_ parts (fun none_ => bad (Or.inl none_)) ?_)
        (isPublic_full_of_zero address some_ parts)
      intro next third rest found
      by_contra safe
      exact bad (Or.inr ⟨next, third, rest, found, not_or.mp safe⟩)
  · intro one
    constructor
    · intro first second
      rw [Bool.eq_iff_iff, isPublic_of_hasOneJudgement one first,
        isPublic_of_hasOneJudgement one second]
    · intro first second
      rw [canonicalAddress_of_spelling canonical, canonicalAddress_of_spelling canonical]
    · intro other first second different same
      rw [canonicalAddress_of_spelling canonical, canonicalAddress_of_spelling canonical,
        String.ofList_inj] at same
      exact different (canonicalText_inj same).symm

/-- A reader of addresses that spells what it reads. -/
def respelled (text : String) : Option String :=
  (readAddress text.toList).map fun groups => String.ofList (canonicalText groups)

theorem spellsCanonically_respelled : SpellsCanonically respelled := by
  intro address spelling
  unfold respelled
  rw [readAddress_of_spells spelling.spells address.eight]
  rfl

/-- The address of the machine itself. -/
def loopback : Address := ⟨[0, 0, 0, 0, 0, 0, 0, 1], rfl, by decide⟩

theorem judged_iff_loopback :
    JudgedByWhatItIs respelled loopback ↔ HasOneJudgement [0, 0, 0, 0, 0, 0, 0, 1] :=
  judged_iff spellsCanonically_respelled loopback

/-- The address of the machine itself, with all its zeros written, is taken for one that the
Internet can route to. -/
theorem loopback_spelled_out :
    ∃ first second : Spelling loopback, first.text = "::1" ∧ second.text = "0:0:0:0:0:0:0:1" ∧
      isPublicAddress first.text = false ∧ isPublicAddress second.text = true := by
  have parts : loopback.groups = List.replicate 7 0 ++ [1] := rfl
  refine ⟨loopback.leading (by decide) parts,
    loopback.written hexText fun _ => spellsGroup_hexText, ?_, ?_, ?_, ?_⟩
  · rfl
  · rfl
  · show isPublicAddress "::1" = false
    decide +kernel
  · show isPublicAddress "0:0:0:0:0:0:0:1" = true
    decide +kernel

end Geeboard.Dns

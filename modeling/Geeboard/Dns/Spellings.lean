/-
This file is about how IPv6 addresses are spelled.

An address is eight numbers. It may be written with leading zeros, in either case, and
with two colons for a run of zeros anywhere. Every spelling can be read back, so it is a
spelling of one address only. The language's own spelling is the shortest one, with two
colons for the longest run of zeros.
-/

import Geeboard.Dns.Rules
import Geeboard.Text.Separated

namespace Geeboard.Dns

open List
open Text (separated atDouble IsPiece padStart isSpace)

/-! ### Hexadecimal digits -/

/-- The value of a hexadecimal digit. -/
def hexDigit (char : Char) : Nat :=
  if char.isDigit then char.toNat - 48
  else if 'a' ≤ char ∧ char ≤ 'f' then char.toNat - 87
  else char.toNat - 55

/-- The number that hexadecimal digits write. -/
def hexValue (text : List Char) : Nat :=
  text.foldl (fun value char => 16 * value + hexDigit char) 0

/-- One to four hexadecimal digits. -/
def isGroup (text : List Char) : Bool :=
  1 ≤ text.length && text.length ≤ 4 && text.all isHexDigit

/-- A text that writes a number of sixteen bits. -/
def SpellsGroup (text : List Char) (group : Nat) : Prop :=
  isGroup text = true ∧ hexValue text = group

/-- The shortest text of a number, in lower case. -/
def hexText (group : Nat) : List Char := Nat.toDigits 16 group

/-- The longest text of a number of sixteen bits, in lower case. -/
def fullText (group : Nat) : List Char := padStart 4 (hexText group)

/-! ### Addresses and their spellings -/

/-- An IPv6 address. -/
structure Address where
  groups : List Nat
  eight : groups.length = 8
  small : ∀ group ∈ groups, group < 65536
  deriving DecidableEq, Repr

/-- How the numbers of an address are written: all of them, or with two colons for some that are
zero. -/
inductive Spells : List Char → List Nat → Prop
  | expanded {texts : List (List Char)} {groups : List Nat}
      (each : List.Forall₂ SpellsGroup texts groups) :
      Spells (separated ':' texts) groups
  | compressed {texts more : List (List Char)} {front back : List Nat}
      (before : List.Forall₂ SpellsGroup texts front)
      (behind : List.Forall₂ SpellsGroup more back) {zeros : Nat} (some_ : 0 < zeros) :
      Spells (separated ':' texts ++ ':' :: ':' :: separated ':' more)
        (front ++ List.replicate zeros 0 ++ back)

/-- A spelling of an address that the panel takes for one. -/
structure Spelling (address : Address) where
  text : String
  spells : Spells text.toList address.groups
  taken : addressFamily text = some .v6

/-! ### The language's spelling -/

/-- How many numbers are zero from an index on. -/
def runAt (groups : List Nat) (index : Nat) : Nat :=
  ((groups.drop index).takeWhile fun group => group == 0).length

/-- Where the first of the longest runs of two zeros or more begins. -/
def compressAt (groups : List Nat) : Option Nat :=
  let longest := ((List.range groups.length).map (runAt groups)).foldr max 0
  if longest < 2 then none
  else (List.range groups.length).find? fun index => runAt groups index == longest

/-- The compressed form of an address, in lower case and without leading zeros. -/
def canonicalText (groups : List Nat) : List Char :=
  match compressAt groups with
  | none => separated ':' (groups.map hexText)
  | some index =>
    separated ':' ((groups.take index).map hexText) ++ ':' :: ':' ::
      separated ':' ((groups.drop (index + runAt groups index)).map hexText)

/-- The numbers of some digits with colons between them. -/
def readGroups (text : List Char) : Option (List Nat) :=
  let parts := if text.isEmpty then [] else text.splitOn ':'
  if parts.all isGroup then some (parts.map hexValue) else none

/-- The address that a text spells. -/
def readAddress (text : List Char) : Option (List Nat) :=
  match atDouble ':' text with
  | none => (readGroups text).filter fun groups => groups.length == 8
  | some (front, back) =>
    (readGroups front).bind fun before =>
      (readGroups back).bind fun behind =>
        if before.length + behind.length < 8 then
          some (before ++ List.replicate (8 - (before.length + behind.length)) 0 ++ behind)
        else none

/-- The way the language spells addresses gives the compressed form of every address that is
spelled in a way the panel takes. -/
def SpellsCanonically (spell : String → Option String) : Prop :=
  ∀ (address : Address) (spelling : Spelling address),
    spell spelling.text = some (String.ofList (canonicalText address.groups))

/-! ### What a digit is -/

/-- What is asked of a hexadecimal digit. -/
structure IsDigitOf (char : Char) (digit : Nat) : Prop where
  small : digit < 16
  value : hexDigit char = digit
  lower : char.toLower = Nat.digitChar digit
  solid : isSpace char = false
  marks : char ≠ ':' ∧ char ≠ '.'

theorem isDigitOf_hexDigit {char : Char} (digit : isHexDigit char = true) :
    IsDigitOf char (hexDigit char) := by
  have small : char.toNat < 128 := by
    unfold isHexDigit at digit
    simp only [Bool.or_eq_true, Bool.and_eq_true, decide_eq_true_eq, Char.isDigit, ge_iff_le,
      Char.le_def, UInt32.le_iff_toNat_le] at digit
    have value : char.toNat = char.val.toNat := rfl
    rcases digit with (⟨-, most⟩ | ⟨-, most⟩) | ⟨-, most⟩
    · exact value ▸ Nat.lt_of_le_of_lt most (by decide)
    · exact value ▸ Nat.lt_of_le_of_lt most (by decide)
    · exact value ▸ Nat.lt_of_le_of_lt most (by decide)
  have each : ∀ number < 128, isHexDigit (Char.ofNat number) = true →
      hexDigit (Char.ofNat number) < 16 ∧
      (Char.ofNat number).toLower = Nat.digitChar (hexDigit (Char.ofNat number)) ∧
      isSpace (Char.ofNat number) = false ∧
      Char.ofNat number ≠ ':' ∧ Char.ofNat number ≠ '.' := by
    decide +kernel
  have here := each char.toNat small
  rw [Char.ofNat_toNat] at here
  obtain ⟨less, lower, solid, marks⟩ := here digit
  exact ⟨less, rfl, lower, solid, marks⟩

theorem digitChar_facts {digit : Nat} (small : digit < 16) :
    isHexDigit (Nat.digitChar digit) = true ∧ hexDigit (Nat.digitChar digit) = digit := by
  have each : ∀ digit < 16,
      isHexDigit (Nat.digitChar digit) = true ∧ hexDigit (Nat.digitChar digit) = digit := by
    decide
  exact each digit small


/-! ### Numbers as hexadecimal texts -/

theorem digitChar_inj {first second : Nat} (one : first < 16) (other : second < 16) :
    Nat.digitChar first = Nat.digitChar second ↔ first = second := by
  have each : ∀ first < 16, ∀ second < 16,
      Nat.digitChar first = Nat.digitChar second → first = second := by
    decide
  exact ⟨each first one second other, fun same => same ▸ rfl⟩

theorem hexValue_concat (text : List Char) (char : Char) :
    hexValue (text ++ [char]) = 16 * hexValue text + hexDigit char := by
  unfold hexValue
  rw [foldl_append]
  rfl

theorem hexValue_lt {text : List Char} (digits : ∀ char ∈ text, isHexDigit char = true) :
    hexValue text < 16 ^ text.length := by
  induction text using List.reverseRecOn with
  | nil => exact Nat.one_pos
  | append_singleton text char inductionHypothesis =>
    have front := inductionHypothesis fun other member =>
      digits other (mem_append_left _ member)
    have last := (isDigitOf_hexDigit (digits char (mem_append_right _
      (mem_singleton_self char)))).small
    rw [hexValue_concat, length_append, length_singleton, Nat.pow_succ]
    omega

theorem hexValue_zeros_append (count : Nat) (text : List Char) :
    hexValue (List.replicate count '0' ++ text) = hexValue text := by
  have zeros : ∀ count : Nat, hexValue (List.replicate count '0') = 0 := by
    intro count
    induction count with
    | zero => rfl
    | succ count inductionHypothesis =>
      rw [replicate_succ', hexValue_concat, inductionHypothesis]
      rfl
  unfold hexValue at zeros ⊢
  rw [foldl_append, zeros]

theorem hexText_facts (group : Nat) :
    (∀ char ∈ hexText group, isHexDigit char = true) ∧ hexValue (hexText group) = group := by
  unfold hexText
  induction group using Nat.strongRecOn with
  | ind group inductionHypothesis =>
    rw [Nat.toDigits_eq_if (by decide)]
    split
    · next less =>
      obtain ⟨digit, value⟩ := digitChar_facts less
      refine ⟨fun char member => mem_singleton.mp member ▸ digit, ?_⟩
      show 16 * 0 + _ = group
      rw [value, Nat.mul_zero, Nat.zero_add]
    · next more =>
      obtain ⟨digits, front⟩ := inductionHypothesis (group / 16) (by omega)
      obtain ⟨digit, value⟩ := digitChar_facts (Nat.mod_lt group (by decide : 0 < 16))
      constructor
      · intro char member
        rcases mem_append.mp member with before | last
        · exact digits char before
        · exact mem_singleton.mp last ▸ digit
      · rw [hexValue_concat, front, value]
        exact Nat.div_add_mod group 16

theorem length_hexText_le (group length : Nat) (some_ : 0 < length) :
    (hexText group).length ≤ length ↔ group < 16 ^ length :=
  Nat.length_toDigits_le_iff (by decide) some_

theorem spellsGroup_hexText {group : Nat} (small : group < 65536) :
    SpellsGroup (hexText group) group := by
  obtain ⟨digits, value⟩ := hexText_facts group
  refine ⟨?_, value⟩
  unfold isGroup
  have four : (hexText group).length ≤ 4 := (length_hexText_le group 4 (by decide)).mpr small
  have one : 1 ≤ (hexText group).length := Nat.length_toDigits_pos
  rw [decide_eq_true one, decide_eq_true four, List.all_eq_true.mpr digits]
  rfl

theorem length_fullText {group : Nat} (small : group < 65536) : (fullText group).length = 4 := by
  unfold fullText
  rw [Text.length_padStart]
  exact Nat.max_eq_left ((length_hexText_le group 4 (by decide)).mpr small)

theorem spellsGroup_fullText {group : Nat} (small : group < 65536) :
    SpellsGroup (fullText group) group := by
  obtain ⟨digits, value⟩ := hexText_facts group
  constructor
  · unfold isGroup
    rw [length_fullText small, List.all_eq_true.mpr]
    · rfl
    · intro char member
      rcases mem_append.mp member with zero | digit
      · rw [eq_of_mem_replicate zero]
        rfl
      · exact digits char digit
  · exact (hexValue_zeros_append _ _).trans value

theorem lower_of_spellsGroup {text : List Char} {group : Nat} (spells : SpellsGroup text group) :
    SpellsGroup (text.map Char.toLower) group := by
  obtain ⟨is, rfl⟩ := spells
  unfold isGroup at is
  rw [Bool.and_eq_true, Bool.and_eq_true, List.all_eq_true] at is
  obtain ⟨⟨some_, most⟩, digits⟩ := is
  constructor
  · unfold isGroup
    rw [length_map, some_, most, List.all_eq_true.mpr]
    · rfl
    · intro char member
      obtain ⟨upper, inside, rfl⟩ := List.mem_map.mp member
      have digit := isDigitOf_hexDigit (digits upper inside)
      rw [digit.lower]
      exact (digitChar_facts digit.small).1
  · have same : ∀ char ∈ text, hexDigit char.toLower = hexDigit char := by
      intro char member
      have digit := isDigitOf_hexDigit (digits char member)
      rw [digit.lower]
      exact (digitChar_facts digit.small).2
    unfold hexValue
    rw [foldl_map]
    refine foldl_ext _ _ _ fun value char member => ?_
    rw [same char member]

variable {groups : List Nat} {texts : List (List Char)}

theorem lower_of_spells (each : List.Forall₂ SpellsGroup texts groups) :
    List.Forall₂ SpellsGroup (texts.map (List.map Char.toLower)) groups := by
  induction each with
  | nil => exact List.Forall₂.nil
  | cons first rest inductionHypothesis =>
    exact List.Forall₂.cons (lower_of_spellsGroup first) inductionHypothesis

/-! ### Reading a spelling -/

theorem isPiece_of_isGroup {text : List Char} (group : isGroup text = true) :
    IsPiece ':' text := by
  unfold isGroup at group
  rw [Bool.and_eq_true, Bool.and_eq_true, decide_eq_true_eq, List.all_eq_true] at group
  obtain ⟨⟨some_, -⟩, digits⟩ := group
  refine ⟨ne_nil_of_length_pos some_, fun member => ?_⟩
  exact absurd (digits ':' member) (by decide)

/-- What numbers are spelled by are pieces, that read as the numbers. -/
theorem spelled_groups (each : List.Forall₂ SpellsGroup texts groups) :
    (∀ text ∈ texts, isGroup text = true) ∧ texts.map hexValue = groups := by
  induction each with
  | nil => exact ⟨fun _ member => absurd member not_mem_nil, rfl⟩
  | cons first rest inductionHypothesis =>
    obtain ⟨is, values⟩ := inductionHypothesis
    refine ⟨forall_mem_cons.mpr ⟨first.1, is⟩, ?_⟩
    rw [map_cons, first.2, values]

theorem spells_groups (is : ∀ text ∈ texts, isGroup text = true) :
    List.Forall₂ SpellsGroup texts (texts.map hexValue) := by
  induction texts with
  | nil => exact List.Forall₂.nil
  | cons text texts inductionHypothesis =>
    obtain ⟨here, there⟩ := forall_mem_cons.mp is
    exact List.Forall₂.cons ⟨here, rfl⟩ (inductionHypothesis there)

theorem pieces_of_groups (is : ∀ text ∈ texts, isGroup text = true) :
    ∀ text ∈ texts, IsPiece ':' text :=
  fun text member => isPiece_of_isGroup (is text member)

theorem readGroups_separated (each : List.Forall₂ SpellsGroup texts groups) :
    readGroups (separated ':' texts) = some groups := by
  obtain ⟨is, values⟩ := spelled_groups each
  have parts : (if (separated ':' texts).isEmpty then []
      else (separated ':' texts).splitOn ':') = texts := by
    by_cases some_ : texts = []
    · rw [some_]
      rfl
    · have full := Text.separated_ne_nil some_ (pieces_of_groups is)
      rw [if_neg (by rwa [List.isEmpty_iff]), Text.splitOn_separated some_ (pieces_of_groups is)]
  unfold readGroups
  dsimp only
  rw [parts, if_pos (List.all_eq_true.mpr is), values]

/-- A spelling is read as the address it spells. -/
theorem readAddress_of_spells {text : List Char} (spells : Spells text groups)
    (eight : groups.length = 8) : readAddress text = some groups := by
  unfold readAddress
  cases spells with
  | expanded each =>
    rw [Text.atDouble_separated (pieces_of_groups (spelled_groups each).1)]
    dsimp only
    rw [readGroups_separated each, Option.filter_some, eight]
    rfl
  | @compressed texts more front back before behind zeros some_ =>
    rw [Text.atDouble_separated_append (pieces_of_groups (spelled_groups before).1)]
    dsimp only
    rw [readGroups_separated before, readGroups_separated behind, Option.bind_some,
      Option.bind_some]
    rw [length_append, length_append, length_replicate] at eight
    rw [if_pos (by omega), show 8 - (front.length + back.length) = zeros by omega]

/-- A text spells one address. -/
theorem groups_of_spells {text : List Char} {first second : Address}
    (one : Spells text first.groups) (other : Spells text second.groups) : first = second := by
  have same := (readAddress_of_spells one first.eight).symm.trans
    (readAddress_of_spells other second.eight)
  cases first
  cases second
  cases same
  rfl

/-! ### The compressed form -/

/-- Numbers are spelled by the texts made of each of them. -/
theorem spells_texts {make : Nat → List Char}
    (right : ∀ group, group < 65536 → SpellsGroup (make group) group)
    (small : ∀ group ∈ groups, group < 65536) :
    List.Forall₂ SpellsGroup (groups.map make) groups := by
  induction groups with
  | nil => exact List.Forall₂.nil
  | cons group groups inductionHypothesis =>
    obtain ⟨here, there⟩ := forall_mem_cons.mp small
    exact List.Forall₂.cons (right group here) (inductionHypothesis there)

theorem spells_hexTexts (small : ∀ group ∈ groups, group < 65536) :
    List.Forall₂ SpellsGroup (groups.map hexText) groups :=
  spells_texts (fun _ => spellsGroup_hexText) small

/-- A run of zeros stands where it is counted. -/
theorem take_run_drop (groups : List Nat) (index : Nat) :
    groups.take index ++ List.replicate (runAt groups index) 0 ++
      groups.drop (index + runAt groups index) = groups := by
  have zeros : (groups.drop index).takeWhile (fun group => group == 0) =
      List.replicate (runAt groups index) 0 := by
    refine eq_replicate_iff.mpr ⟨rfl, fun group member => ?_⟩
    have is : (group == 0) = true := mem_takeWhile_imp (p := fun group => group == 0) member
    exact beq_iff_eq.mp is
  have rest : (groups.drop index).dropWhile (fun group => group == 0) =
      groups.drop (index + runAt groups index) := by
    have parts := takeWhile_append_dropWhile (p := fun group => group == 0)
      (l := groups.drop index)
    rw [zeros] at parts
    have dropped := congrArg (List.drop (runAt groups index)) parts
    rw [drop_left' length_replicate, drop_drop] at dropped
    exact dropped
  rw [← zeros, ← rest, append_assoc, takeWhile_append_dropWhile, take_append_drop]

theorem run_of_compressAt {index : Nat} (found : compressAt groups = some index) :
    0 < runAt groups index := by
  unfold compressAt at found
  dsimp only at found
  split at found
  · cases found
  · next more =>
    have is := find?_some found
    rw [beq_iff_eq] at is
    omega

/-- The compressed form is a spelling. -/
theorem spells_canonicalText (small : ∀ group ∈ groups, group < 65536) :
    Spells (canonicalText groups) groups := by
  unfold canonicalText
  cases found : compressAt groups with
  | none => exact Spells.expanded (spells_hexTexts small)
  | some index =>
    have front : ∀ group ∈ groups.take index, group < 65536 :=
      fun group member => small group (mem_of_mem_take member)
    have back : ∀ group ∈ groups.drop (index + runAt groups index), group < 65536 :=
      fun group member => small group (mem_of_mem_drop member)
    have compressed := Spells.compressed (spells_hexTexts front) (spells_hexTexts back)
      (run_of_compressAt found)
    rwa [take_run_drop] at compressed

theorem canonicalText_inj {first second : Address}
    (same : canonicalText first.groups = canonicalText second.groups) : first = second :=
  groups_of_spells (spells_canonicalText first.small)
    (same ▸ spells_canonicalText second.small)

end Geeboard.Dns

/-
This file is about the spellings of an IPv6 address that the platform takes, and that
they are read as the address they spell.

The numbers are written in base sixteen, with leading zeros or without, in either case;
two colons stand for a run of zeros anywhere; the last two numbers may be written as an
IPv4 address; a zone may follow. The platform takes exactly these texts. Brackets and
blanks around one do not matter.
-/

import Geeboard.Net.Addresses
import Geeboard.Systems.Results
import Mathlib

namespace Geeboard.Net

open List Option
open Dns (Address SpellsGroup isGroup isOctet isHexDigit hexValue hexText)
open Text (atDouble separated IsPiece trimmed decimal isSpace)

/-! ### Spellings -/

/-- A text that writes a number of eight bits. -/
def SpellsOctet (text : List Char) (octet : Nat) : Prop :=
  isOctet text = true ∧ decimal text = octet

/-- How an IPv4 address is written. -/
inductive SpellsV4 : List Char → Quad → Prop
  | dotted {one two three four : List Char} {quad : Quad} (a : SpellsOctet one quad.a)
      (b : SpellsOctet two quad.b) (c : SpellsOctet three quad.c) (d : SpellsOctet four quad.d) :
      SpellsV4 (separated '.' [one, two, three, four]) quad

/-- The two numbers an IPv4 address is. -/
def Quad.high (quad : Quad) : Nat := quad.a * 256 + quad.b
def Quad.low (quad : Quad) : Nat := quad.c * 256 + quad.d

/-- The numbers at the end of an address: each in base sixteen, or the last two as an IPv4
address. -/
inductive SpellsEnd : List (List Char) → List Nat → Prop
  | plain {texts : List (List Char)} {groups : List Nat}
      (each : List.Forall₂ SpellsGroup texts groups) : SpellsEnd texts groups
  | dotted {texts : List (List Char)} {groups : List Nat} {text : List Char} {quad : Quad}
      (each : List.Forall₂ SpellsGroup texts groups) (last : SpellsV4 text quad) :
      SpellsEnd (texts ++ [text]) (groups ++ [quad.high, quad.low])

/-- How the numbers of an address are written: all of them, or with two colons for some that are
zero. -/
inductive SpellsBare : List Char → List Nat → Prop
  | full {texts : List (List Char)} {groups : List Nat} (ends : SpellsEnd texts groups) :
      SpellsBare (separated ':' texts) groups
  | shortened {texts more : List (List Char)} {front back : List Nat}
      (before : List.Forall₂ SpellsGroup texts front) (behind : SpellsEnd more back)
      {zeros : Nat} (some_ : 0 < zeros) :
      SpellsBare (separated ':' texts ++ ':' :: ':' :: separated ':' more)
        (front ++ List.replicate zeros 0 ++ back)

/-- Nothing, or a zone. -/
def IsZone (zone : List Char) : Prop :=
  zone = [] ∨ ∃ name, zone = '%' :: name ∧ name ≠ [] ∧ ∀ char ∈ name, isZoneChar char = true

/-- How an address is written, with or without a zone. -/
def SpellsZoned (text : List Char) (groups : List Nat) : Prop :=
  ∃ bare zone, text = bare ++ zone ∧ SpellsBare bare groups ∧ IsZone zone

/-- A text in brackets, with blanks inside and outside; any of these may be missing. -/
def Surrounds (inner text : List Char) : Prop :=
  ∃ before opening inside inside' closing behind,
    text = before ++ opening ++ inside ++ inner ++ inside' ++ closing ++ behind ∧
    (∀ char ∈ before ++ inside ++ inside' ++ behind, isSpace char = true) ∧
    (opening = [] ∨ opening = ['[']) ∧ (closing = [] ∨ closing = [']'])

/-- A text that the panel gets for an address. -/
def Writes (text : List Char) (address : Address) : Prop :=
  ∃ inner, Surrounds inner text ∧ SpellsZoned inner address.groups

/-! ### Characters -/

/-- A character of a literal: no blank, no bracket, and its small form is one too. -/
def isLiteralChar (char : Char) : Bool := isHexDigit char || char == ':' || char == '.'

theorem literalChar_facts {char : Char} (literal : isLiteralChar char = true) :
    char ≠ '%' ∧ isSpace char = false ∧ char ≠ '[' ∧ char ≠ ']' := by
  have small : char.toNat < 128 := by
    unfold isLiteralChar isHexDigit at literal
    simp only [Bool.or_eq_true, Bool.and_eq_true, decide_eq_true_eq, Char.isDigit, ge_iff_le,
      Char.le_def, UInt32.le_iff_toNat_le, beq_iff_eq] at literal
    have value : char.toNat = char.val.toNat := rfl
    rcases literal with (((⟨-, most⟩ | ⟨-, most⟩) | ⟨-, most⟩) | rfl) | rfl
    · exact value ▸ Nat.lt_of_le_of_lt most (by decide)
    · exact value ▸ Nat.lt_of_le_of_lt most (by decide)
    · exact value ▸ Nat.lt_of_le_of_lt most (by decide)
    · decide
    · decide
  have each : ∀ number < 128, isLiteralChar (Char.ofNat number) = true →
      Char.ofNat number ≠ '%' ∧ isSpace (Char.ofNat number) = false ∧
      Char.ofNat number ≠ '[' ∧ Char.ofNat number ≠ ']' := by
    decide +kernel
  have here := each char.toNat small
  rw [Char.ofNat_toNat] at here
  exact here literal

theorem zoneChar_facts {char : Char} (zone : isZoneChar char = true) :
    isSpace char = false ∧ char ≠ '[' ∧ char ≠ ']' := by
  have small : char.toNat < 128 := by
    unfold isZoneChar at zone
    simp only [Bool.or_eq_true, Char.isAlphanum, Char.isAlpha, Char.isUpper, Char.isLower,
      Bool.and_eq_true, decide_eq_true_eq, Char.isDigit, ge_iff_le, UInt32.le_iff_toNat_le, beq_iff_eq] at zone
    have value : char.toNat = char.val.toNat := rfl
    rcases zone with ((((⟨-, most⟩ | ⟨-, most⟩) | ⟨-, most⟩) | rfl) | rfl) | rfl
    · exact value ▸ Nat.lt_of_le_of_lt most (by decide)
    · exact value ▸ Nat.lt_of_le_of_lt most (by decide)
    · exact value ▸ Nat.lt_of_le_of_lt most (by decide)
    · decide
    · decide
    · decide
  have each : ∀ number < 128, isZoneChar (Char.ofNat number) = true →
      isSpace (Char.ofNat number) = false ∧ Char.ofNat number ≠ '[' ∧ Char.ofNat number ≠ ']' := by
    decide +kernel
  have here := each char.toNat small
  rw [Char.ofNat_toNat] at here
  exact here zone

/-! ### The platform takes the spellings -/

variable {text : List Char} {groups : List Nat} {texts : List (List Char)} {quad : Quad}

theorem isPiece_of_isOctet (octet : isOctet text = true) :
    IsPiece '.' text ∧ ∀ char ∈ text, char.isDigit = true := by
  unfold isOctet at octet
  simp only [Bool.and_eq_true, Bool.not_eq_true', isEmpty_eq_false_iff, List.all_eq_true]
    at octet
  obtain ⟨⟨⟨⟨some_, -⟩, digits⟩, -⟩, -⟩ := octet
  exact ⟨⟨some_, fun member => absurd (digits '.' member) (by decide)⟩, digits⟩

theorem splitOn_v4 (spells : SpellsV4 text quad) :
    ∃ one two three four, text = separated '.' [one, two, three, four] ∧
      text.splitOn '.' = [one, two, three, four] ∧ SpellsOctet one quad.a ∧
      SpellsOctet two quad.b ∧ SpellsOctet three quad.c ∧ SpellsOctet four quad.d := by
  cases spells with
  | @dotted one two three four quad a b c d =>
    refine ⟨one, two, three, four, rfl, ?_, a, b, c, d⟩
    refine Text.splitOn_separated (cons_ne_nil _ _) fun part member => ?_
    simp only [mem_cons, not_mem_nil, or_false] at member
    rcases member with rfl | rfl | rfl | rfl
    · exact (isPiece_of_isOctet a.1).1
    · exact (isPiece_of_isOctet b.1).1
    · exact (isPiece_of_isOctet c.1).1
    · exact (isPiece_of_isOctet d.1).1

/-- The platform takes the four numbers of an IPv4 address, and no other text. -/
theorem isIPv4_iff (text : List Char) : isIPv4 text = true ↔ ∃ quad, SpellsV4 text quad := by
  constructor
  · intro takes
    unfold isIPv4 at takes
    simp only [Bool.and_eq_true, beq_iff_eq, List.all_eq_true] at takes
    obtain ⟨four, octets⟩ := takes
    have joined : separated '.' (text.splitOn '.') = text := intercalate_splitOn '.'
    obtain ⟨one, two, three, four, parts⟩ := length_eq_four.mp four
    rw [parts] at joined octets
    rw [← joined]
    simp only [mem_cons, not_mem_nil, or_false, forall_eq_or_imp, forall_eq] at octets
    obtain ⟨a, b, c, d⟩ := octets
    exact ⟨⟨decimal one, decimal two, decimal three, decimal four⟩,
      .dotted ⟨a, rfl⟩ ⟨b, rfl⟩ ⟨c, rfl⟩ ⟨d, rfl⟩⟩
  · rintro ⟨quad, spells⟩
    obtain ⟨one, two, three, four, -, parts, a, b, c, d⟩ := splitOn_v4 spells
    unfold isIPv4
    dsimp only
    rw [parts]
    simp only [length_cons, length_nil, beq_self_eq_true, all_cons, a.1, b.1, c.1,
      d.1, all_nil, Bool.and_self]

theorem isPiece_of_v4 (spells : SpellsV4 text quad) :
    (∀ char ∈ text, char.isDigit = true ∨ char = '.') ∧ '.' ∈ text ∧ IsPiece ':' text := by
  obtain ⟨one, two, three, four, same, -, a, b, c, d⟩ := splitOn_v4 spells
  have chars : ∀ char ∈ text, char.isDigit = true ∨ char = '.' := by
    intro char member
    rw [same] at member
    obtain dot | ⟨part, inside, holds⟩ := Text.mem_separated member
    · exact Or.inr dot
    · simp only [mem_cons, not_mem_nil, or_false] at inside
      rcases inside with rfl | rfl | rfl | rfl
      · exact Or.inl ((isPiece_of_isOctet a.1).2 char holds)
      · exact Or.inl ((isPiece_of_isOctet b.1).2 char holds)
      · exact Or.inl ((isPiece_of_isOctet c.1).2 char holds)
      · exact Or.inl ((isPiece_of_isOctet d.1).2 char holds)
  have dot : '.' ∈ text := by
    rw [same, Text.separated_cons_cons]
    exact mem_append_right _ mem_cons_self
  refine ⟨chars, dot, ne_nil_of_mem dot, fun colon => ?_⟩
  rcases chars ':' colon with digit | same
  · exact absurd digit (by decide)
  · exact absurd same (by decide)

theorem not_isGroup_of_v4 (spells : SpellsV4 text quad) :
    isGroup text = false := by
  refine Bool.eq_false_iff.mpr fun group => ?_
  unfold isGroup at group
  simp only [Bool.and_eq_true, List.all_eq_true] at group
  exact absurd (group.2 '.' (isPiece_of_v4 spells).2.1) (by decide)

/-- The parts of an address are pieces between colons. -/
theorem pieces_of_end (ends : SpellsEnd texts groups) : ∀ text ∈ texts, IsPiece ':' text := by
  cases ends with
  | plain each => exact Dns.pieces_of_groups (Dns.spelled_groups each).1
  | dotted each last =>
    intro text member
    obtain before | here := mem_append.mp member
    · exact Dns.pieces_of_groups (Dns.spelled_groups each).1 text before
    · rw [mem_singleton.mp here]
      exact (isPiece_of_v4 last).2.2

theorem pieces_separated (are : ∀ text ∈ texts, IsPiece ':' text) :
    pieces (separated ':' texts) = texts := by
  unfold pieces
  by_cases some_ : texts = []
  · rw [some_]
    rfl
  · have full := Text.separated_ne_nil some_ are
    rw [if_neg (by rwa [List.isEmpty_iff]), Text.splitOn_separated some_ are]

theorem separated_pieces (text : List Char) : separated ':' (pieces text) = text := by
  unfold pieces
  split
  · next empty =>
    rw [List.isEmpty_iff.mp empty]
    rfl
  · exact intercalate_splitOn ':'

theorem widthOf_cons (group : isGroup text = true) (texts : List (List Char)) :
    widthOf (text :: texts) = (widthOf texts).map (· + 1) := by
  cases texts with
  | nil => exact if_pos group
  | cons next texts => exact if_pos group

theorem widthOf_of_end (ends : SpellsEnd texts groups) : widthOf texts = some groups.length := by
  cases ends with
  | plain each =>
    induction each with
    | nil => rfl
    | cons here there inductionHypothesis =>
      rw [widthOf_cons here.1, inductionHypothesis]
      rfl
  | dotted each last =>
    induction each with
    | nil =>
      show (if _ then _ else if _ then _ else _) = _
      rw [not_isGroup_of_v4 last, (isIPv4_iff _).mpr ⟨_, last⟩]
      rfl
    | cons here there inductionHypothesis =>
      rw [cons_append, widthOf_cons here.1, inductionHypothesis]
      rfl

theorem end_of_widthOf {width : Nat} (counted : widthOf texts = some width) :
    ∃ groups, SpellsEnd texts groups ∧ groups.length = width := by
  fun_induction widthOf texts generalizing width with
  | case1 =>
    cases counted
    exact ⟨[], .plain .nil, rfl⟩
  | case2 last group =>
    cases counted
    exact ⟨[hexValue last], .plain (.cons ⟨group, rfl⟩ .nil), rfl⟩
  | case3 last _ dotted =>
    cases counted
    obtain ⟨quad, spells⟩ := (isIPv4_iff last).mp dotted
    exact ⟨[quad.high, quad.low], @SpellsEnd.dotted [] [] last quad .nil spells, rfl⟩
  | case4 => cases counted
  | case5 part parts _ group inductionHypothesis =>
    obtain ⟨rest, there, same⟩ := map_eq_some_iff.mp counted
    obtain ⟨groups, ends, length⟩ := inductionHypothesis there
    refine ⟨hexValue part :: groups, ?_, by rw [length_cons, length, same]⟩
    cases ends with
    | plain each => exact .plain (.cons ⟨group, rfl⟩ each)
    | dotted each last =>
      rw [← cons_append, ← cons_append]
      exact .dotted (.cons ⟨group, rfl⟩ each) last
  | case6 => cases counted

theorem group_lt {group : Nat} (spells : SpellsGroup text group) :
    group < 65536 := by
  obtain ⟨is, rfl⟩ := spells
  unfold isGroup at is
  simp only [Bool.and_eq_true, decide_eq_true_eq, List.all_eq_true] at is
  exact (Dns.hexValue_lt is.2).trans_le (Nat.pow_le_pow_right (by decide) is.1.2)

theorem groups_lt (each : List.Forall₂ SpellsGroup texts groups) :
    ∀ group ∈ groups, group < 65536 := by
  induction each with
  | nil => exact fun _ member => absurd member not_mem_nil
  | cons here _ inductionHypothesis =>
    exact forall_mem_cons.mpr ⟨group_lt here, inductionHypothesis⟩

theorem octets_lt (spells : SpellsV4 text quad) :
    quad.a < 256 ∧ quad.b < 256 ∧ quad.c < 256 ∧ quad.d < 256 := by
  have small : ∀ {part : List Char} {octet : Nat}, SpellsOctet part octet → octet < 256 := by
    rintro part octet ⟨is, rfl⟩
    unfold isOctet at is
    simp only [Bool.and_eq_true, decide_eq_true_eq] at is
    omega
  cases spells with
  | dotted a b c d => exact ⟨small a, small b, small c, small d⟩

theorem end_lt (ends : SpellsEnd texts groups) :
    ∀ group ∈ groups, group < 65536 := by
  cases ends with
  | plain each => exact groups_lt each
  | dotted each last =>
    intro group member
    obtain before | here := mem_append.mp member
    · exact groups_lt each group before
    · obtain ⟨a, b, c, d⟩ := octets_lt last
      simp only [mem_cons, not_mem_nil, or_false] at here
      unfold Quad.high Quad.low at here
      omega

theorem bare_lt (spells : SpellsBare text groups) :
    ∀ group ∈ groups, group < 65536 := by
  cases spells with
  | full ends => exact end_lt ends
  | shortened before behind some_ =>
    intro group member
    obtain (front | zero) | back := (mem_append.mp member).imp_left mem_append.mp
    · exact groups_lt before group front
    · rw [eq_of_mem_replicate zero]
      decide
    · exact end_lt behind group back

theorem isBare_of_spells (spells : SpellsBare text groups) (eight : groups.length = 8) :
    isBare text = true := by
  unfold isBare
  cases spells with
  | full ends =>
    rw [Text.atDouble_separated (pieces_of_end ends)]
    dsimp only
    rw [pieces_separated (pieces_of_end ends), widthOf_of_end ends, eight]
    rfl
  | @shortened texts more front back before behind zeros some_ =>
    have parts := Dns.pieces_of_groups (Dns.spelled_groups before).1
    rw [Text.atDouble_separated_append parts]
    dsimp only
    rw [pieces_separated parts, pieces_separated (pieces_of_end behind), widthOf_of_end behind,
      List.all_eq_true.mpr (Dns.spelled_groups before).1, Bool.true_and, any_some,
      decide_eq_true_eq, before.length_eq]
    rw [length_append, length_append, length_replicate] at eight
    omega

theorem spells_of_isBare (bare : isBare text = true) :
    ∃ groups, SpellsBare text groups ∧ groups.length = 8 := by
  unfold isBare at bare
  split at bare
  · obtain ⟨groups, ends, length⟩ := end_of_widthOf (beq_iff_eq.mp bare)
    refine ⟨groups, ?_, length⟩
    have spells := SpellsBare.full ends
    rwa [separated_pieces] at spells
  · next front back found =>
    obtain ⟨fronts, backs⟩ := Bool.and_eq_true_iff.mp bare
    have before := Dns.spells_groups (List.all_eq_true.mp fronts)
    obtain ⟨width, counted, few⟩ : ∃ width, widthOf (pieces back) = some width ∧
        (pieces front).length + width ≤ 7 := by
      cases counted : widthOf (pieces back) with
      | none =>
        rw [counted] at backs
        cases backs
      | some width =>
        rw [counted] at backs
        exact ⟨width, rfl, of_decide_eq_true backs⟩
    obtain ⟨groups, ends, length⟩ := end_of_widthOf counted
    have zeros : 0 < 8 - ((pieces front).length + width) := by omega
    have spells := SpellsBare.shortened before ends zeros
    rw [separated_pieces, separated_pieces, ← Text.eq_of_atDouble found] at spells
    refine ⟨_, spells, ?_⟩
    simp only [length_append, length_map, length_replicate, length]
    omega

/-- The characters of an address without a zone. -/
theorem chars_of_bare (spells : SpellsBare text groups) :
    ∀ char ∈ text, isLiteralChar char = true := by
  have group : ∀ {texts : List (List Char)} {groups : List Nat},
      List.Forall₂ SpellsGroup texts groups → ∀ char ∈ separated ':' texts,
        isLiteralChar char = true := by
    intro texts groups each char member
    obtain rfl | ⟨part, inside, holds⟩ := Text.mem_separated member
    · decide
    · have is := (Dns.spelled_groups each).1 part inside
      unfold isGroup at is
      simp only [Bool.and_eq_true, List.all_eq_true] at is
      unfold isLiteralChar
      rw [is.2 char holds]
      rfl
  have ending : ∀ {texts : List (List Char)} {groups : List Nat},
      SpellsEnd texts groups → ∀ char ∈ separated ':' texts, isLiteralChar char = true := by
    intro texts groups ends char member
    cases ends with
    | plain each => exact group each char member
    | @dotted texts groups text quad each last =>
      obtain rfl | ⟨part, inside, holds⟩ := Text.mem_separated member
      · decide
      · obtain before | here := mem_append.mp inside
        · have is := (Dns.spelled_groups each).1 part before
          unfold isGroup at is
          simp only [Bool.and_eq_true, List.all_eq_true] at is
          unfold isLiteralChar
          rw [is.2 char holds]
          rfl
        · rw [mem_singleton.mp here] at holds
          unfold isLiteralChar isHexDigit
          rcases (isPiece_of_v4 last).1 char holds with digit | rfl
          · rw [digit]
            rfl
          · decide
  cases spells with
  | full ends => exact ending ends
  | shortened before behind some_ =>
    intro char member
    obtain front | back := mem_append.mp member
    · exact group before char front
    · obtain rfl | later := mem_cons.mp back
      · decide
      · obtain rfl | later := mem_cons.mp later
        · decide
        · exact ending behind char later

theorem unzoned_append {bare zone : List Char} (clean : ∀ char ∈ bare, isLiteralChar char = true)
    (marked : zone = [] ∨ ∃ name, zone = '%' :: name) : unzoned (bare ++ zone) = bare ∧
      (bare ++ zone).dropWhile (fun char => char != '%') = zone := by
  have pass : ∀ char ∈ bare, (char != '%') = true := fun char member =>
    bne_iff_ne.mpr (literalChar_facts (clean char member)).1
  have stop : zone.takeWhile (fun char => char != '%') = [] ∧
      zone.dropWhile (fun char => char != '%') = zone := by
    obtain rfl | ⟨name, rfl⟩ := marked
    · exact ⟨rfl, rfl⟩
    · exact ⟨rfl, rfl⟩
  unfold unzoned
  rw [takeWhile_append_of_pos pass, dropWhile_append_of_pos pass, stop.1, stop.2,
    append_nil]
  exact ⟨rfl, rfl⟩

/-- The platform takes the spellings of addresses, and no other text. -/
theorem isIPv6_iff (text : List Char) :
    isIPv6 text = true ↔ ∃ address : Address, SpellsZoned text address.groups := by
  constructor
  · intro takes
    have parts : text = unzoned text ++ text.dropWhile fun char => char != '%' :=
      (takeWhile_append_dropWhile).symm
    obtain ⟨zone, bare⟩ : IsZone (text.dropWhile fun char => char != '%') ∧
        isBare (unzoned text) = true := by
      unfold isIPv6 at takes
      split at takes
      · next none_ =>
        refine ⟨Or.inl none_, ?_⟩
        rw [none_, append_nil] at parts
        rwa [← parts]
      · next mark zone found =>
        rw [Bool.and_eq_true, Bool.and_eq_true, Bool.not_eq_true', isEmpty_eq_false_iff,
          List.all_eq_true] at takes
        have percent : mark = '%' := by
          have stops := head?_dropWhile_not (fun char => char != '%') text
          rw [found, head?_cons] at stops
          exact not_not.mp fun other => absurd (bne_iff_ne.mpr other) (by rw [stops]; decide)
        exact ⟨Or.inr ⟨zone, by rw [found, percent], takes.1.1, takes.1.2⟩, takes.2⟩
    obtain ⟨groups, spells, eight⟩ := spells_of_isBare bare
    exact ⟨⟨groups, eight, bare_lt spells⟩, _, _, parts, spells, zone⟩
  · rintro ⟨address, bare, zone, rfl, spells, is⟩
    obtain ⟨front, back⟩ := unzoned_append (chars_of_bare spells)
      (is.imp_right fun named => named.imp fun _ both => both.1)
    have takes := isBare_of_spells spells address.eight
    unfold isIPv6
    rw [back, front]
    obtain rfl | ⟨name, rfl, some_, chars⟩ := is
    · rwa [append_nil]
    · dsimp only
      rw [List.all_eq_true.mpr chars, takes, isEmpty_eq_false_iff.mpr some_]
      rfl

/-! ### In lower case -/

theorem lower_of_v4 (spells : SpellsV4 text quad) :
    text.map Char.toLower = text := by
  refine (map_congr_left fun char member => ?_).trans (List.map_id text)
  rcases (isPiece_of_v4 spells).1 char member with digit | rfl
  · have most : char.val ≤ '9'.val := by
      unfold Char.isDigit at digit
      rw [Bool.and_eq_true, decide_eq_true_eq, decide_eq_true_eq] at digit
      exact digit.2
    refine dif_neg fun upper => ?_
    exact absurd (UInt32.le_trans upper.1 most) (by decide)
  · rfl

theorem lower_of_end (ends : SpellsEnd texts groups) :
    SpellsEnd (texts.map (List.map Char.toLower)) groups := by
  cases ends with
  | plain each => exact .plain (Dns.lower_of_spells each)
  | dotted each last =>
    rw [map_append, map_singleton, lower_of_v4 last]
    exact .dotted (Dns.lower_of_spells each) last

/-- A spelling in lower case spells the same. -/
theorem lower_of_bare (spells : SpellsBare text groups) :
    SpellsBare (text.map Char.toLower) groups := by
  have colon : ':'.toLower = ':' := rfl
  cases spells with
  | full ends =>
    rw [Text.map_separated _ colon]
    exact .full (lower_of_end ends)
  | shortened before behind some_ =>
    rw [map_append, map_cons, map_cons, colon, Text.map_separated _ colon,
      Text.map_separated _ colon]
    exact .shortened (Dns.lower_of_spells before) (lower_of_end behind) some_

/-! ### A dotted end -/

/-- Parts with a colon behind each. -/
def led (texts : List (List Char)) : List Char := texts.flatMap fun text => text ++ [':']

theorem separated_concat (texts : List (List Char)) (last : List Char) :
    separated ':' (texts ++ [last]) = led texts ++ last := by
  induction texts with
  | nil => exact Text.separated_singleton last
  | cons text texts inductionHypothesis =>
    have more : ∃ next others, texts ++ [last] = next :: others :=
      exists_cons_of_ne_nil (append_ne_nil_of_right_ne_nil _ (cons_ne_nil _ _))
    obtain ⟨next, others, same⟩ := more
    rw [cons_append, same, Text.separated_cons_cons, ← same, inductionHypothesis]
    unfold led
    rw [flatMap_cons, append_assoc, append_assoc]
    rfl

theorem led_concat (texts : List (List Char)) (last : List Char) :
    led (texts ++ [last]) = led texts ++ (last ++ [':']) := by
  unfold led
  rw [flatMap_append, flatMap_singleton]

/-- The end of a text behind its last colon. -/
theorem afterColon (front last : List Char) (clean : ':' ∉ last)
    (ends : front = [] ∨ ∃ before, front = before ++ [':']) :
    (front ++ last).rdropWhile (fun char => char != ':') = front ∧
      (front ++ last).rtakeWhile (fun char => char != ':') = last := by
  have pass : ∀ char ∈ last.reverse, (char != ':') = true := fun char member =>
    bne_iff_ne.mpr fun same => clean (same ▸ mem_reverse.mp member)
  unfold List.rdropWhile List.rtakeWhile
  rw [reverse_append, dropWhile_append_of_pos pass, takeWhile_append_of_pos pass]
  obtain rfl | ⟨before, rfl⟩ := ends
  · exact ⟨rfl, by simp⟩
  · have stop : (before ++ [':']).reverse = ':' :: before.reverse := reverse_concat
    rw [stop]
    exact ⟨by simp, by simp⟩

theorem isDotted_of_v4 (spells : SpellsV4 text quad) :
    isDotted text = true ∧ v4Parts text = quad := by
  obtain ⟨one, two, three, four, -, parts, a, b, c, d⟩ := splitOn_v4 spells
  have digits : ∀ {part : List Char} {octet : Nat}, SpellsOctet part octet →
      (!part.isEmpty && part.all Char.isDigit) = true ∧ decimal (trimmed part) = octet := by
    intro part octet spelled
    obtain ⟨⟨some_, -⟩, all_⟩ := isPiece_of_isOctet spelled.1
    rw [isEmpty_eq_false_iff.mpr some_, List.all_eq_true.mpr all_, Text.trimmed_of_solid]
    · exact ⟨rfl, spelled.2⟩
    · intro char member
      refine (literalChar_facts ?_).2.1
      unfold isLiteralChar isHexDigit
      rw [all_ char member]
      rfl
  unfold isDotted v4Parts
  dsimp only
  rw [parts]
  constructor
  · simp only [length_cons, length_nil, beq_self_eq_true, all_cons, (digits a).1,
      (digits b).1, (digits c).1, (digits d).1, all_nil, Bool.and_self]
  · simp only [map_cons, (digits a).2, (digits b).2, (digits c).2, (digits d).2]
    rfl

theorem dottedTail_of_v4 (texts : List (List Char)) {front last : List Char}
    (spells : SpellsV4 last quad) (ends : ∃ before, front = before ++ [':']) :
    dottedTail (front ++ led texts ++ last) = some (front ++ led texts, last) := by
  have behind : ∃ before, front ++ led texts = before ++ [':'] := by
    cases texts using List.reverseRecOn with
    | nil =>
      obtain ⟨before, rfl⟩ := ends
      exact ⟨before, append_nil _⟩
    | append_singleton texts text =>
      refine ⟨front ++ led texts ++ text, ?_⟩
      rw [led_concat, append_assoc, append_assoc]
  obtain ⟨front', tail⟩ := afterColon _ last (isPiece_of_v4 spells).2.2.2 (Or.inr behind)
  unfold dottedTail
  dsimp only
  rw [front', tail, (isDotted_of_v4 spells).1]
  obtain ⟨before, same⟩ := behind
  rw [same]
  cases before <;> rfl

/-- A text without a dot has no dotted end. -/
theorem dottedTail_of_clean (clean : '.' ∉ text) : dottedTail text = none := by
  have single : ∀ tail : List Char, '.' ∉ tail → isDotted tail = false := by
    intro tail none_
    unfold isDotted
    dsimp only
    rw [splitOn_eq_singleton none_]
    rfl
  have tail := single (text.rtakeWhile fun char => char != ':')
    fun member => clean ((rtakeWhile_suffix _ _).subset member)
  unfold dottedTail
  dsimp only
  rw [tail, Bool.and_false]
  rfl

theorem high_eq (small : quad.b < 256) :
    quad.a <<< 8 ||| quad.b = quad.high := by
  rw [← Nat.shiftLeft_add_eq_or_of_lt small, Nat.shiftLeft_eq]
  rfl

theorem low_eq (small : quad.d < 256) :
    quad.c <<< 8 ||| quad.d = quad.low := by
  rw [← Nat.shiftLeft_add_eq_or_of_lt small, Nat.shiftLeft_eq]
  rfl

/-- The two numbers of a dotted end take its place. -/
theorem withoutDots_of_v4 (texts : List (List Char)) {front last : List Char}
    (spells : SpellsV4 last quad) (ends : ∃ before, front = before ++ [':']) :
    withoutDots (front ++ led texts ++ last) =
      front ++ separated ':' (texts ++ [hexText quad.high, hexText quad.low]) := by
  obtain ⟨_, b, _, d⟩ := octets_lt spells
  have joined : separated ':' (texts ++ [hexText quad.high, hexText quad.low]) =
      led texts ++ (hexText quad.high ++ [':']) ++ hexText quad.low := by
    rw [← led_concat, ← separated_concat, append_assoc]
    rfl
  unfold withoutDots
  rw [dottedTail_of_v4 texts spells ends]
  dsimp only
  rw [(isDotted_of_v4 spells).2, high_eq b, low_eq d, joined]
  simp only [append_assoc, cons_append, nil_append]

theorem spells_hexTexts (each : List.Forall₂ SpellsGroup texts groups) (last : SpellsV4 text quad) :
    List.Forall₂ SpellsGroup (texts ++ [hexText quad.high, hexText quad.low])
      (groups ++ [quad.high, quad.low]) := by
  obtain ⟨a, b, c, d⟩ := octets_lt last
  have high : quad.high < 65536 := by
    unfold Quad.high
    omega
  have low : quad.low < 65536 := by
    unfold Quad.low
    omega
  exact rel_append each
    (.cons (Dns.spellsGroup_hexText high) (.cons (Dns.spellsGroup_hexText low) .nil))

/-- Groups are written without dots. -/
theorem clean_of_groups (each : List.Forall₂ SpellsGroup texts groups) :
    '.' ∉ separated ':' texts := by
  intro member
  obtain same | ⟨part, inside, holds⟩ := Text.mem_separated member
  · exact absurd same (by decide)
  · have is := (Dns.spelled_groups each).1 part inside
    unfold isGroup at is
    simp only [Bool.and_eq_true, List.all_eq_true] at is
    exact absurd (is.2 '.' holds) (by decide)

/-- Without its dots, a spelling is one in base sixteen alone, of the same address. -/
theorem spells_withoutDots (spells : SpellsBare text groups) (eight : groups.length = 8) :
    Dns.Spells (withoutDots text) groups := by
  cases spells with
  | full ends =>
    cases ends with
    | plain each =>
      unfold withoutDots
      rw [dottedTail_of_clean (clean_of_groups each)]
      exact .expanded each
    | @dotted texts groups text quad each last =>
      have some_ : texts ≠ [] := by
        rintro rfl
        cases each
        exact absurd eight (by simp)
      obtain ⟨first, rest, rfl⟩ := exists_cons_of_ne_nil some_
      have whole : led (first :: rest) = first ++ [':'] ++ led rest := flatMap_cons
      rw [separated_concat, whole, withoutDots_of_v4 rest last ⟨first, rfl⟩]
      have more : ∃ next others, rest ++ [hexText quad.high, hexText quad.low] = next :: others :=
        exists_cons_of_ne_nil (append_ne_nil_of_right_ne_nil _ (cons_ne_nil _ _))
      obtain ⟨next, others, same⟩ := more
      have joined : first ++ [':'] ++ separated ':' (rest ++ [hexText quad.high, hexText quad.low]) =
          separated ':' (first :: rest ++ [hexText quad.high, hexText quad.low]) := by
        rw [cons_append, same, Text.separated_cons_cons, append_assoc]
        rfl
      rw [joined]
      exact .expanded (spells_hexTexts each last)
  | @shortened texts more front back before behind zeros some_ =>
    cases behind with
    | plain each =>
      unfold withoutDots
      rw [dottedTail_of_clean]
      · exact .compressed before each some_
      · intro member
        obtain early | late := mem_append.mp member
        · exact clean_of_groups before early
        · simp only [mem_cons] at late
          rcases late with same | same | late
          · exact absurd same (by decide)
          · exact absurd same (by decide)
          · exact clean_of_groups each late
    | @dotted more back text quad each last =>
      have whole : separated ':' texts ++ ':' :: ':' :: separated ':' (more ++ [text]) =
          separated ':' texts ++ [':'] ++ [':'] ++ led more ++ text := by
        rw [separated_concat]
        simp only [append_assoc, cons_append, nil_append]
      rw [whole, withoutDots_of_v4 more last ⟨separated ':' texts ++ [':'], rfl⟩,
        append_assoc, append_assoc]
      exact .compressed before (spells_hexTexts each last) some_

/-! ### The numbers are read -/

theorem parseHex_of_group {group : Nat} (spells : SpellsGroup text group) :
    parseHex text = some group := by
  obtain ⟨is, rfl⟩ := spells
  unfold isGroup at is
  simp only [Bool.and_eq_true, decide_eq_true_eq, List.all_eq_true] at is
  have whole : text.takeWhile isHexDigit = text := takeWhile_eq_self_iff.mpr is.2
  unfold parseHex
  dsimp only
  rw [whole, if_neg]
  rw [List.isEmpty_iff]
  rintro rfl
  exact absurd is.1.1 (by decide)

/-- The texts of all eight numbers are found. -/
theorem eightTexts_of_spells (spells : Dns.Spells text groups) (eight : groups.length = 8) :
    ∃ texts, eightTexts text = some texts ∧ List.Forall₂ SpellsGroup texts groups := by
  unfold eightTexts
  cases spells with
  | @expanded texts _ each =>
    have are := Dns.pieces_of_groups (Dns.spelled_groups each).1
    rw [Text.atDouble_separated are]
    dsimp only
    rw [pieces_separated are, if_pos (each.length_eq.trans eight)]
    exact ⟨texts, rfl, each⟩
  | @compressed texts more front back before behind zeros some_ =>
    have are := Dns.pieces_of_groups (Dns.spelled_groups before).1
    have are' := Dns.pieces_of_groups (Dns.spelled_groups behind).1
    rw [length_append, length_append, length_replicate, ← before.length_eq,
      ← behind.length_eq] at eight
    rw [Text.atDouble_separated_append are]
    dsimp only
    rw [Text.atDouble_separated are', pieces_separated are, pieces_separated are',
      if_neg (by decide), if_neg (by omega), show 8 - texts.length - more.length = zeros by omega]
    refine ⟨_, rfl, rel_append (rel_append before ?_) behind⟩
    exact List.forall₂_iff_get.mpr ⟨by simp, fun index here there => by
      rw [get_eq_getElem, get_eq_getElem, getElem_replicate,
        getElem_replicate]
      exact ⟨rfl, rfl⟩⟩

theorem groupsOf_of_spells (address : Address) (spells : Dns.Spells text address.groups) :
    groupsOf text = some address.groups := by
  obtain ⟨texts, found, each⟩ := eightTexts_of_spells spells address.eight
  have parsed : texts.mapM parseHex = some address.groups :=
    Systems.mapM_eq_some_iff.mpr (each.imp fun _ _ => parseHex_of_group)
  have small : (address.groups.all fun group => decide (group ≤ 0xffff)) = true :=
    List.all_eq_true.mpr fun group member =>
      decide_eq_true (Nat.le_of_lt_succ (address.small group member))
  unfold groupsOf
  rw [found, bind_some, parsed, filter_some, small, address.eight]
  rfl

/-! ### Brackets and blanks -/

/-- A text without blanks and brackets. -/
def IsSolid (inner : List Char) : Prop :=
  inner ≠ [] ∧ ∀ char ∈ inner, isSpace char = false ∧ char ≠ '[' ∧ char ≠ ']'

theorem colon_of_bare (spells : SpellsBare text groups) (eight : groups.length = 8) :
    ':' ∈ text := by
  cases spells with
  | @full texts groups ends =>
    match texts, ends with
    | [], ends =>
      have counted := widthOf_of_end ends
      rw [eight] at counted
      cases counted
    | [text], ends =>
      have counted := widthOf_of_end ends
      rw [eight] at counted
      unfold widthOf at counted
      split at counted
      · cases counted
      · split at counted <;> cases counted
    | first :: second :: rest, _ =>
      rw [Text.separated_cons_cons]
      exact mem_append_right _ mem_cons_self
  | shortened => exact mem_append_right _ mem_cons_self

theorem isSolid_of_zoned {inner : List Char} {address : Address}
    (spells : SpellsZoned inner address.groups) : IsSolid inner := by
  obtain ⟨bare, zone, rfl, bareSpells, is⟩ := spells
  refine ⟨append_ne_nil_of_left_ne_nil
    (ne_nil_of_mem (colon_of_bare bareSpells address.eight)) _, fun char member => ?_⟩
  obtain front | back := mem_append.mp member
  · exact (literalChar_facts (chars_of_bare bareSpells char front)).2
  · obtain rfl | ⟨name, rfl, -, chars⟩ := is
    · cases back
    · obtain rfl | later := mem_cons.mp back
      · decide
      · exact zoneChar_facts (chars char later)

/-- Nothing, or a bracket that opens with blanks behind it. -/
def IsOpening (left : List Char) : Prop :=
  left = [] ∨ ∃ blanks, left = '[' :: blanks ∧ ∀ char ∈ blanks, isSpace char = true

/-- Nothing, or a bracket that closes with blanks before it. -/
def IsClosing (right : List Char) : Prop :=
  right = [] ∨ ∃ blanks, right = blanks ++ [']'] ∧ ∀ char ∈ blanks, isSpace char = true

theorem unbracketed_around {left inner right : List Char} (solid : IsSolid inner)
    (opens : IsOpening left) (closes : IsClosing right) :
    unbracketed (left ++ inner ++ right) = left.tail ++ inner ++ right.dropLast := by
  have opened : (if (left ++ inner ++ right).head? = some '[' then (left ++ inner ++ right).tail
      else left ++ inner ++ right) = left.tail ++ inner ++ right := by
    obtain rfl | ⟨blanks, rfl, -⟩ := opens
    · obtain ⟨head, rest, rfl⟩ := exists_cons_of_ne_nil solid.1
      exact if_neg fun begins =>
        (solid.2 head mem_cons_self).2.1 (some.inj begins)
    · exact if_pos rfl
  unfold unbracketed
  rw [opened]
  dsimp only
  obtain rfl | ⟨blanks, rfl, -⟩ := closes
  · have ends : (left.tail ++ inner).getLast? = some (inner.getLast solid.1) := by
      rw [getLast?_append_of_ne_nil _ solid.1]
      exact getLast?_eq_some_getLast solid.1
    rw [append_nil, ends, if_neg]
    · exact (append_nil _).symm
    · exact fun closing => (solid.2 _ (getLast_mem solid.1)).2.2 (some.inj closing)
  · rw [← append_assoc, getLast?_concat, if_pos rfl, dropLast_concat,
      dropLast_concat]

/-- Brackets and blanks around a literal do not matter. -/
theorem trimmed_unbracketed {inner : List Char} (solid : IsSolid inner)
    (surrounds : Surrounds inner text) : trimmed (unbracketed (trimmed text)) = inner := by
  obtain ⟨before, opening, inside, inside', closing, behind, rfl, blanks, opens, closes⟩ := surrounds
  obtain ⟨⟨⟨beforeBlank, insideBlank⟩, insideBlank'⟩, behindBlank⟩ := by
    simpa only [mem_append, or_imp, forall_and] using blanks
  obtain ⟨front, left, split, frontBlank, isOpening⟩ : ∃ front left,
      before ++ opening ++ inside = front ++ left ∧ (∀ char ∈ front, isSpace char = true) ∧
        IsOpening left := by
    obtain rfl | rfl := opens
    · refine ⟨before ++ inside, [], by simp, fun char member => ?_, Or.inl rfl⟩
      exact (mem_append.mp member).elim (beforeBlank char) (insideBlank char)
    · exact ⟨before, '[' :: inside, by simp, beforeBlank, Or.inr ⟨inside, rfl, insideBlank⟩⟩
  obtain ⟨right, back, split', backBlank, isClosing⟩ : ∃ right back,
      inside' ++ closing ++ behind = right ++ back ∧ (∀ char ∈ back, isSpace char = true) ∧
        IsClosing right := by
    obtain rfl | rfl := closes
    · refine ⟨[], inside' ++ behind, by simp, fun char member => ?_, Or.inl rfl⟩
      exact (mem_append.mp member).elim (insideBlank' char) (behindBlank char)
    · exact ⟨inside' ++ [']'], behind, rfl, behindBlank, Or.inr ⟨inside', rfl, insideBlank'⟩⟩
  have whole : before ++ opening ++ inside ++ inner ++ inside' ++ closing ++ behind =
      front ++ (left ++ inner ++ right) ++ back := by
    rw [split, append_assoc (front ++ left ++ inner ++ inside'),
      append_assoc (front ++ left ++ inner), ← append_assoc inside', split']
    simp only [append_assoc]
  have begins : ∀ char, (left ++ inner ++ right).head? = some char → isSpace char = false := by
    intro char first
    obtain rfl | ⟨more, rfl, -⟩ := isOpening
    · obtain ⟨head, rest, rfl⟩ := exists_cons_of_ne_nil solid.1
      obtain rfl := some.inj first
      exact (solid.2 head mem_cons_self).1
    · obtain rfl := some.inj first
      decide
  have ends : ∀ char, (left ++ inner ++ right).getLast? = some char → isSpace char = false := by
    intro char last
    obtain rfl | ⟨more, rfl, -⟩ := isClosing
    · rw [append_nil, getLast?_append_of_ne_nil _ solid.1] at last
      exact (solid.2 char (mem_of_getLast? last)).1
    · rw [← append_assoc, getLast?_concat] at last
      obtain rfl := some.inj last
      decide
  have leftBlank : ∀ char ∈ left.tail, isSpace char = true := by
    obtain rfl | ⟨more, rfl, blank⟩ := isOpening
    · exact fun _ member => absurd member not_mem_nil
    · exact blank
  have rightBlank : ∀ char ∈ right.dropLast, isSpace char = true := by
    obtain rfl | ⟨more, rfl, blank⟩ := isClosing
    · exact fun _ member => absurd member not_mem_nil
    · rwa [dropLast_concat]
  rw [whole, Text.trimmed_between frontBlank backBlank begins ends,
    unbracketed_around solid isOpening isClosing]
  exact Text.trimmed_between leftBlank rightBlank
    (fun char first => (solid.2 char (mem_of_mem_head? first)).1)
    (fun char last => (solid.2 char (mem_of_getLast? last)).1)

/-! ### The class of a literal -/

/-- The numbers of an address are read out of each of its spellings. -/
theorem v6Groups_of_zoned {value inner : List Char} {address : Address}
    (bare : trimmed value = inner) (spells : SpellsZoned inner address.groups) :
    v6Groups value = some address.groups := by
  obtain ⟨text, zone, rfl, spells, is⟩ := spells
  have lower := lower_of_bare spells
  have marked : zone.map Char.toLower = [] ∨ ∃ name, zone.map Char.toLower = '%' :: name := by
    obtain rfl | ⟨name, rfl, -⟩ := is
    · exact Or.inl rfl
    · exact Or.inr ⟨name.map Char.toLower, rfl⟩
  have takes : isIPv6 (text.map Char.toLower) = true :=
    (isIPv6_iff _).mpr ⟨address, _, [], (append_nil _).symm, lower, Or.inl rfl⟩
  unfold v6Groups
  dsimp only
  rw [bare, map_append, (unzoned_append (chars_of_bare lower) marked).1, if_pos takes]
  exact groupsOf_of_spells address (spells_withoutDots lower address.eight)

theorem literalFamily_of_zoned {value inner : List Char} {address : Address}
    (bare : trimmed value = inner) (spells : SpellsZoned inner address.groups) :
    literalFamily value = some .v6 := by
  have takes := (isIPv6_iff inner).mpr ⟨address, spells⟩
  have other : ¬ isIPv4 inner = true := by
    rw [isIPv4_iff]
    rintro ⟨quad, dotted⟩
    obtain ⟨text, zone, rfl, spells, -⟩ := spells
    exact (isPiece_of_v4 dotted).2.2.2
      (mem_append_left _ (colon_of_bare spells address.eight))
  unfold literalFamily
  dsimp only
  rw [bare, if_neg other, if_pos takes]

/-- However an address is written, its class is that of its eight numbers. -/
theorem classifyAddress_of_writes {address : Address} (writes : Writes text address) :
    classifyAddress text = some (classifyV6 address.groups) := by
  obtain ⟨inner, surrounds, spells⟩ := writes
  have bare := trimmed_unbracketed (isSolid_of_zoned spells) surrounds
  unfold classifyAddress
  dsimp only
  rw [literalFamily_of_zoned bare spells]
  dsimp only
  rw [v6Groups_of_zoned bare spells]
  rfl

/-- An IPv4 address is classed by its four numbers. -/
theorem classifyAddress_of_v4 (spells : SpellsV4 text quad) :
    classifyAddress text = some (classifyV4 quad) := by
  obtain ⟨chars, -, some_, -⟩ := isPiece_of_v4 spells
  have solid : IsSolid text := by
    refine ⟨some_, fun char member => (literalChar_facts ?_).2⟩
    unfold isLiteralChar isHexDigit
    rcases chars char member with digit | rfl
    · rw [digit]
      rfl
    · decide
  have plain : trimmed text = text :=
    Text.trimmed_of_solid fun char member => (solid.2 char member).1
  have open_ : unbracketed text = text := by
    have around := @unbracketed_around [] text [] solid (Or.inl rfl) (Or.inl rfl)
    simpa using around
  have family : literalFamily text = some .v4 := by
    unfold literalFamily
    dsimp only
    rw [plain, if_pos ((isIPv4_iff text).mpr ⟨quad, spells⟩)]
  unfold classifyAddress
  dsimp only
  rw [plain, open_, family]
  dsimp only
  rw [(isDotted_of_v4 spells).2]

end Geeboard.Net

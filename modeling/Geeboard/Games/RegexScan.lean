/-
This file says which expressions the panel sees the structure of.

Where a class begins with its own closing bracket, the engine takes it for an empty class
and goes on, while the panel is still inside one. What stands before the next bracket that
is not escaped is hidden from the panel. Apart from that a text is passed over the same
way inside a class and outside of one: by escapes, by names, and by quantifiers.
-/

import Geeboard.Games.RegexPieces
import Mathlib

namespace Geeboard.Games.SafeRegex

open Text List Option

/-! ### Where the panel loses the engine -/

/-- Whether a text holds no piece up to the first bracket, of either kind, that is not escaped. In
a pattern with named groups, the name of a reference is none of it. -/
def hidesNothing (named : Bool) : Bool → List Char → Bool
  | _, [] => true
  | true, char :: rest => hidesNothing named (char != '>') rest
  | false, '\\' :: 'k' :: rest => hidesNothing named named rest
  | false, '\\' :: _ :: rest => hidesNothing named false rest
  | false, char :: rest =>
    if char = ']' || char = '[' then true
    else if ['(', ')', '|', '*', '+', '?'].contains char then false
    else (counted (char :: rest)).isNone && hidesNothing named false rest

/-- Whether a counted repeat has bounds that are finite numbers, apart from one left out. -/
def finite (source : List Char) : Bool :=
  match counted source with
  | some (_, some (digit :: digits), _) => (numberOf (digit :: digits)).isSome
  | _ => true

/-- Whether the panel sees the structure of a text: every bound that is written down is one it can
read, and no piece stands between a class that begins with its own bracket and the end of what
the panel takes for that class. -/
def wellSeen (named : Bool) : Bool → List Char → Bool
  | _, [] => true
  | inClass, '\\' :: _ :: rest => wellSeen named inClass rest
  | true, char :: rest => wellSeen named (char != ']') rest
  | false, '[' :: '^' :: ']' :: rest => hidesNothing named false rest && wellSeen named true rest
  | false, '[' :: ']' :: rest => hidesNothing named false rest && wellSeen named true rest
  | false, char :: rest => finite (char :: rest) && wellSeen named (char == '[') rest

/-- A text that all ways of reading on pass over. -/
structure Passes (named : Bool) (source rest : List Char) : Prop where
  inClass : afterClass source = afterClass rest
  hidden : hidesNothing named false source = hidesNothing named false rest
  seen : wellSeen named false source = wellSeen named false rest

theorem Passes.refl (named : Bool) (source : List Char) : Passes named source source :=
  ⟨rfl, rfl, rfl⟩

theorem Passes.trans {named : Bool} {first second third : List Char}
    (one : Passes named first second) (two : Passes named second third) :
    Passes named first third :=
  ⟨one.inClass.trans two.inClass, one.hidden.trans two.hidden, one.seen.trans two.seen⟩

theorem Passes.symm {named : Bool} {first second : List Char} (one : Passes named first second) :
    Passes named second first :=
  ⟨one.inClass.symm, one.hidden.symm, one.seen.symm⟩

theorem counted_of_ne (char : Char) (rest : List Char) (other : char ≠ '{') :
    counted (char :: rest) = none := by
  unfold counted
  split
  · next same => exact absurd (cons.inj same).1 other
  · rfl

theorem finite_of_counted (source : List Char) (none_ : counted source = none) :
    finite source = true := by
  unfold finite
  rw [none_]

theorem afterClass_cons (char : Char) (rest : List Char) (open_ : char ≠ ']')
    (bare : char ≠ '\\') : afterClass (char :: rest) = afterClass rest := by
  rw [afterClass]
  · exact open_
  · intro next more same
    exact absurd same bare

/-- The characters that stand for themselves wherever they stand. -/
def isOrdinary (char : Char) : Bool :=
  !(['\\', '*', '+', '?', '(', ')', '[', ']', '|'].contains char)

theorem ne_of_isOrdinary {char : Char} (ordinary : isOrdinary char) :
    ∀ other ∈ ['\\', '*', '+', '?', '(', ')', '[', ']', '|'], char ≠ other := by
  intro other member same
  rw [isOrdinary, same, contains_iff_mem.mpr member] at ordinary
  exact Bool.noConfusion ordinary

theorem hidesNothing_cons (named : Bool) (char : Char) (rest : List Char) (bare : char ≠ '\\') :
    hidesNothing named false (char :: rest) =
      if char = ']' || char = '[' then true
      else if ['(', ')', '|', '*', '+', '?'].contains char then false
      else (counted (char :: rest)).isNone && hidesNothing named false rest := by
  rw [hidesNothing]
  · exact fun _ same _ => bare same
  · exact fun _ _ same _ => bare same

theorem wellSeen_cons (named : Bool) (char : Char) (rest : List Char) (bare : char ≠ '\\')
    (open_ : char ≠ '[') :
    wellSeen named false (char :: rest) = (finite (char :: rest) && wellSeen named false rest) := by
  rw [wellSeen]
  · rw [beq_eq_false_iff_ne.mpr open_]
  · exact fun _ _ same _ => bare same
  · exact fun _ same _ => open_ same
  · exact fun _ same _ => open_ same

theorem passes_char (named : Bool) (char : Char) (rest : List Char) (ordinary : isOrdinary char)
    (single : counted (char :: rest) = none) : Passes named (char :: rest) rest := by
  have other := ne_of_isOrdinary ordinary
  have bare := other '\\' (by decide)
  constructor
  · exact afterClass_cons char rest (other ']' (by decide)) bare
  · rw [hidesNothing_cons named char rest bare, if_neg, if_neg, single]
    · exact Bool.true_and _
    · rw [contains_iff_mem]
      intro member
      have within : ∀ one ∈ ['(', ')', '|', '*', '+', '?'],
          one ∈ ['\\', '*', '+', '?', '(', ')', '[', ']', '|'] := by decide
      exact other char (within char member) rfl
    · rw [Bool.or_eq_true, decide_eq_true_eq, decide_eq_true_eq]
      exact fun same => same.elim (other ']' (by decide)) (other '[' (by decide))
  · rw [wellSeen_cons named char rest bare (other '[' (by decide)), finite_of_counted _ single,
      Bool.true_and]

theorem passes_escape (named : Bool) (next : Char) (rest : List Char)
    (plain : next = 'k' → named = false) : Passes named ('\\' :: next :: rest) rest := by
  refine ⟨rfl, ?_, rfl⟩
  by_cases reference : next = 'k'
  · rw [reference, plain reference]
    rfl
  · rw [hidesNothing]
    exact reference

theorem isOrdinary_of_isAlphanum {char : Char} (letter : char.isAlphanum) : isOrdinary char := by
  rw [isOrdinary, Bool.not_eq_true']
  rw [Bool.eq_false_iff]
  intro listed
  have plain : ∀ other ∈ ['\\', '*', '+', '?', '(', ')', '[', ']', '|'], ¬ other.isAlphanum := by
    decide
  exact plain char (contains_iff_mem.mp listed) letter

theorem ne_brace_of_isAlphanum {char : Char} (letter : char.isAlphanum) : char ≠ '{' := by
  rintro rfl
  exact absurd letter (by decide)

theorem passes_word (named : Bool) (word rest : List Char)
    (letters : ∀ char ∈ word, char.isAlphanum) : Passes named (word ++ rest) rest := by
  induction word with
  | nil => exact .refl named rest
  | cons char word ih =>
    obtain ⟨letter, letters⟩ := forall_mem_cons.mp letters
    exact (passes_char named char _ (isOrdinary_of_isAlphanum letter)
      (counted_of_ne char _ (ne_brace_of_isAlphanum letter))).trans (ih letters)

/-! ### Names -/

theorem isNameChar_ne {char : Char} (name : isNameChar char) :
    ∀ other ∈ ['\\', '*', '+', '?', '(', ')', '[', ']', '|', '>', ',', '=', '!'],
      char ≠ other := by
  have none_ : ∀ other ∈ ['\\', '*', '+', '?', '(', ')', '[', ']', '|', '>', ',', '=', '!'],
      isNameChar other = false := by decide
  rintro other member rfl
  rw [none_ char member] at name
  exact Bool.noConfusion name

/-- A name, and what ends it, around the text that follows. -/
theorem afterName_split (source rest : List Char) (read : afterName source = some rest) :
    ∃ name, source = name ++ '>' :: rest ∧ name ≠ [] ∧ isName name := by
  unfold afterName at read
  rw [span_eq_takeWhile_dropWhile] at read
  have whole := takeWhile_append_dropWhile (p := (· != '>')) (l := source)
  split at read
  · next name after same =>
    obtain ⟨first, second⟩ := Prod.mk.inj same
    split at read
    · cases read
    · next named =>
      obtain rfl := some.inj read
      rw [first, second] at whole
      rw [Bool.or_eq_true, not_or, Bool.not_eq_true', Bool.not_eq_false] at named
      refine ⟨name, whole.symm, ?_, named.2⟩
      rintro rfl
      exact named.1 rfl
  · cases read

/-- No comma comes after the digits a name goes on with. -/
theorem dropWhile_name (name rest : List Char) (named : isName name) :
    ∀ more, (name ++ '>' :: rest).dropWhile Char.isDigit ≠ ',' :: more := by
  induction name with
  | nil => exact fun more same => absurd (cons.inj same).1 (by decide)
  | cons char name ih =>
    intro more
    rw [cons_append, dropWhile_cons]
    split
    · next digit =>
      refine ih ?_ more
      have bare : char ≠ '\\' := by
        rintro rfl
        exact absurd digit (by decide)
      rw [isName] at named
      · exact (Bool.and_eq_true_iff.mp named).2
      · exact fun _ same _ => bare same
    · intro same
      obtain rfl := (cons.inj same).1
      rw [isName] at named
      · exact absurd (Bool.and_eq_true_iff.mp named).1 (by decide)
      · exact fun _ same _ => absurd same (by decide)

theorem finite_name (char : Char) (name rest : List Char) (named : isName name) :
    finite (char :: (name ++ '>' :: rest)) = true := by
  unfold finite
  split
  · next least digit digits after read =>
    unfold counted at read
    split at read
    · next source same =>
      obtain ⟨-, rfl⟩ := cons.inj same
      dsimp only at read
      split at read
      · cases read
      split at read
      · cases read
      · next more left =>
        exact absurd left (dropWhile_name name rest named more)
      · cases read
    · cases read
  · rfl

theorem afterClass_name (name rest : List Char) (named : isName name) :
    afterClass (name ++ '>' :: rest) = afterClass rest := by
  fun_induction isName name with
  | case1 => exact afterClass_cons _ _ (by decide) (by decide)
  | case2 name ih => exact ih named
  | case3 char name _ ih =>
    obtain ⟨letter, named⟩ := Bool.and_eq_true_iff.mp named
    have other := isNameChar_ne letter
    rw [cons_append, afterClass_cons char _ (other ']' (by decide)) (other '\\' (by decide))]
    exact ih named

theorem wellSeen_name (mentions : Bool) (name rest : List Char) (named : isName name) :
    wellSeen mentions false (name ++ '>' :: rest) = wellSeen mentions false rest := by
  fun_induction isName name with
  | case1 =>
    exact (passes_char mentions '>' rest (by decide) (counted_of_ne _ _ (by decide))).seen
  | case2 name ih => exact ih named
  | case3 char name _ ih =>
    obtain ⟨letter, named⟩ := Bool.and_eq_true_iff.mp named
    have other := isNameChar_ne letter
    rw [cons_append, wellSeen_cons _ char _ (other '\\' (by decide)) (other '[' (by decide)),
      finite_name char name rest named, Bool.true_and]
    exact ih named

theorem hidesNothing_name (mentions : Bool) (name rest : List Char) (named : isName name) :
    hidesNothing mentions true (name ++ '>' :: rest) = hidesNothing mentions false rest := by
  fun_induction isName name with
  | case1 => rfl
  | case2 name ih => exact ih named
  | case3 char name _ ih =>
    obtain ⟨letter, named⟩ := Bool.and_eq_true_iff.mp named
    rw [cons_append, hidesNothing, bne_iff_ne.mpr (isNameChar_ne letter '>' (by decide))]
    exact ih named

/-- The panel finds the end of a name where the engine does. -/
theorem dropWhile_bracket (name rest : List Char) (named : isName name) :
    (name ++ '>' :: rest).dropWhile (· != '>') = '>' :: rest := by
  fun_induction isName name with
  | case1 => rfl
  | case2 name ih => exact ih named
  | case3 char name _ ih =>
    obtain ⟨letter, named⟩ := Bool.and_eq_true_iff.mp named
    rw [cons_append, dropWhile_cons, if_pos]
    · exact ih named
    · exact bne_iff_ne.mpr (isNameChar_ne letter '>' (by decide))

/-! ### Quantifiers -/

/-- What a counted repeat is written with. -/
theorem counted_split (source least rest : List Char) (most : Option (List Char))
    (braces : counted source = some (least, most, rest)) :
    ∃ text, source = '{' :: (text ++ '}' :: rest) ∧ ∀ char ∈ text, char.isDigit ∨ char = ',' := by
  unfold counted at braces
  split at braces
  · next inner =>
    have whole := takeWhile_append_dropWhile (p := Char.isDigit) (l := inner)
    have digits : ∀ char ∈ inner.takeWhile Char.isDigit, char.isDigit :=
      fun char member => (mem_takeWhile_imp member)
    dsimp only at braces
    split at braces
    · cases braces
    split at braces
    · next after left =>
      obtain ⟨rfl, rfl, rfl⟩ := by simpa using braces
      rw [left] at whole
      exact ⟨_, by rw [whole], fun char member => Or.inl (digits char member)⟩
    · next more left =>
      split at braces
      · next after ends =>
        obtain ⟨rfl, rfl, rfl⟩ := by simpa using braces
        have second := takeWhile_append_dropWhile (p := Char.isDigit) (l := more)
        rw [ends] at second
        rw [left, ← second] at whole
        refine ⟨inner.takeWhile Char.isDigit ++ ',' :: more.takeWhile Char.isDigit, ?_, ?_⟩
        · rw [append_assoc, cons_append, whole]
        · intro char member
          obtain least | most := mem_append.mp member
          · exact Or.inl (digits char least)
          · obtain rfl | most := mem_cons.mp most
            · exact Or.inr rfl
            · exact Or.inl (mem_takeWhile_imp most)
      · cases braces
    · cases braces
  · cases braces

/-- A quantifier at the front of a text, and what follows it. -/
structure Skips (named : Bool) (source rest : List Char) : Prop where
  inClass : afterClass source = afterClass rest
  hidden : hidesNothing named false source = false
  seen : wellSeen named false source = (finite source && wellSeen named false rest)
  shorter : rest.length < source.length

theorem passes_counted (named : Bool) (text rest : List Char)
    (plain : ∀ char ∈ text, char.isDigit ∨ char = ',') :
    Passes named (text ++ '}' :: rest) rest := by
  induction text with
  | nil => exact passes_char named '}' rest (by decide) (counted_of_ne _ _ (by decide))
  | cons char text ih =>
    obtain ⟨here, plain⟩ := forall_mem_cons.mp plain
    refine Passes.trans ?_ (ih plain)
    obtain digit | rfl := here
    · have letter : char.isAlphanum := by rw [Char.isAlphanum, digit, Bool.or_true]
      exact passes_char named char _ (isOrdinary_of_isAlphanum letter)
        (counted_of_ne _ _ (ne_brace_of_isAlphanum letter))
    · exact passes_char named ',' _ (by decide) (counted_of_ne _ _ (by decide))

theorem skips_counted (named : Bool) (source least rest : List Char) (most : Option (List Char))
    (braces : counted source = some (least, most, rest)) : Skips named source rest := by
  obtain ⟨text, rfl, plain⟩ := counted_split source least rest most braces
  have after := passes_counted named text rest plain
  constructor
  · rw [afterClass_cons _ _ (by decide) (by decide)]
    exact after.inClass
  · rw [hidesNothing_cons _ _ _ (by decide), braces]
    rfl
  · rw [wellSeen_cons _ _ _ (by decide) (by decide), after.seen]
  · simp only [length_cons, length_append]
    omega

theorem skips_mark (named : Bool) (char : Char) (rest : List Char) (mark : char ∈ ['*', '+', '?']) :
    Skips named (char :: rest) rest := by
  have other : char ≠ ']' ∧ char ≠ '\\' ∧ char ≠ '[' := by
    constructor
    · rintro rfl
      exact absurd mark (by decide)
    · constructor <;> rintro rfl <;> exact absurd mark (by decide)
  obtain ⟨open_, bare, class_⟩ := other
  constructor
  · exact afterClass_cons char rest open_ bare
  · rw [hidesNothing_cons _ _ _ bare, if_neg, if_pos]
    · rw [contains_iff_mem]
      have within : ∀ one ∈ ['*', '+', '?'], one ∈ ['(', ')', '|', '*', '+', '?'] := by decide
      exact within char mark
    · rw [Bool.or_eq_true, decide_eq_true_eq, decide_eq_true_eq]
      exact fun same => same.elim open_ class_
  · exact wellSeen_cons _ _ _ bare class_
  · exact Nat.lt_succ_self _

theorem skips_repeats (named : Bool) (source rest : List Char) (quant : Quantifier)
    (repeated : Repeats source quant rest) : Skips named source rest := by
  cases repeated with
  | star => exact skips_mark named _ _ (by decide)
  | plus => exact skips_mark named _ _ (by decide)
  | optional => exact skips_mark named _ _ (by decide)
  | exactly _ least _ braces => exact skips_counted named _ _ _ _ braces
  | atLeast _ least _ braces => exact skips_counted named _ _ _ _ braces
  | between _ least _ most braces => exact skips_counted named _ _ _ _ braces

/-- A quantifier with the mark that makes it lazy is passed over the same way. -/
theorem skips_quantified (named : Bool) (source rest : List Char) (quant : Quantifier)
    (repeated : Quantified source (some quant) rest) : Skips named source rest := by
  cases repeated with
  | greedy _ _ repeated => exact skips_repeats named source rest quant repeated
  | lazy _ _ repeated =>
    have first := skips_repeats named source _ quant repeated
    have second := skips_mark named '?' rest (by decide)
    refine ⟨first.inClass.trans second.inClass, first.hidden, ?_,
      second.shorter.trans first.shorter⟩
    rw [first.seen, second.seen, finite_of_counted ('?' :: rest) (counted_of_ne _ _ (by decide)),
      Bool.true_and]

theorem length_quantified (source rest : List Char) (quant : Option Quantifier)
    (repeated : Quantified source quant rest) : rest.length ≤ source.length := by
  cases quant with
  | none => cases repeated; exact Nat.le_refl _
  | some quant => exact (skips_quantified false source rest quant repeated).shorter.le

/-- What begins as a quantifier does. -/
def StartsQuantifier (source : List Char) : Prop :=
  (∃ char ∈ ['*', '+', '?'], source.head? = some char) ∨ counted source ≠ none

theorem startsQuantifier_of_repeats (source rest : List Char) (quant : Quantifier)
    (repeated : Repeats source quant rest) : StartsQuantifier source := by
  cases repeated with
  | star => exact Or.inl ⟨'*', by decide, rfl⟩
  | plus => exact Or.inl ⟨'+', by decide, rfl⟩
  | optional => exact Or.inl ⟨'?', by decide, rfl⟩
  | exactly _ least _ braces => exact Or.inr (by rw [braces]; exact some_ne_none _)
  | atLeast _ least _ braces => exact Or.inr (by rw [braces]; exact some_ne_none _)
  | between _ least _ most braces => exact Or.inr (by rw [braces]; exact some_ne_none _)

theorem startsQuantifier_of_quantified (source rest : List Char) (quant : Quantifier)
    (repeated : Quantified source (some quant) rest) : StartsQuantifier source := by
  cases repeated with
  | greedy _ _ repeated => exact startsQuantifier_of_repeats _ _ _ repeated
  | lazy _ _ repeated => exact startsQuantifier_of_repeats _ _ _ repeated

theorem not_startsQuantifier (char : Char) (rest : List Char) (other : char ∉ ['*', '+', '?'])
    (single : counted (char :: rest) = none) : ¬ StartsQuantifier (char :: rest) := by
  rintro (⟨mark, member, same⟩ | braces)
  · exact other (some.inj same ▸ member)
  · exact braces single

/-- No piece of the grammar starts with what a quantifier starts with. -/
theorem not_startsQuantifier_of_walks (ctx : PatternContext) (source : List Char)
    (more : List Piece) (walks : Walks (engine ctx) source more) : ¬ StartsQuantifier source := by
  cases walks with
  | finished =>
    rintro (⟨mark, member, same⟩ | braces)
    · exact nomatch same
    · exact braces rfl
  | bar => exact not_startsQuantifier _ _ (by decide) (counted_of_ne _ _ (by decide))
  | opening => exact not_startsQuantifier _ _ (by decide) (counted_of_ne _ _ (by decide))
  | closing => exact not_startsQuantifier _ _ (by decide) (counted_of_ne _ _ (by decide))
  | atom _ rest quant more atom =>
    obtain ⟨text, ⟨atom, -⟩ | ⟨asserts, -, -⟩⟩ := atom
    · cases atom with
      | char char _ plain single =>
        refine not_startsQuantifier char _ ?_ ?_
        · intro member
          have marks : ∀ one ∈ ['*', '+', '?'], isPlain one = false := by decide
          rw [marks char member] at plain
          exact Bool.noConfusion plain
        · by_cases brace : char = '{'
          · exact single brace
          · exact counted_of_ne char _ brace
      | escape => exact not_startsQuantifier _ _ (by decide) (counted_of_ne _ _ (by decide))
      | charClass => exact not_startsQuantifier _ _ (by decide) (counted_of_ne _ _ (by decide))
    · cases asserts <;> exact not_startsQuantifier _ _ (by decide) (counted_of_ne _ _ (by decide))

/-! ### Escapes -/

theorem isAlphanum_of_isDigit {char : Char} (digit : char.isDigit) : char.isAlphanum := by
  rw [Char.isAlphanum, digit, Bool.or_true]

theorem isAlphanum_of_isHex {char : Char} (hex : isHex char) : char.isAlphanum := by
  simp only [isHex, Bool.or_eq_true, Bool.and_eq_true, decide_eq_true_eq] at hex
  simp only [Char.isAlphanum, Char.isAlpha, Char.isUpper, Char.isLower, Bool.or_eq_true,
    Bool.and_eq_true, decide_eq_true_eq]
  obtain (digit | lower) | upper := hex
  · exact Or.inr digit
  · exact Or.inl (Or.inr ⟨lower.1, Nat.le_trans lower.2 (by decide)⟩)
  · exact Or.inl (Or.inl ⟨upper.1, Nat.le_trans upper.2 (by decide)⟩)

theorem isAlphanum_of_isOctal {char : Char} (octal : isOctal char) : char.isAlphanum := by
  rw [isOctal, Bool.and_eq_true, decide_eq_true_eq, decide_eq_true_eq] at octal
  refine isAlphanum_of_isDigit ?_
  rw [Char.isDigit, Bool.and_eq_true, decide_eq_true_eq, decide_eq_true_eq]
  exact ⟨octal.1, Nat.le_trans octal.2 (by decide)⟩

/-- A text is letters and digits in front of another. -/
def WordBefore (source rest : List Char) : Prop :=
  ∃ word, source = word ++ rest ∧ ∀ char ∈ word, char.isAlphanum

theorem wordBefore_refl (source : List Char) : WordBefore source source :=
  ⟨[], rfl, fun _ member => absurd member not_mem_nil⟩

theorem wordBefore_afterHex (count : Nat) (source : List Char) :
    WordBefore source (afterHex count source) := by
  unfold afterHex
  split
  · next hex =>
    rw [Bool.and_eq_true, List.all_eq_true] at hex
    exact ⟨source.take count, (take_append_drop count source).symm,
      fun char member => isAlphanum_of_isHex (hex.2 char member)⟩
  · exact wordBefore_refl source

theorem wordBefore_afterOctal (most : Nat) (source : List Char) :
    WordBefore source (afterOctal most source) := by
  fun_induction afterOctal most source with
  | case1 most digit rest octal ih =>
    obtain ⟨word, split, letters⟩ := ih
    exact ⟨digit :: word, congrArg (digit :: ·) split,
      forall_mem_cons.mpr ⟨isAlphanum_of_isOctal octal, letters⟩⟩
  | case2 most digit rest octal => exact wordBefore_refl _
  | case3 most source => exact wordBefore_refl _

theorem wordBefore_afterDigit (ctx : PatternContext) (digit : Char) (rest : List Char) :
    WordBefore rest (afterDigit ctx digit rest) := by
  unfold afterDigit
  split
  · exact ⟨rest.takeWhile Char.isDigit, takeWhile_append_dropWhile.symm,
      fun char member => isAlphanum_of_isDigit (mem_takeWhile_imp member)⟩
  split
  · exact wordBefore_afterOctal 2 rest
  split
  · exact wordBefore_afterOctal 1 rest
  · exact wordBefore_refl rest

/-- What an escape takes: the letters and digits after its first character, or the backslash alone,
or a name. -/
theorem afterEscape_cases (ctx : PatternContext) (next : Char) (rest after : List Char)
    (read : afterEscape ctx (next :: rest) = some after) :
    ((next = 'k' → ctx.named = false) ∧ WordBefore rest after) ∨
      (next = 'c' ∧ after = 'c' :: rest) ∨
      (next = 'k' ∧ ctx.named = true ∧
        ∃ inner, rest = '<' :: inner ∧ afterName inner = some after) := by
  unfold afterEscape at read
  split at read
  · next same => cases same
  · next letter rest same =>
    obtain ⟨rfl, rfl⟩ := cons.inj same
    split at read
    · next alpha =>
      obtain rfl := some.inj read
      refine Or.inl ⟨fun other => absurd other (by decide), [letter], rfl, ?_⟩
      refine forall_mem_singleton.mpr ?_
      rw [Char.isAlphanum, alpha, Bool.true_or]
    · exact Or.inr (Or.inl ⟨rfl, (some.inj read).symm⟩)
  · next same =>
    obtain ⟨rfl, rfl⟩ := cons.inj same
    exact Or.inr (Or.inl ⟨rfl, (some.inj read).symm⟩)
  · next same =>
    obtain ⟨rfl, rfl⟩ := cons.inj same
    obtain rfl := some.inj read
    exact Or.inl ⟨fun other => absurd other (by decide), wordBefore_afterHex 2 rest⟩
  · next same =>
    obtain ⟨rfl, rfl⟩ := cons.inj same
    obtain rfl := some.inj read
    exact Or.inl ⟨fun other => absurd other (by decide), wordBefore_afterHex 4 rest⟩
  · next same =>
    obtain ⟨rfl, rfl⟩ := cons.inj same
    split at read
    · next named =>
      split at read
      · next inner => exact Or.inr (Or.inr ⟨rfl, named, inner, rfl, read⟩)
      · cases read
    · next named =>
      obtain rfl := some.inj read
      exact Or.inl ⟨fun _ => Bool.eq_false_iff.mpr named, wordBefore_refl _⟩
  · next char rest _ _ _ _ reference same =>
    obtain ⟨rfl, rfl⟩ := cons.inj same
    refine Or.inl ⟨fun other => absurd other reference, ?_⟩
    split at read
    · obtain rfl := some.inj read
      exact wordBefore_afterDigit ctx next rest
    · obtain rfl := some.inj read
      exact wordBefore_refl rest

/-- All ways of reading on pass over an escape. -/
theorem passes_afterEscape (ctx : PatternContext) (next : Char) (rest after : List Char)
    (read : afterEscape ctx (next :: rest) = some after) :
    Passes ctx.named ('\\' :: next :: rest) after := by
  obtain ⟨plain, word, rfl, letters⟩ | ⟨rfl, rfl⟩ | ⟨rfl, named, inner, rfl, name⟩ :=
    afterEscape_cases ctx next rest after read
  · exact (passes_escape _ next _ plain).trans (passes_word _ word after letters)
  · exact (passes_escape _ 'c' rest (fun other => absurd other (by decide))).trans
      (passes_char _ 'c' rest (by decide) (counted_of_ne _ _ (by decide))).symm
  · obtain ⟨text, rfl, -, spelled⟩ := afterName_split inner after name
    rw [named]
    constructor
    · exact (afterClass_cons '<' _ (by decide) (by decide)).trans
        (afterClass_name text after spelled)
    · exact hidesNothing_name true text after spelled
    · have mark := passes_char true '<' (text ++ '>' :: after) (by decide)
        (counted_of_ne _ _ (by decide))
      exact mark.seen.trans (wellSeen_name true text after spelled)

end Geeboard.Games.SafeRegex

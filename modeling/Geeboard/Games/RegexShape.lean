/-
This file compares the two readers of an expression, the engine's and the panel's.

They walk over a text together and find the same pieces, except where a class begins with
its own closing bracket, and for a bound that is too big a number. Behind an empty class
the engine finds the pieces the panel takes for characters of the class. The two meet
again at the next bracket that is not escaped.
-/

import Geeboard.Games.RegexScan

namespace Geeboard.Games.SafeRegex

open Systems Text List Option

/-! ### One quantifier -/

theorem decimal_of_numberOf (digits : List Char) (value : Nat)
    (read : numberOf digits = some value) (small : value ≤ MAX_COUNT) : value = decimal digits := by
  refine eq_of_wholeDouble _ _ read ?_
  have bound : MAX_COUNT < 2 ^ 52 := by decide
  omega

theorem quantifierPrefix_counted (source least rest : List Char) (most : Option (List Char))
    (braces : counted source = some (least, most, rest)) :
    quantifierPrefix source = (do return (some (← countedBounds least most), rest)) := by
  obtain ⟨text, rfl, -⟩ := counted_split source least rest most braces
  unfold quantifierPrefix
  split
  · next same => exact absurd (cons.inj same).1 (by decide)
  · next same => exact absurd (cons.inj same).1 (by decide)
  · next same => exact absurd (cons.inj same).1 (by decide)
  · rw [braces]

theorem bounds_of_ok (first second : Unsafe) (min : Nat) (max : Option Nat) (quant : Quantifier)
    (bounds : (if MAX_COUNT < min || max.any (MAX_COUNT < ·) then .error first
      else if max.any (· < min) then .error second else .ok ⟨min, max⟩ : Except Unsafe Quantifier) =
        .ok quant) :
    quant = ⟨min, max⟩ ∧ min ≤ MAX_COUNT ∧ ∀ value, max = some value → value ≤ MAX_COUNT := by
  split at bounds
  · cases bounds
  · next small =>
    split at bounds
    · cases bounds
    · rw [Bool.or_eq_true, not_or, decide_eq_true_eq] at small
      refine ⟨(Except.ok.inj bounds).symm, Nat.le_of_not_lt small.1, ?_⟩
      rintro value rfl
      have bounded := small.2
      rw [any_some, decide_eq_true_eq] at bounded
      exact Nat.le_of_not_lt bounded

theorem numberOf_of_ok (least : List Char) (most : Option (List Char)) (quant : Quantifier)
    (bounds : countedBounds least most = .ok quant) : ∃ min, numberOf least = some min := by
  cases found : numberOf least with
  | some min => exact ⟨min, rfl⟩
  | none =>
    unfold countedBounds at bounds
    rw [found] at bounds
    cases bounds

theorem countedBounds_exactly (least : List Char) (quant : Quantifier)
    (bounds : countedBounds least none = .ok quant) :
    quant = ⟨decimal least, some (decimal least)⟩ := by
  obtain ⟨min, read⟩ := numberOf_of_ok least none quant bounds
  unfold countedBounds at bounds
  simp only [read] at bounds
  obtain ⟨rfl, small, -⟩ := bounds_of_ok _ _ min (some min) quant bounds
  rw [decimal_of_numberOf least min read small]

theorem countedBounds_atLeast (least : List Char) (quant : Quantifier)
    (bounds : countedBounds least (some []) = .ok quant) : quant = ⟨decimal least, none⟩ := by
  obtain ⟨min, read⟩ := numberOf_of_ok least (some []) quant bounds
  unfold countedBounds at bounds
  simp only [read] at bounds
  obtain ⟨rfl, small, -⟩ := bounds_of_ok _ _ min none quant bounds
  rw [decimal_of_numberOf least min read small]

/-- The second bound the panel reads is the one written when it is one that can be read. -/
theorem countedBounds_between (least : List Char) (digit : Char) (digits : List Char)
    (quant : Quantifier) (bounds : countedBounds least (some (digit :: digits)) = .ok quant) :
    quant =
      ⟨decimal least, (numberOf (digit :: digits)).map fun _ => decimal (digit :: digits)⟩ := by
  obtain ⟨min, read⟩ := numberOf_of_ok least _ quant bounds
  unfold countedBounds at bounds
  simp only [read] at bounds
  obtain ⟨rfl, small, within⟩ := bounds_of_ok _ _ min (numberOf (digit :: digits)) quant bounds
  rw [decimal_of_numberOf least min read small]
  cases found : numberOf (digit :: digits) with
  | none => rfl
  | some value =>
    rw [decimal_of_numberOf _ value found (within value found)]
    rfl

theorem finite_open (source least rest : List Char) (most : Option (List Char))
    (braces : counted source = some (least, most, rest)) (open_ : most = none ∨ most = some []) :
    finite source = true := by
  unfold finite
  rw [braces]
  obtain rfl | rfl := open_ <;> rfl

theorem finite_between (source least rest : List Char) (digit : Char) (digits : List Char)
    (braces : counted source = some (least, some (digit :: digits), rest)) :
    finite source = (numberOf (digit :: digits)).isSome := by
  unfold finite
  rw [braces]

/-- Where the grammar reads a quantifier, the panel reads one that ends there. It is the same one
unless its bound is too big a number. -/
theorem quantifierPrefix_repeats (source rest left : List Char) (quant : Quantifier)
    (found : Option Quantifier) (repeated : Repeats source quant rest)
    (read : quantifierPrefix source = .ok (found, left)) :
    left = rest ∧ ∃ seen, found = some seen ∧ (seen = quant ↔ finite source = true) := by
  have marked : ∀ char after, source = char :: after → char ≠ '{' → finite source = true := by
    rintro char after rfl other
    exact finite_of_counted _ (counted_of_ne char after other)
  cases repeated with
  | star =>
    obtain ⟨rfl, rfl⟩ := Prod.mk.inj (Except.ok.inj read)
    exact ⟨rfl, _, rfl, fun _ => marked _ _ rfl (by decide), fun _ => rfl⟩
  | plus =>
    obtain ⟨rfl, rfl⟩ := Prod.mk.inj (Except.ok.inj read)
    exact ⟨rfl, _, rfl, fun _ => marked _ _ rfl (by decide), fun _ => rfl⟩
  | optional =>
    obtain ⟨rfl, rfl⟩ := Prod.mk.inj (Except.ok.inj read)
    exact ⟨rfl, _, rfl, fun _ => marked _ _ rfl (by decide), fun _ => rfl⟩
  | exactly _ least _ braces =>
    rw [quantifierPrefix_counted _ _ _ _ braces] at read
    obtain ⟨seen, bounds, same⟩ := ok_of_bind read
    obtain ⟨rfl, rfl⟩ := Prod.mk.inj (Except.ok.inj same)
    exact ⟨rfl, seen, rfl, fun _ => finite_open _ _ _ _ braces (Or.inl rfl),
      fun _ => countedBounds_exactly least seen bounds⟩
  | atLeast _ least _ braces =>
    rw [quantifierPrefix_counted _ _ _ _ braces] at read
    obtain ⟨seen, bounds, same⟩ := ok_of_bind read
    obtain ⟨rfl, rfl⟩ := Prod.mk.inj (Except.ok.inj same)
    exact ⟨rfl, seen, rfl, fun _ => finite_open _ _ _ _ braces (Or.inr rfl),
      fun _ => countedBounds_atLeast least seen bounds⟩
  | between _ least _ most braces given =>
    rw [quantifierPrefix_counted _ _ _ _ braces] at read
    obtain ⟨seen, bounds, same⟩ := ok_of_bind read
    obtain ⟨rfl, rfl⟩ := Prod.mk.inj (Except.ok.inj same)
    obtain ⟨digit, digits, rfl⟩ := exists_cons_of_ne_nil given
    refine ⟨rfl, seen, rfl, ?_⟩
    rw [finite_between _ _ _ _ _ braces, countedBounds_between least digit digits seen bounds,
      Quantifier.mk.injEq]
    cases numberOf (digit :: digits) with
    | none => exact ⟨fun same => absurd same.2 nofun, fun same => Bool.noConfusion same⟩
    | some value => exact ⟨fun _ => rfl, fun _ => ⟨rfl, rfl⟩⟩

theorem quantifierPrefix_none (source : List Char) (bare : ¬ StartsQuantifier source) :
    quantifierPrefix source = .ok (none, source) := by
  rw [StartsQuantifier, not_or, not_not] at bare
  obtain ⟨mark, single⟩ := bare
  unfold quantifierPrefix
  split
  · exact absurd ⟨'*', by decide, rfl⟩ mark
  · exact absurd ⟨'+', by decide, rfl⟩ mark
  · exact absurd ⟨'?', by decide, rfl⟩ mark
  · rw [single]

theorem parseQuantifier_none (source : List Char) (bare : ¬ StartsQuantifier source) :
    parseQuantifier source = .ok (none, source) := by
  unfold parseQuantifier
  rw [quantifierPrefix_none source bare]
  rfl

/-- A quantifier the panel reads, with the lazy mark after it if there is one. -/
theorem parseQuantifier_some (source left rest : List Char) (seen : Quantifier)
    (found : Option Quantifier) (first : quantifierPrefix source = .ok (some seen, left))
    (read : parseQuantifier source = .ok (found, rest)) :
    found = some seen ∧ (left = '?' :: rest ∨ (left = rest ∧ ∀ more, left ≠ '?' :: more)) := by
  unfold parseQuantifier at read
  rw [first] at read
  obtain ⟨pair, same, read⟩ := ok_of_bind read
  obtain rfl := Except.ok.inj same
  dsimp only at read
  split at read
  · next more =>
    split at read
    · cases read
    · obtain ⟨rfl, rfl⟩ := Prod.mk.inj (Except.ok.inj read)
      exact ⟨rfl, Or.inl rfl⟩
  · next other =>
    split at read
    · cases read
    · obtain ⟨rfl, rfl⟩ := Prod.mk.inj (Except.ok.inj read)
      exact ⟨rfl, Or.inr ⟨rfl, fun more same => other more same⟩⟩

/-- Where the grammar reads a quantifier or none, so does the panel, up to the same place. -/
theorem parseQuantifier_quantified (source rest left : List Char)
    (quant found : Option Quantifier) (repeated : Quantified source quant rest)
    (after : ¬ StartsQuantifier rest) (read : parseQuantifier source = .ok (found, left)) :
    left = rest ∧ found.isSome = quant.isSome ∧ (found = quant ↔ finite source = true) := by
  have lazyMark : ∀ more, rest ≠ '?' :: more := by
    rintro more rfl
    exact after (Or.inl ⟨'?', by decide, rfl⟩)
  cases repeated with
  | once =>
    rw [parseQuantifier_none source after] at read
    obtain ⟨rfl, rfl⟩ := Prod.mk.inj (Except.ok.inj read)
    rw [StartsQuantifier, not_or, not_not] at after
    exact ⟨rfl, rfl, fun _ => finite_of_counted _ after.2, fun _ => rfl⟩
  | greedy _ quant repeated =>
    obtain ⟨⟨first, middle⟩, here, -⟩ := ok_of_bind read
    obtain ⟨rfl, seen, rfl, same⟩ :=
      quantifierPrefix_repeats source rest middle quant first repeated here
    obtain ⟨rfl, mark | ⟨rfl, -⟩⟩ := parseQuantifier_some source middle left seen found here read
    · exact absurd mark (lazyMark left)
    · exact ⟨rfl, rfl, by rw [some_inj]; exact same⟩
  | lazy _ quant repeated =>
    obtain ⟨⟨first, middle⟩, here, -⟩ := ok_of_bind read
    obtain ⟨rfl, seen, rfl, same⟩ :=
      quantifierPrefix_repeats source ('?' :: rest) middle quant first repeated here
    obtain ⟨rfl, mark | ⟨-, greedy⟩⟩ := parseQuantifier_some source _ left seen found here read
    · exact ⟨(cons.inj mark).2.symm, rfl, by rw [some_inj]; exact same⟩
    · exact absurd rfl (greedy rest)

theorem wellSeen_quantified (named : Bool) (source rest : List Char) (quant : Option Quantifier)
    (repeated : Quantified source quant rest) (after : ¬ StartsQuantifier rest) :
    wellSeen named false source = (finite source && wellSeen named false rest) := by
  cases quant with
  | none =>
    cases repeated
    rw [StartsQuantifier, not_or, not_not] at after
    rw [finite_of_counted _ after.2, Bool.true_and]
  | some quant => exact (skips_quantified named source rest quant repeated).seen

/-! ### Both readers together -/

/-- The pieces two readers find in a text: the same ones just where the panel sees it well, and the
panel never finds more. -/
structure Alike (named : Bool) (source : List Char) (seen found : List Piece) : Prop where
  same_iff : seen = found ↔ wellSeen named false source = true
  fewer : seen.length ≤ found.length

theorem Alike.of_passes {named : Bool} {source rest : List Char} {seen found : List Piece}
    (alike : Alike named rest seen found)
    (passes : wellSeen named false source = wellSeen named false rest) :
    Alike named source seen found :=
  ⟨by rw [passes]; exact alike.same_iff, alike.fewer⟩

/-- What carries a quantifier adds one piece to both, or none. -/
theorem Alike.quantified {named : Bool} {source rest : List Char} {seen found : List Piece}
    {seenQuant quant : Option Quantifier} (alike : Alike named rest seen found)
    (piece : Option Quantifier → List Piece)
    (sized : (piece seenQuant).length = (piece quant).length)
    (same : piece seenQuant = piece quant ↔ finite source = true)
    (read : wellSeen named false source = (finite source && wellSeen named false rest)) :
    Alike named source (piece seenQuant ++ seen) (piece quant ++ found) := by
  constructor
  · rw [read, Bool.and_eq_true, ← alike.same_iff, ← same]
    exact ⟨fun equal => append_inj equal sized, fun both => by rw [both.1, both.2]⟩
  · rw [length_append, length_append, sized]
    exact Nat.add_le_add_left alike.fewer _

theorem atomPiece_alike {first second : Option Quantifier} (both : first.isSome = second.isSome) :
    (atomPiece first).length = (atomPiece second).length ∧
      (atomPiece first = atomPiece second ↔ first = second) := by
  cases first with
  | none =>
    cases second with
    | none => exact ⟨rfl, Iff.rfl.trans ⟨fun _ => rfl, fun _ => rfl⟩⟩
    | some quant => exact Bool.noConfusion both
  | some quant =>
    cases second with
    | none => exact Bool.noConfusion both
    | some other =>
      refine ⟨rfl, fun same => ?_, fun same => by rw [same]⟩
      rw [Piece.atom.inj (cons.inj same).1]

/-- What a reader finds from behind the text of an atom. -/
def After (reader : Reader) (text : List Char) (found : List Piece) : Prop :=
  ∃ quant rest more, reader.repeated text quant rest ∧ Walks reader rest more ∧
    found = atomPiece quant ++ more

theorem after_alike (ctx : PatternContext) (text : List Char) (seen found : List Piece)
    (ours : After panel text seen) (theirs : After (engine ctx) text found)
    (shorter : ∀ rest : List Char, rest.length ≤ text.length → ∀ seen found, Walks panel rest seen →
      Walks (engine ctx) rest found → Alike ctx.named rest seen found) :
    Alike ctx.named text seen found := by
  obtain ⟨seenQuant, left, seenMore, read, ourWalk, rfl⟩ := ours
  obtain ⟨quant, rest, more, repeated, walk, rfl⟩ := theirs
  have bare := not_startsQuantifier_of_walks ctx rest more walk
  obtain ⟨rfl, both, same⟩ :=
    parseQuantifier_quantified text rest left quant seenQuant repeated bare read
  obtain ⟨sized, pieces⟩ := atomPiece_alike both
  exact (shorter left (length_quantified text left quant repeated) _ _ ourWalk walk).quantified
    atomPiece sized (pieces.trans same)
      (wellSeen_quantified ctx.named text left quant repeated bare)

/-! ### Behind an empty class -/

theorem passes_assertion (named : Bool) (source text : List Char)
    (asserts : Assertion source text) : Passes named source text := by
  cases asserts with
  | start => exact passes_char named '^' text (by decide) (counted_of_ne _ _ (by decide))
  | finish => exact passes_char named '$' text (by decide) (counted_of_ne _ _ (by decide))
  | boundary => exact passes_escape named 'b' text (fun other => absurd other (by decide))
  | inner => exact passes_escape named 'B' text (fun other => absurd other (by decide))

/-- An atom of the grammar is passed over, or ends where a class ends. -/
theorem passes_atom (ctx : PatternContext) (source text : List Char) (atom : Atom ctx source text) :
    Passes ctx.named source text ∨
      (afterClass source = some text ∧ hidesNothing ctx.named false source = true) := by
  cases atom with
  | char char _ plain single =>
    by_cases bracket : char = ']'
    · rw [bracket]
      exact Or.inr ⟨rfl, rfl⟩
    · refine Or.inl (passes_char ctx.named char text ?_ ?_)
      · rw [isOrdinary, Bool.not_eq_true', Bool.eq_false_iff]
        intro listed
        have plainly : ∀ one ∈ ['\\', '*', '+', '?', '(', ')', '[', ']', '|'],
            one = ']' ∨ isPlain one = false := by decide
        obtain same | marked := plainly char (contains_iff_mem.mp listed)
        · exact bracket same
        · rw [marked] at plain
          exact Bool.noConfusion plain
      · by_cases brace : char = '{'
        · exact single brace
        · exact counted_of_ne char text brace
  | escape next rest _ atom read => exact Or.inl (passes_afterEscape ctx next rest text read)
  | charClass rest _ read =>
    refine Or.inr ⟨?_, rfl⟩
    rw [afterClass_cons '[' rest (by decide) (by decide)]
    exact read

theorem afterClass_starts (ctx : PatternContext) (source inner : List Char)
    (starts : (engine ctx).starts source inner) : afterClass source = afterClass inner := by
  have skip : ∀ char ∈ ['?', ':', '=', '!', '<', 'i', 'm', 's', '-'], ∀ rest,
      afterClass (char :: rest) = afterClass rest := by
    intro char member rest
    refine afterClass_cons char rest ?_ ?_
    · rintro rfl
      exact absurd member (by decide)
    · rintro rfl
      exact absurd member (by decide)
  obtain starts | starts := starts
  · cases starts with
    | capture => rfl
    | apart => exact (skip '?' (by decide) _).trans (skip ':' (by decide) _)
    | ahead => exact (skip '?' (by decide) _).trans (skip '=' (by decide) _)
    | notAhead => exact (skip '?' (by decide) _).trans (skip '!' (by decide) _)
    | named rest _ name =>
      obtain ⟨text, rfl, -, spelled⟩ := afterName_split rest inner name
      exact ((skip '?' (by decide) _).trans (skip '<' (by decide) _)).trans
        (afterClass_name text inner spelled)
    | modifiers flags _ given known =>
      refine (skip '?' (by decide) _).trans ?_
      clear given
      induction flags with
      | nil => exact skip ':' (by decide) _
      | cons flag flags ih =>
        obtain ⟨here, known⟩ := forall_mem_cons.mp known
        have listed : ∀ one ∈ ['i', 'm', 's', '-'],
            one ∈ ['?', ':', '=', '!', '<', 'i', 'm', 's', '-'] := by decide
        exact (skip flag (listed flag here) _).trans (ih known)
  · cases starts with
    | behind =>
      exact ((skip '?' (by decide) _).trans (skip '<' (by decide) _)).trans (skip '=' (by decide) _)
    | notBehind =>
      exact ((skip '?' (by decide) _).trans (skip '<' (by decide) _)).trans (skip '!' (by decide) _)

/-- What the engine finds up to a place, and from there on: nothing before it just where the text
hides nothing. -/
def Resumes (ctx : PatternContext) (source place : List Char) (found : List Piece) : Prop :=
  ∃ hidden more, found = hidden ++ more ∧ After (engine ctx) place more ∧
    (hidden = [] ↔ hidesNothing ctx.named false source = true)

theorem Resumes.of_eq {ctx : PatternContext} {source rest place : List Char} {found : List Piece}
    (resumes : Resumes ctx rest place found)
    (same : hidesNothing ctx.named false source = hidesNothing ctx.named false rest) :
    Resumes ctx source place found := by
  obtain ⟨hidden, more, split, after, iff⟩ := resumes
  exact ⟨hidden, more, split, after, by rw [same]; exact iff⟩

/-- A piece before the place is something that is hidden. -/
theorem Resumes.hides {ctx : PatternContext} {source rest place : List Char} {found : List Piece}
    (piece : Piece) (resumes : Resumes ctx rest place found)
    (hides : hidesNothing ctx.named false source = false) :
    Resumes ctx source place (piece :: found) := by
  obtain ⟨hidden, more, rfl, after, -⟩ := resumes
  refine ⟨piece :: hidden, more, rfl, after, fun same => absurd same (cons_ne_nil _ _), ?_⟩
  rw [hides]
  exact fun same => Bool.noConfusion same

/-- Behind an empty class the engine comes to the end of what the panel takes for the class: an
atom ends at the first bracket that is not escaped. -/
theorem resumes_of_walks (ctx : PatternContext) (source place : List Char) (found : List Piece)
    (walks : Walks (engine ctx) source found) (closed : afterClass source = some place) :
    Resumes ctx source place found := by
  induction walks with
  | finished => cases closed
  | bar rest more walks ih =>
    rw [afterClass_cons _ _ (by decide) (by decide)] at closed
    exact (ih closed).hides .bar rfl
  | opening source inner more starts walks ih =>
    rw [afterClass_cons _ _ (by decide) (by decide), afterClass_starts ctx source inner starts]
      at closed
    exact (ih closed).hides .opening rfl
  | closing source rest quant more repeated walks ih =>
    rw [afterClass_cons _ _ (by decide) (by decide)] at closed
    cases quant with
    | none =>
      cases repeated
      exact (ih closed).hides (.closing none) rfl
    | some quant =>
      rw [(skips_quantified ctx.named source rest quant repeated).inClass] at closed
      exact (ih closed).hides (.closing (some quant)) rfl
  | atom source rest quant more atom walks ih =>
    obtain ⟨text, ⟨atom, repeated⟩ | ⟨asserts, rfl, rfl⟩⟩ := atom
    · obtain passes | ⟨ends, nothing⟩ := passes_atom ctx source text atom
      · rw [passes.inClass] at closed
        cases quant with
        | none =>
          cases repeated
          exact (ih closed).of_eq passes.hidden
        | some quant =>
          have skips := skips_quantified ctx.named text rest quant repeated
          rw [skips.inClass] at closed
          exact (ih closed).hides (.atom quant) (passes.hidden.trans skips.hidden)
      · rw [ends] at closed
        obtain rfl := some.inj closed
        exact ⟨[], _, rfl, ⟨quant, rest, more, repeated, walks, rfl⟩, fun _ => nothing,
          fun _ => rfl⟩
    · have passes := passes_assertion ctx.named source text asserts
      rw [passes.inClass] at closed
      exact (ih closed).of_eq passes.hidden

theorem resumes_of_after (ctx : PatternContext) (source place : List Char) (found : List Piece)
    (after : After (engine ctx) source found) (closed : afterClass source = some place) :
    Resumes ctx source place found := by
  obtain ⟨quant, rest, more, repeated, walks, rfl⟩ := after
  cases quant with
  | none =>
    cases repeated
    exact resumes_of_walks ctx source place more walks closed
  | some quant =>
    have skips := skips_quantified ctx.named source rest quant repeated
    rw [skips.inClass] at closed
    exact (resumes_of_walks ctx rest place more walks closed).hides (.atom quant) skips.hidden

/-! ### From piece to piece -/

theorem panel_atom (char : Char) (rest : List Char) (seen : List Piece)
    (walks : Walks panel (char :: rest) seen) (other : char ∉ ['|', '(', ')']) :
    ∃ text, parseAtomText (char :: rest) = .ok text ∧ After panel text seen := by
  cases walks with
  | bar => exact absurd (by decide) other
  | opening => exact absurd (by decide) other
  | closing => exact absurd (by decide) other
  | atom _ next quant more atom walks =>
    obtain ⟨-, -, text, read, repeated⟩ := atom
    exact ⟨text, read, quant, next, more, repeated, walks, rfl⟩

theorem engine_atom (ctx : PatternContext) (char : Char) (rest : List Char) (found : List Piece)
    (walks : Walks (engine ctx) (char :: rest) found) (other : char ∉ ['|', '(', ')']) :
    ∃ text, (Atom ctx (char :: rest) text ∨ Assertion (char :: rest) text) ∧
      After (engine ctx) text found := by
  cases walks with
  | bar => exact absurd (by decide) other
  | opening => exact absurd (by decide) other
  | closing => exact absurd (by decide) other
  | atom _ next quant more atom walks =>
    obtain ⟨text, ⟨atom, repeated⟩ | ⟨asserts, rfl, rfl⟩⟩ := atom
    · exact ⟨text, Or.inl atom, quant, next, more, repeated, walks, rfl⟩
    · exact ⟨text, Or.inr asserts, none, text, more, .once text, walks, rfl⟩

theorem parseAtomText_char (char : Char) (rest : List Char) (bare : char ≠ '\\')
    (open_ : char ≠ '[') : parseAtomText (char :: rest) = .ok rest := by
  unfold parseAtomText
  split
  · next same => exact absurd (cons.inj same).1 bare
  · next same => exact absurd (cons.inj same).1 bare
  · next same => exact absurd (cons.inj same).1 open_
  · next same => rw [(cons.inj same).2]
  · next same => cases same

/-- To the panel the letters and digits of an escape are atoms that nothing repeats. -/
theorem after_word (word rest : List Char) (seen : List Piece)
    (letters : ∀ char ∈ word, char.isAlphanum) (after : After panel (word ++ rest) seen) :
    After panel rest seen := by
  induction word generalizing seen with
  | nil => exact after
  | cons char word ih =>
    obtain ⟨letter, letters⟩ := forall_mem_cons.mp letters
    have not_listed : ∀ list : List Char, (∀ one ∈ list, ¬ one.isAlphanum) → char ∉ list :=
      fun list plain member => plain char member letter
    obtain ⟨quant, next, more, read, walks, rfl⟩ := after
    have bare := not_startsQuantifier char (word ++ rest) (not_listed _ (by decide))
      (counted_of_ne char _ (ne_brace_of_isAlphanum letter))
    rw [cons_append] at read
    obtain ⟨rfl, rfl⟩ := Prod.mk.inj (Except.ok.inj ((parseQuantifier_none _ bare).symm.trans read))
    obtain ⟨text, atom, after⟩ := panel_atom char _ more walks (not_listed _ (by decide))
    have differs : ∀ one : Char, ¬ one.isAlphanum → char ≠ one :=
      fun one plain same => plain (same ▸ letter)
    rw [parseAtomText_char char _ (differs '\\' (by decide)) (differs '[' (by decide))] at atom
    obtain rfl := Except.ok.inj atom
    exact ih more letters after

theorem parseAtomText_escape (next : Char) (rest text : List Char)
    (read : parseAtomText ('\\' :: next :: rest) = .ok text) : text = rest ∧ next ≠ 'k' := by
  rw [parseAtomText] at read
  split at read
  · cases read
  split at read
  · cases read
  · next reference => exact ⟨(Except.ok.inj read).symm, reference⟩

/-- An escape that both read: what follows its first character for the panel, and what follows all
of it for the engine, are followed by the same. -/
theorem after_escape (ctx : PatternContext) (next : Char) (rest text : List Char)
    (seen found : List Piece) (read : afterEscape ctx (next :: rest) = some text)
    (plain : next ≠ 'k') (ours : After panel rest seen) (theirs : After (engine ctx) text found) :
    ∃ place, place.length ≤ rest.length ∧ Passes ctx.named ('\\' :: next :: rest) place ∧
      After panel place seen ∧ After (engine ctx) place found := by
  have passes := passes_afterEscape ctx next rest text read
  obtain ⟨-, word, rfl, letters⟩ | ⟨rfl, rfl⟩ | ⟨reference, -⟩ :=
    afterEscape_cases ctx next rest text read
  · refine ⟨text, ?_, passes, after_word word text seen letters ours, theirs⟩
    rw [length_append]
    exact Nat.le_add_left _ _
  · have bare := not_startsQuantifier 'c' rest (by decide) (counted_of_ne _ _ (by decide))
    obtain ⟨quant, place, more, repeated, walks, rfl⟩ := theirs
    cases quant with
    | some quant => exact absurd (startsQuantifier_of_quantified _ _ quant repeated) bare
    | none =>
      cases repeated
      obtain ⟨after, atom | asserts, theirs⟩ := engine_atom ctx 'c' rest more walks (by decide)
      · cases atom with
        | char =>
          have passes := passes_escape ctx.named 'c' rest (fun other => absurd other plain)
          exact ⟨rest, Nat.le_refl _, passes, ours, theirs⟩
      · cases asserts
  · exact absurd reference plain

/-! ### Classes -/

/-- Whether a class has nothing before its first bracket; the engine ends it there. -/
def EndsAtOnce (rest inner : List Char) : Prop :=
  rest = ']' :: inner ∨ rest = '^' :: ']' :: inner

theorem wellSeen_bracket (named : Bool) (rest : List Char)
    (open_ : ∀ inner, ¬ EndsAtOnce rest inner) :
    wellSeen named false ('[' :: rest) = wellSeen named true rest := by
  rw [wellSeen, finite_of_counted _ (counted_of_ne _ _ (by decide)), Bool.true_and]
  · rfl
  · exact fun _ _ same _ => absurd same (by decide)
  · exact fun inner _ same => open_ inner (Or.inr same)
  · exact fun inner _ same => open_ inner (Or.inl same)

theorem afterClass_contents (rest : List Char) (open_ : ∀ inner, ¬ EndsAtOnce rest inner) :
    afterClass (classContents rest) = afterClass rest := by
  unfold classContents
  split
  · next more =>
    rw [afterClass_cons '^' more (by decide) (by decide)]
    dsimp only
    split
    · next inner => exact absurd (Or.inr rfl) (open_ inner)
    · rfl
  · dsimp only
    split
    · next inner _ => exact absurd (Or.inl rfl) (open_ inner)
    · rfl

theorem classContents_atOnce (rest inner : List Char) (atOnce : EndsAtOnce rest inner) :
    classContents rest = inner := by
  obtain rfl | rfl := atOnce <;> rfl

theorem wellSeen_atOnce (named : Bool) (rest inner : List Char) (atOnce : EndsAtOnce rest inner) :
    wellSeen named false ('[' :: rest) =
      (hidesNothing named false inner && wellSeen named true inner) := by
  obtain rfl | rfl := atOnce <;> rfl

theorem afterClass_atOnce (rest inner : List Char) (atOnce : EndsAtOnce rest inner) :
    afterClass rest = some inner := by
  obtain rfl | rfl := atOnce <;> rfl

theorem parseAtomText_class (rest text : List Char)
    (read : parseAtomText ('[' :: rest) = .ok text) :
    afterClass (classContents rest) = some text := by
  rw [parseAtomText] at read
  split at read
  · next closed =>
    rw [closed, Except.ok.inj read]
  · cases read

theorem wellSeen_class (named : Bool) (source rest : List Char)
    (closed : afterClass source = some rest) :
    wellSeen named true source = wellSeen named false rest := by
  fun_induction afterClass source with
  | case1 => cases closed
  | case2 more =>
    obtain rfl := some.inj closed
    rfl
  | case3 char more ih => exact ih closed
  | case4 char more open_ bare ih =>
    rw [wellSeen, bne_iff_ne.mpr open_]
    · exact ih closed
    · exact fun next after same => bare next after same

theorem length_afterClass (source rest : List Char) (closed : afterClass source = some rest) :
    rest.length < source.length := by
  fun_induction afterClass source with
  | case1 => cases closed
  | case2 more =>
    obtain rfl := some.inj closed
    exact Nat.lt_succ_self _
  | case3 char more ih =>
    have shorter := ih closed
    simp only [length_cons]
    omega
  | case4 char more open_ bare ih =>
    have shorter := ih closed
    simp only [length_cons]
    omega

/-! ### Groups -/

theorem name_head (char : Char) (name : List Char) (named : isName (char :: name)) :
    char ≠ '=' ∧ char ≠ '!' := by
  constructor
  · rintro rfl
    rw [isName] at named
    · exact absurd (Bool.and_eq_true_iff.mp named).1 (by decide)
    · exact fun _ same _ => absurd same (by decide)
  · rintro rfl
    rw [isName] at named
    · exact absurd (Bool.and_eq_true_iff.mp named).1 (by decide)
    · exact fun _ same _ => absurd same (by decide)

theorem groupStart_named (name rest : List Char) (given : name ≠ []) (named : isName name) :
    groupStart ('?' :: '<' :: (name ++ '>' :: rest)) = .ok rest := by
  obtain ⟨char, name, rfl⟩ := exists_cons_of_ne_nil given
  obtain ⟨notEqual, notMark⟩ := name_head char name named
  rw [groupStart]
  · rw [dropWhile_bracket _ rest named]
  · exact fun _ same => notEqual (cons.inj same).1
  · exact fun _ same => notMark (cons.inj same).1

theorem groupStart_bare (rest : List Char) (bare : rest.head? ≠ some '?') :
    groupStart rest = .ok rest := by
  cases rest with
  | nil => rfl
  | cons char rest =>
    have other : char ≠ '?' := fun same => bare (congrArg some same)
    unfold groupStart
    split <;> first | rfl | exact absurd (cons.inj (by assumption)).1 other

theorem groupStart_modifiers (flag : Char) (rest : List Char)
    (known : flag ∈ ['i', 'm', 's', '-']) :
    groupStart ('?' :: flag :: rest) = .error "an unknown group syntax" := by
  simp only [mem_cons, not_mem_nil, or_false] at known
  obtain rfl | rfl | rfl | rfl := known <;> rfl

/-- A group the panel does not refuse starts where the engine has it start. -/
theorem groupStart_starts (ctx : PatternContext) (source inner found : List Char)
    (starts : (engine ctx).starts source inner) (read : groupStart source = .ok found) :
    found = inner ∧ wellSeen ctx.named false source = wellSeen ctx.named false inner ∧
      inner.length ≤ source.length := by
  have mark : ∀ char ∈ ['?', ':', '=', '!', '<'], ∀ rest,
      wellSeen ctx.named false (char :: rest) = wellSeen ctx.named false rest := by
    intro char member rest
    have plain : ∀ one ∈ ['?', ':', '=', '!', '<'], one ≠ '\\' ∧ one ≠ '[' ∧ one ≠ '{' := by decide
    obtain ⟨bare, open_, brace⟩ := plain char member
    rw [wellSeen_cons _ char rest bare open_, finite_of_counted _ (counted_of_ne char rest brace),
      Bool.true_and]
  obtain starts | starts := starts
  · cases starts with
    | capture _ bare =>
      rw [groupStart_bare source bare] at read
      exact ⟨(Except.ok.inj read).symm, rfl, Nat.le_refl _⟩
    | apart =>
      exact ⟨(Except.ok.inj read).symm, (mark '?' (by decide) _).trans (mark ':' (by decide) _),
        Nat.le_add_right _ 2⟩
    | ahead =>
      exact ⟨(Except.ok.inj read).symm, (mark '?' (by decide) _).trans (mark '=' (by decide) _),
        Nat.le_add_right _ 2⟩
    | notAhead =>
      exact ⟨(Except.ok.inj read).symm, (mark '?' (by decide) _).trans (mark '!' (by decide) _),
        Nat.le_add_right _ 2⟩
    | named rest _ name =>
      obtain ⟨text, rfl, given, spelled⟩ := afterName_split rest inner name
      rw [groupStart_named text inner given spelled] at read
      refine ⟨(Except.ok.inj read).symm, ?_, ?_⟩
      · exact ((mark '?' (by decide) _).trans (mark '<' (by decide) _)).trans
          (wellSeen_name _ text inner spelled)
      · simp only [length_cons, length_append]
        omega
    | modifiers flags _ given known =>
      obtain ⟨flag, flags, rfl⟩ := exists_cons_of_ne_nil given
      rw [cons_append, groupStart_modifiers flag _ (known flag mem_cons_self)] at read
      cases read
  · cases starts with
    | behind => cases read
    | notBehind => cases read

/-! ### The whole expression -/

/-- The two readers over a text, as far as it is shown for the texts that are no longer. -/
def AlikeWithin (ctx : PatternContext) (size : Nat) : Prop :=
  ∀ source : List Char, source.length ≤ size → ∀ seen found, Walks panel source seen →
    Walks (engine ctx) source found → Alike ctx.named source seen found

theorem AlikeWithin.after {ctx : PatternContext} {size : Nat} (within : AlikeWithin ctx size)
    (text : List Char) (seen found : List Piece) (ours : After panel text seen)
    (theirs : After (engine ctx) text found) (short : text.length ≤ size) :
    Alike ctx.named text seen found :=
  after_alike ctx text seen found ours theirs fun rest shorter => within rest (shorter.trans short)

/-- Behind an empty class: what the engine finds there and the panel does not is more. -/
theorem alike_empty (ctx : PatternContext) (rest inner text : List Char) (seen found : List Piece)
    (atOnce : EndsAtOnce rest inner) (closed : afterClass inner = some text)
    (ours : After panel text seen) (theirs : After (engine ctx) inner found)
    (within : AlikeWithin ctx text.length) : Alike ctx.named ('[' :: rest) seen found := by
  obtain ⟨hidden, more, rfl, after, nothing⟩ := resumes_of_after ctx inner text found theirs closed
  have alike := within.after text seen more ours after (Nat.le_refl _)
  constructor
  · rw [wellSeen_atOnce _ rest inner atOnce, wellSeen_class _ inner text closed, Bool.and_eq_true,
      ← alike.same_iff, ← nothing]
    constructor
    · intro same
      have sizes := congrArg List.length same
      rw [length_append] at sizes
      have empty : hidden = [] := by
        rw [← length_eq_zero_iff]
        have fewer := alike.fewer
        omega
      rw [empty] at same
      exact ⟨empty, same⟩
    · rintro ⟨rfl, same⟩
      exact same
  · rw [length_append]
    exact alike.fewer.trans (Nat.le_add_left _ _)

theorem alike_class (ctx : PatternContext) (rest text after : List Char) (seen found : List Piece)
    (read : parseAtomText ('[' :: rest) = .ok text) (closed : afterClass rest = some after)
    (ours : After panel text seen) (theirs : After (engine ctx) after found)
    (within : AlikeWithin ctx rest.length) : Alike ctx.named ('[' :: rest) seen found := by
  have contents := parseAtomText_class rest text read
  by_cases atOnce : ∃ inner, EndsAtOnce rest inner
  · obtain ⟨inner, atOnce⟩ := atOnce
    rw [classContents_atOnce rest inner atOnce] at contents
    rw [afterClass_atOnce rest inner atOnce] at closed
    obtain rfl := some.inj closed
    refine alike_empty ctx rest inner text seen found atOnce contents ours theirs ?_
    have first := length_afterClass inner text contents
    have second := length_afterClass rest inner (afterClass_atOnce rest inner atOnce)
    exact fun source short => within source (by omega)
  · have open_ := not_exists.mp atOnce
    rw [afterClass_contents rest open_, closed] at contents
    obtain rfl := some.inj contents
    have shorter := (length_afterClass rest after closed).le
    refine (within.after after seen found ours theirs shorter).of_passes ?_
    rw [wellSeen_bracket _ rest open_, wellSeen_class _ rest after closed]

theorem alike_atom (ctx : PatternContext) (char : Char) (rest : List Char) (seen found : List Piece)
    (other : char ∉ ['|', '(', ')']) (ours : Walks panel (char :: rest) seen)
    (theirs : Walks (engine ctx) (char :: rest) found) (within : AlikeWithin ctx rest.length) :
    Alike ctx.named (char :: rest) seen found := by
  obtain ⟨text, read, behind⟩ := panel_atom char rest seen ours other
  obtain ⟨after, atom, follows⟩ := engine_atom ctx char rest found theirs other
  obtain atom | asserts := atom
  · cases atom with
    | char _ _ plain single =>
      have bare : char ≠ '\\' := by
        rintro rfl
        exact Bool.noConfusion plain
      have open_ : char ≠ '[' := by
        rintro rfl
        exact Bool.noConfusion plain
      rw [parseAtomText_char char rest bare open_] at read
      obtain rfl := Except.ok.inj read
      refine (within.after _ seen found behind follows (Nat.le_refl _)).of_passes ?_
      rw [wellSeen_cons _ char _ bare open_, finite_of_counted, Bool.true_and]
      by_cases brace : char = '{'
      · exact single brace
      · exact counted_of_ne char _ brace
    | escape next more _ atom escape =>
      obtain ⟨rfl, plain⟩ := parseAtomText_escape next more text read
      obtain ⟨place, short, passes, ours, theirs⟩ :=
        after_escape ctx next text after seen found escape plain behind follows
      have shorter : place.length ≤ (next :: text).length := short.trans (Nat.le_succ _)
      exact (within.after place seen found ours theirs shorter).of_passes passes.seen
    | charClass _ _ closed =>
      exact alike_class ctx rest text after seen found read closed behind follows within
  · cases asserts with
    | start =>
      obtain rfl := Except.ok.inj read
      exact (within.after _ seen found behind follows (Nat.le_refl _)).of_passes
        (passes_assertion ctx.named _ _ (.start _)).seen
    | finish =>
      obtain rfl := Except.ok.inj read
      exact (within.after _ seen found behind follows (Nat.le_refl _)).of_passes
        (passes_assertion ctx.named _ _ (.finish _)).seen
    | boundary =>
      obtain rfl := (parseAtomText_escape 'b' _ text read).1
      exact (within.after _ seen found behind follows (Nat.le_succ _)).of_passes
        (passes_assertion ctx.named _ _ (.boundary _)).seen
    | inner =>
      obtain rfl := (parseAtomText_escape 'B' _ text read).1
      exact (within.after _ seen found behind follows (Nat.le_succ _)).of_passes
        (passes_assertion ctx.named _ _ (.inner _)).seen

theorem Alike.cons {named : Bool} {source rest : List Char} {seen found : List Piece}
    (alike : Alike named rest seen found) (piece : Piece)
    (passes : wellSeen named false source = wellSeen named false rest) :
    Alike named source (piece :: seen) (piece :: found) := by
  constructor
  · rw [passes, ← alike.same_iff]
    exact ⟨fun same => (cons.inj same).2, fun same => congrArg _ same⟩
  · exact Nat.succ_le_succ alike.fewer

theorem wellSeen_mark (named : Bool) (char : Char) (rest : List Char)
    (mark : char ∈ ['|', '(', ')']) :
    wellSeen named false (char :: rest) = wellSeen named false rest := by
  have plain : ∀ one ∈ ['|', '(', ')'], one ≠ '\\' ∧ one ≠ '[' ∧ one ≠ '{' := by decide
  obtain ⟨bare, open_, brace⟩ := plain char mark
  rw [wellSeen_cons _ char rest bare open_, finite_of_counted _ (counted_of_ne char rest brace),
    Bool.true_and]

theorem alike_nil (ctx : PatternContext) (seen found : List Piece) (ours : Walks panel [] seen)
    (theirs : Walks (engine ctx) [] found) : Alike ctx.named [] seen found := by
  generalize empty : ([] : List Char) = source at ours theirs
  cases ours with
  | finished =>
    cases theirs with
    | finished => exact ⟨⟨fun _ => rfl, fun _ => rfl⟩, Nat.le_refl 0⟩
    | atom _ rest quant more atom =>
      obtain ⟨text, ⟨atom, -⟩ | ⟨asserts, -, -⟩⟩ := atom
      · cases atom
      · cases asserts
  | bar => cases empty
  | opening => cases empty
  | closing => cases empty
  | atom _ rest quant more atom => exact absurd empty.symm atom.2.1

theorem panel_mark (char : Char) (rest next : List Char) (quant : Option Quantifier)
    (mark : char ∈ ['|', '(', ')']) : ¬ panel.atom (char :: rest) quant next := by
  rintro ⟨other, -⟩
  obtain ⟨notBar, notOpening, notClosing⟩ := other char rfl
  simp only [mem_cons, not_mem_nil, or_false] at mark
  obtain same | same | same := mark
  · exact notBar same
  · exact notOpening same
  · exact notClosing same

theorem engine_mark (ctx : PatternContext) (char : Char) (rest next : List Char)
    (quant : Option Quantifier) (mark : char ∈ ['|', '(', ')']) :
    ¬ (engine ctx).atom (char :: rest) quant next := by
  have special : ∀ one ∈ ['|', '(', ')'],
      isPlain one = false ∧ one ∉ ['\\', '[', '^', '$'] := by decide
  obtain ⟨notPlain, other⟩ := special char mark
  rintro ⟨text, ⟨atom, -⟩ | ⟨asserts, -, -⟩⟩
  · cases atom with
    | char _ _ plain =>
      rw [notPlain] at plain
      exact Bool.noConfusion plain
    | escape => exact other (by decide)
    | charClass => exact other (by decide)
  · cases asserts <;> exact other (by decide)

theorem walks_mark (reader : Reader) (char : Char) (rest : List Char) (found : List Piece)
    (walks : Walks reader (char :: rest) found)
    (none_ : ∀ quant next, ¬ reader.atom (char :: rest) quant next) :
    (char = '|' ∧ ∃ more, found = .bar :: more ∧ Walks reader rest more) ∨
      (char = '(' ∧ ∃ inner more, found = .opening :: more ∧ reader.starts rest inner ∧
        Walks reader inner more) ∨
      (char = ')' ∧ ∃ quant next more, found = .closing quant :: more ∧
        reader.repeated rest quant next ∧ Walks reader next more) := by
  cases walks with
  | bar _ more walks => exact Or.inl ⟨rfl, more, rfl, walks⟩
  | opening _ inner more starts walks =>
    exact Or.inr (Or.inl ⟨rfl, inner, more, rfl, starts, walks⟩)
  | closing _ next quant more repeated walks =>
    exact Or.inr (Or.inr ⟨rfl, quant, next, more, rfl, repeated, walks⟩)
  | atom _ next quant more atom => exact absurd atom (none_ quant next)

/-- Bars and parentheses are the same pieces to both. -/
theorem alike_mark (ctx : PatternContext) (char : Char) (rest : List Char)
    (seen found : List Piece) (mark : char ∈ ['|', '(', ')'])
    (ours : Walks panel (char :: rest) seen) (theirs : Walks (engine ctx) (char :: rest) found)
    (within : AlikeWithin ctx rest.length) : Alike ctx.named (char :: rest) seen found := by
  have ourPiece := walks_mark panel char rest seen ours fun quant next =>
    panel_mark char rest next quant mark
  have theirPiece := walks_mark (engine ctx) char rest found theirs fun quant next =>
    engine_mark ctx char rest next quant mark
  have passes := wellSeen_mark ctx.named char rest mark
  obtain ⟨rfl, seenMore, rfl, ourWalk⟩ | ⟨rfl, inner, seenMore, rfl, starts, ourWalk⟩ |
    ⟨rfl, seenQuant, left, seenMore, rfl, read, ourWalk⟩ := ourPiece
  · obtain ⟨-, more, rfl, walk⟩ | ⟨same, -⟩ | ⟨same, -⟩ := theirPiece
    · exact (within rest (Nat.le_refl _) _ _ ourWalk walk).cons .bar passes
    · exact absurd same (by decide)
    · exact absurd same (by decide)
  · obtain ⟨same, -⟩ | ⟨-, body, more, rfl, begins, walk⟩ | ⟨same, -⟩ := theirPiece
    · exact absurd same (by decide)
    · obtain ⟨rfl, seen, short⟩ := groupStart_starts ctx rest body inner begins starts
      exact (within inner short _ _ ourWalk walk).cons .opening (passes.trans seen)
    · exact absurd same (by decide)
  · obtain ⟨same, -⟩ | ⟨same, -⟩ | ⟨-, quant, next, more, rfl, repeated, walk⟩ := theirPiece
    · exact absurd same (by decide)
    · exact absurd same (by decide)
    · have bare := not_startsQuantifier_of_walks ctx next more walk
      obtain ⟨rfl, -, same⟩ :=
        parseQuantifier_quantified rest next left quant seenQuant repeated bare read
      have short := length_quantified rest left quant repeated
      refine Alike.of_passes ?_ passes
      refine (within left short _ _ ourWalk walk).quantified (fun quant => [.closing quant]) rfl ?_
        (wellSeen_quantified ctx.named rest left quant repeated bare)
      rw [← same]
      exact ⟨fun equal => Piece.closing.inj (cons.inj equal).1, fun equal => by rw [equal]⟩

/-- The two readers over a text of any length: a piece takes something of it, and behind an empty
class both go on from the end of the panel's class. -/
theorem alike_of_walks (ctx : PatternContext) (size : Nat) : AlikeWithin ctx size := by
  induction size with
  | zero =>
    intro source short seen found ours theirs
    obtain rfl := length_eq_zero_iff.mp (Nat.le_zero.mp short)
    exact alike_nil ctx seen found ours theirs
  | succ size ih =>
    intro source short seen found ours theirs
    cases source with
    | nil => exact alike_nil ctx seen found ours theirs
    | cons char rest =>
      have within : AlikeWithin ctx rest.length := fun source shorter => ih source
        (shorter.trans (Nat.le_of_succ_le_succ short))
      by_cases mark : char ∈ ['|', '(', ')']
      · exact alike_mark ctx char rest seen found mark ours theirs within
      · exact alike_atom ctx char rest seen found mark ours theirs within

/-- The structure the panel finds in an expression is the one it has in the grammar, exactly where
the panel sees it well. -/
theorem shape_iff (ctx : PatternContext) (pattern : List Char) (tree found : Alternation)
    (read : parse pattern = .ok found) (derives : Reads ctx pattern tree []) :
    shape found = shape tree ↔ wellSeen ctx.named false pattern = true := by
  have walks := walks_of_reads ctx pattern [] tree derives [] .finished
  rw [append_nil] at walks
  rw [shape_eq_iff]
  exact (alike_of_walks ctx pattern.length pattern (Nat.le_refl _) _ _
    (walks_of_parse pattern found read) walks).same_iff

/-- A class in which a parenthesis stands, in a group that repeats. -/
theorem shape_iff_class :
    shape (.group (some ⟨1, none⟩) (.atom none (.atom none .done)) .done) =
        shape (.group (some ⟨1, none⟩) (.atom none (.atom none .done)) .done) ↔
      wellSeen false false "(a[)])+".toList = true :=
  shape_iff ⟨1, false⟩ "(a[)])+".toList _ _ (by decide +kernel)
    (.group _ "a[)])+".toList "+".toList [] _ _ _ _ (.capture _ (by decide))
      (.atom _ "[)])+".toList _ _ none _
        (.char 'a' _ (by decide) (fun same => absurd same (by decide))) (.once _)
        (.atom _ ")+".toList _ _ none _ (.charClass ")])+".toList _ (by decide)) (.once _)
          (.nothing _)))
      (.greedy _ _ _ (.plus [])) (.nothing []))

/-- The engine takes `[](a+)+]` for an empty class, a group and a bracket. The panel takes it for
one class and has nothing against it. -/
theorem unseen_group : ∃ (pattern : List Char) (tree found : Alternation),
    regexProblems (fun _ => true) pattern = [] ∧ parse pattern = .ok found ∧
      Reads ⟨1, false⟩ pattern tree [] ∧ shape found ≠ shape tree :=
  ⟨"[](a+)+]".toList,
    .atom none (.group (some ⟨1, none⟩) (.atom (some ⟨1, none⟩) .done) (.atom none .done)),
    .atom none .done, by decide +kernel, by decide +kernel,
    .atom _ "(a+)+]".toList _ _ none _ (.charClass "](a+)+]".toList _ (by decide)) (.once _)
      (.group _ "a+)+]".toList "+]".toList "]".toList _ _ _ _ (.capture _ (by decide))
        (.atom _ "+)+]".toList ")+]".toList _ _ _
          (.char 'a' _ (by decide) (fun same => absurd same (by decide)))
          (.greedy _ _ _ (.plus _)) (.nothing _))
        (.greedy _ _ _ (.plus _))
        (.atom _ [] _ _ none _ (.char ']' _ (by decide) (fun same => absurd same (by decide)))
          (.once _) (.nothing []))),
    by decide +kernel⟩

end Geeboard.Games.SafeRegex

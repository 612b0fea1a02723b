/-
This file is about texts as lines.

A line ends at a line feed, and a carriage return right before the feed belongs
to the break; the last line has no break after it. Lines are put together again
with a feed between. What was put together is taken apart into the same lines,
but for a carriage return that a line ended in, which the feed then takes with it.

The blanks are those of the language's regular expressions, and so is what counts
as a character of a line there.
-/

import Mathlib.Data.List.DropRight
import Mathlib.Data.List.TakeWhile

namespace Text

open List

/-! ### Characters -/

/-- A blank, as the language counts blanks. -/
def isSpace (char : Char) : Bool :=
  let code := char.toNat
  (9 ≤ code && code ≤ 13) || code == 0x20 || code == 0xa0 || code == 0x1680 ||
    (0x2000 ≤ code && code ≤ 0x200a) || code == 0x2028 || code == 0x2029 || code == 0x202f ||
    code == 0x205f || code == 0x3000 || code == 0xfeff

/-- A character that ends no line, as the language counts lines. -/
def isPlain (char : Char) : Bool :=
  !(char == '\n' || char == '\r' || char.toNat == 0x2028 || char.toNat == 0x2029)

/-- The length of a text as the language counts it, in units of sixteen bits. -/
def utf16Length (text : List Char) : Nat :=
  text.foldl (fun count char => count + if 0x10000 ≤ char.toNat then 2 else 1) 0

/-- A text without the blanks it ends with. -/
def trimEnd (text : List Char) : List Char := text.rdropWhile isSpace

/-- A text without the blanks around it. -/
def trimmed (text : List Char) : List Char := trimEnd (text.dropWhile isSpace)

theorem trimEnd_append_blanks (text : List Char) {blanks : List Char}
    (spaces : ∀ char ∈ blanks, isSpace char = true) : trimEnd (text ++ blanks) = trimEnd text := by
  unfold trimEnd List.rdropWhile
  rw [reverse_append, dropWhile_append_of_pos fun char member =>
    spaces char (mem_reverse.mp member)]

/-- The blanks that a text ends with. -/
theorem exists_trimEnd_append (text : List Char) :
    ∃ blanks, text = trimEnd text ++ blanks ∧ ∀ char ∈ blanks, isSpace char = true :=
  ⟨text.rtakeWhile isSpace, (rdropWhile_append_rtakeWhile).symm, fun _ member =>
    mem_rtakeWhile_imp member⟩

theorem trimEnd_trimEnd (text : List Char) : trimEnd (trimEnd text) = trimEnd text :=
  rdropWhile_idempotent _ _

/-- A text without blanks around it is left as it is. -/
theorem trimmed_trimmed (text : List Char) : trimmed (trimmed text) = trimmed text := by
  have kept : (trimEnd (text.dropWhile isSpace)).dropWhile isSpace =
      trimEnd (text.dropWhile isSpace) := by
    cases begins : trimEnd (text.dropWhile isSpace) with
    | nil => rfl
    | cons char rest =>
      have front : char :: rest <+: text.dropWhile isSpace := begins ▸ rdropWhile_prefix _ _
      obtain ⟨tail, split⟩ := front
      have solid := head?_dropWhile_not isSpace text
      rw [← split, cons_append, head?_cons] at solid
      exact dropWhile_cons_of_neg (by rw [Bool.not_eq_true]; exact solid)
  unfold trimmed
  rw [kept, trimEnd_trimEnd]

/-- A text that neither begins nor ends with a blank is what is left between blanks. -/
theorem trimmed_between {before text behind : List Char}
    (front : ∀ char ∈ before, isSpace char = true) (back : ∀ char ∈ behind, isSpace char = true)
    (begins : ∀ char, text.head? = some char → isSpace char = false)
    (ends : ∀ char, text.getLast? = some char → isSpace char = false) :
    trimmed (before ++ text ++ behind) = text := by
  unfold trimmed
  rw [append_assoc, dropWhile_append_of_pos front]
  cases text with
  | nil =>
    rw [nil_append, dropWhile_eq_nil_iff.mpr back]
    rfl
  | cons char rest =>
    have solid : ¬ isSpace char = true := by
      rw [begins char rfl]
      exact Bool.false_ne_true
    rw [cons_append, dropWhile_cons_of_neg solid, ← cons_append,
      trimEnd_append_blanks _ back]
    refine rdropWhile_eq_self_iff.mpr fun some_ => ?_
    rw [ends _ (getLast?_eq_some_getLast some_)]
    exact Bool.false_ne_true

theorem trimmed_of_solid {text : List Char} (solid : ∀ char ∈ text, isSpace char = false) :
    trimmed text = text := by
  have between := @trimmed_between [] text [] (fun _ member => absurd member not_mem_nil)
    (fun _ member => absurd member not_mem_nil)
    (fun char begins => solid char (mem_of_mem_head? begins))
    (fun char ends => solid char (mem_of_getLast? ends))
  rwa [nil_append, append_nil] at between

/-! ### Lines -/

/-- A text taken apart at its line feeds. -/
def feeds : List Char → List (List Char)
  | [] => [[]]
  | char :: text =>
    if char = '\n' then [] :: feeds text
    else
      match feeds text with
      | [] => [[char]]
      | line :: lines => (char :: line) :: lines

/-- A line without the carriage return it ends in. -/
def chomp (line : List Char) : List Char :=
  if line.getLast? = some '\r' then line.dropLast else line

/-- The lines of a text. -/
def splitLines (text : List Char) : List (List Char) :=
  (feeds text).dropLast.map chomp ++ [(feeds text).getLast?.getD []]

/-- Lines put together. -/
def joinLines (lines : List (List Char)) : List Char := ['\n'].intercalate lines

/-- A text that ends its last line. -/
def closed (text : List Char) : List Char :=
  if text.getLast? = some '\n' then text else text ++ ['\n']

theorem feeds_ne_nil (text : List Char) : feeds text ≠ [] := by
  cases text with
  | nil => exact cons_ne_nil _ _
  | cons char text =>
    unfold feeds
    split
    · exact cons_ne_nil _ _
    · split
      · exact cons_ne_nil _ _
      · exact cons_ne_nil _ _

theorem feeds_cons_of_ne {char : Char} (other : char ≠ '\n') (text : List Char) :
    ∃ line lines, feeds text = line :: lines ∧ feeds (char :: text) = (char :: line) :: lines := by
  obtain ⟨line, lines, same⟩ := exists_cons_of_ne_nil (feeds_ne_nil text)
  refine ⟨line, lines, same, ?_⟩
  rw [feeds, if_neg other, same]

variable {lines : List (List Char)} {line : List Char}

theorem feeds_append_feed (clean : '\n' ∉ line) (rest : List Char) :
    feeds (line ++ '\n' :: rest) = line :: feeds rest := by
  induction line with
  | nil => rw [nil_append, feeds, if_pos rfl]
  | cons char line inductionHypothesis =>
    have other : char ≠ '\n' := fun same => clean (same ▸ mem_cons_self)
    obtain ⟨first, lines, same, next⟩ := feeds_cons_of_ne other (line ++ '\n' :: rest)
    rw [inductionHypothesis fun member => clean (mem_cons_of_mem _ member)] at same
    obtain ⟨rfl, rfl⟩ := cons.inj same
    exact next

theorem feeds_of_clean (clean : '\n' ∉ line) : feeds line = [line] := by
  induction line with
  | nil => rfl
  | cons char line inductionHypothesis =>
    have other : char ≠ '\n' := fun same => clean (same ▸ mem_cons_self)
    obtain ⟨first, lines, same, next⟩ := feeds_cons_of_ne other line
    rw [inductionHypothesis fun member => clean (mem_cons_of_mem _ member)] at same
    obtain ⟨rfl, rfl⟩ := cons.inj same
    exact next

theorem clean_of_mem_feeds {text : List Char} (member : line ∈ feeds text) :
    '\n' ∉ line := by
  induction text generalizing line with
  | nil =>
    rw [mem_singleton.mp member]
    exact not_mem_nil
  | cons char text inductionHypothesis =>
    by_cases feed : char = '\n'
    · rw [feeds, if_pos feed] at member
      rcases mem_cons.mp member with rfl | there
      · exact not_mem_nil
      · exact inductionHypothesis there
    · obtain ⟨first, lines, same, next⟩ := feeds_cons_of_ne feed text
      rw [next] at member
      rw [same] at inductionHypothesis
      rcases mem_cons.mp member with rfl | there
      · rintro (_ | ⟨_, inside⟩)
        · exact feed rfl
        · exact inductionHypothesis mem_cons_self inside
      · exact inductionHypothesis (mem_cons_of_mem _ there)

theorem chomp_cases (line : List Char) : chomp line = line ∨ line = chomp line ++ ['\r'] := by
  unfold chomp
  split
  · rename_i ends
    have nonempty : line ≠ [] := by
      rintro rfl
      cases ends
    rw [getLast?_eq_some_getLast nonempty, Option.some_inj] at ends
    exact Or.inr (by rw [← ends, dropLast_concat_getLast])
  · exact Or.inl rfl

theorem mem_of_mem_chomp {char : Char} (member : char ∈ chomp line) :
    char ∈ line := by
  rcases chomp_cases line with same | same
  · exact same ▸ member
  · rw [same]
    exact mem_append_left _ member

/-- A carriage return at the end of a text is one at the end of what comes after a character. -/
theorem chomp_append_cons (front : List Char) {char : Char} (other : char ≠ '\r')
    (back : List Char) : chomp (front ++ char :: back) = front ++ char :: chomp back := by
  unfold chomp
  rw [getLast?_append_of_ne_nil _ (cons_ne_nil _ _)]
  cases back with
  | nil =>
    rw [if_neg, if_neg]
    · rintro ⟨⟩
    · exact fun same => other (Option.some.inj same)
  | cons next back =>
    rw [getLast?_cons_cons]
    split
    · rw [dropLast_append_of_ne_nil (cons_ne_nil _ _),
        dropLast_cons_of_ne_nil (cons_ne_nil _ _)]
    · rfl

theorem chomp_of_plain (plain : '\r' ∉ line) : chomp line = line :=
  if_neg fun ends => plain (mem_of_getLast? ends)

theorem clean_of_mem_splitLines {text : List Char} (member : line ∈ splitLines text) :
    '\n' ∉ line := by
  unfold splitLines at member
  rcases mem_append.mp member with there | last
  · obtain ⟨whole, inFeeds, rfl⟩ := List.mem_map.mp there
    exact fun inside => clean_of_mem_feeds (dropLast_subset _ inFeeds)
      (mem_of_mem_chomp inside)
  · rw [mem_singleton.mp last]
    rw [getLast?_eq_some_getLast (feeds_ne_nil text)]
    exact clean_of_mem_feeds (getLast_mem _)

theorem splitLines_ne_nil (text : List Char) : splitLines text ≠ [] :=
  append_ne_nil_of_right_ne_nil _ (cons_ne_nil _ _)

/-! ### Taking apart what was put together -/

@[simp] theorem joinLines_singleton (line : List Char) : joinLines [line] = line :=
  append_nil _

theorem joinLines_cons (line : List Char) (more : lines ≠ []) :
    joinLines (line :: lines) = line ++ '\n' :: joinLines lines := by
  obtain ⟨next, rest, rfl⟩ := exists_cons_of_ne_nil more
  rfl

theorem feeds_joinLines (some_ : lines ≠ []) (clean : ∀ line ∈ lines, '\n' ∉ line) :
    feeds (joinLines lines) = lines := by
  induction lines with
  | nil => exact absurd rfl some_
  | cons line lines inductionHypothesis =>
    obtain ⟨here, there⟩ := forall_mem_cons.mp clean
    by_cases more : lines = []
    · rw [more, joinLines_singleton, feeds_of_clean here]
    · rw [joinLines_cons line more, feeds_append_feed here, inductionHypothesis more there]

theorem joinLines_concat (some_ : lines ≠ []) (last : List Char) :
    joinLines (lines ++ [last]) = joinLines lines ++ '\n' :: last := by
  induction lines with
  | nil => exact absurd rfl some_
  | cons line lines inductionHypothesis =>
    by_cases more : lines = []
    · rw [more, singleton_append, joinLines_cons line (cons_ne_nil last []),
        joinLines_singleton, joinLines_singleton]
    · rw [cons_append, joinLines_cons _ (append_ne_nil_of_left_ne_nil more _),
        inductionHypothesis more, joinLines_cons line more, append_assoc]
      rfl

/-- A text that was put together and ended is the lines, with nothing behind them. -/
theorem feeds_ended (some_ : lines ≠ []) (clean : ∀ line ∈ lines, '\n' ∉ line) :
    feeds (joinLines lines ++ ['\n']) = lines ++ [[]] := by
  rw [← joinLines_concat some_]
  refine feeds_joinLines (append_ne_nil_of_left_ne_nil some_ _) ?_
  intro line member
  obtain there | last := mem_append.mp member
  · exact clean line there
  · rw [mem_singleton.mp last]
    exact not_mem_nil

/-- The lines of a text of one line more that is empty. -/
theorem splitLines_ended (some_ : lines ≠ []) (clean : ∀ line ∈ lines, '\n' ∉ line) :
    splitLines (joinLines lines ++ ['\n']) = lines.map chomp ++ [[]] := by
  unfold splitLines
  rw [feeds_ended some_ clean, dropLast_concat, getLast?_concat]
  rfl

/-- What is read of lines put together and ended: the lines, without the carriage returns they
ended in, and empty lines. -/
theorem splitLines_ended_rest (clean : ∀ line ∈ lines, '\n' ∉ line) :
    ∃ rest, (∀ line ∈ rest, line = []) ∧
      splitLines (joinLines lines ++ ['\n']) = lines.map chomp ++ rest := by
  by_cases some_ : lines = []
  · subst some_
    exact ⟨[[], []], by decide, rfl⟩
  · exact ⟨[[]], fun line member => mem_singleton.mp member, splitLines_ended some_ clean⟩

/-- What is read of lines put together and closed. -/
theorem splitLines_closed (clean : ∀ line ∈ lines, '\n' ∉ line) :
    ∃ rest, (∀ line ∈ rest, line = []) ∧
      splitLines (closed (joinLines lines)) = lines.map chomp ++ rest := by
  unfold closed
  split
  · rename_i ends
    have some_ : lines ≠ [] := by
      rintro rfl
      cases ends
    obtain ⟨front, last, rfl⟩ := (eq_nil_or_concat' lines).resolve_left some_
    have lastClean : '\n' ∉ last := clean last (mem_append_right _ mem_cons_self)
    have unended : last.getLast? ≠ some '\n' := fun same =>
      lastClean (mem_of_getLast? same)
    by_cases more : front = []
    · rw [more] at ends
      exact absurd ends (by rwa [nil_append, joinLines_singleton])
    · rw [joinLines_concat more] at ends ⊢
      cases last with
      | nil =>
        refine ⟨[], fun line member => absurd member not_mem_nil, ?_⟩
        rw [splitLines_ended more fun line member => clean line (mem_append_left _ member),
          map_append, append_nil]
        rfl
      | cons char last =>
        rw [getLast?_append_of_ne_nil _ (cons_ne_nil _ _),
          getLast?_cons_cons] at ends
        exact absurd ends unended
  · exact splitLines_ended_rest clean

/-! ### How many lines -/

/-- A text that was put together and closed is the lines, or the lines and nothing after them. -/
theorem feeds_closed (some_ : lines ≠ []) (clean : ∀ line ∈ lines, '\n' ∉ line) :
    feeds (closed (joinLines lines)) = lines ∨
      feeds (closed (joinLines lines)) = lines ++ [[]] := by
  unfold closed
  split
  · exact Or.inl (feeds_joinLines some_ clean)
  · exact Or.inr (feeds_ended some_ clean)

theorem getLast_closed (text : List Char) : (closed text).getLast? = some '\n' := by
  unfold closed
  split
  · assumption
  · exact getLast?_concat

theorem chomp_append {value : List Char} (front : List Char) (some_ : value ≠ []) :
    chomp (front ++ value) = front ++ chomp value := by
  unfold chomp
  rw [getLast?_append_of_ne_nil _ some_]
  split
  · exact dropLast_append_of_ne_nil some_
  · rfl

end Text

/-
This file is about a text as words with blanks between. Taken apart at its blanks, and
without what is empty, a text gives exactly the words it is written as.
-/

import Geeboard.Text.Lines

namespace Text

open List

/-- A word: no blank in it, and not nothing. -/
def IsWord (word : List Char) : Prop := word ≠ [] ∧ ∀ char ∈ word, isSpace char = false

/-- A text that is words with blanks between, and nothing around them. -/
inductive Spaced : List (List Char) → List Char → Prop
  | last {word : List Char} (solid : IsWord word) : Spaced [word] word
  | more {word gap rest : List Char} {words : List (List Char)} (solid : IsWord word)
      (some_ : gap ≠ []) (blank : ∀ char ∈ gap, isSpace char = true) (after : Spaced words rest) :
      Spaced (word :: words) (word ++ gap ++ rest)

/-- What is left of a text taken apart at its blanks. -/
def wordsOf (text : List Char) : List (List Char) :=
  (text.splitOnP isSpace).filter fun word => !word.isEmpty

theorem wordsOf_word {word : List Char} (solid : IsWord word) : wordsOf word = [word] := by
  rw [wordsOf, splitOnP_eq_singleton solid.2, filter_singleton,
    isEmpty_eq_false_iff.mpr solid.1]
  rfl

theorem wordsOf_blank (char : Char) (text : List Char) (blank : isSpace char = true) :
    wordsOf (char :: text) = wordsOf text := by
  have apart := @List.splitOnP_append_cons_of_forall_mem _ isSpace [] (fun _ none_ => nomatch none_)
    char blank text
  rw [nil_append] at apart
  rw [wordsOf, apart]
  rfl

theorem wordsOf_word_blank {word : List Char} (solid : IsWord word) (char : Char)
    (text : List Char) (blank : isSpace char = true) :
    wordsOf (word ++ char :: text) = word :: wordsOf text := by
  rw [wordsOf, splitOnP_append_cons_of_forall_mem solid.2 char blank text,
    filter_cons_of_pos]
  · rfl
  · rw [isEmpty_eq_false_iff.mpr solid.1]
    rfl

theorem wordsOf_blanks_append {blanks : List Char}
    (blank : ∀ char ∈ blanks, isSpace char = true) (text : List Char) :
    wordsOf (blanks ++ text) = wordsOf text := by
  induction blanks with
  | nil => rfl
  | cons char blanks inductionHypothesis =>
    rw [cons_append, wordsOf_blank char _ (blank char mem_cons_self),
      inductionHypothesis fun other member => blank other (mem_cons_of_mem _ member)]

theorem wordsOf_append_blanks (text : List Char) {blanks : List Char}
    (blank : ∀ char ∈ blanks, isSpace char = true) : wordsOf (text ++ blanks) = wordsOf text := by
  induction blanks generalizing text with
  | nil => rw [append_nil]
  | cons char blanks inductionHypothesis =>
    have here : isSpace char = true := blank char mem_cons_self
    have ends : wordsOf (text ++ [char]) = wordsOf text := by
      rw [wordsOf, splitOnP_append_cons text [] here, filter_append]
      exact append_nil _
    rw [← singleton_append, ← append_assoc,
      inductionHypothesis _ fun other member => blank other (mem_cons_of_mem _ member), ends]

/-- The words of a text are what it is taken apart into. -/
theorem Spaced.wordsOf_eq {words : List (List Char)} {text : List Char}
    (spaced : Spaced words text) : wordsOf text = words := by
  induction spaced with
  | last solid => exact wordsOf_word solid
  | @more word gap rest words solid some_ blank _ inductionHypothesis =>
    obtain ⟨char, gap, rfl⟩ := exists_cons_of_ne_nil some_
    rw [append_assoc, cons_append,
      wordsOf_word_blank solid char _ (blank char mem_cons_self),
      wordsOf_blanks_append (fun other member => blank other (mem_cons_of_mem _ member)), inductionHypothesis]

/-- A text begins with a run of characters of a kind, and what follows begins with none. -/
theorem exists_span (kind : Char → Bool) (text : List Char) :
    ∃ front back, text = front ++ back ∧ (∀ char ∈ front, kind char = true) ∧
      ∀ char, back.head? = some char → kind char = false := by
  refine ⟨text.takeWhile kind, text.dropWhile kind, takeWhile_append_dropWhile.symm,
    fun _ member => mem_takeWhile_imp member, fun char head => ?_⟩
  have stops := @List.head?_dropWhile_not _ kind text
  rw [head] at stops
  exact stops

/-- The last character of what stands at the end of a text is its last. -/
theorem getLast?_of_suffix {front back : List Char} (some_ : back ≠ []) :
    (front ++ back).getLast? = back.getLast? := by
  rw [getLast?_append]
  cases last : back.getLast? with
  | none => exact absurd (getLast?_eq_none_iff.mp last) some_
  | some char => rfl

/-- A text that neither begins nor ends with a blank is its words. -/
theorem spaced_wordsOf (size : Nat) (text : List Char) (short : text.length ≤ size)
    (some_ : text ≠ []) (first : ∀ char, text.head? = some char → isSpace char = false)
    (last : ∀ char, text.getLast? = some char → isSpace char = false) :
    Spaced (wordsOf text) text := by
  induction size generalizing text with
  | zero => exact absurd (eq_nil_of_length_eq_zero (Nat.le_zero.mp short)) some_
  | succ size inductionHypothesis =>
    obtain ⟨word, rest, rfl, solid, ends⟩ := exists_span (fun char => !isSpace char) text
    have isWord : IsWord word := by
      constructor
      · rintro rfl
        obtain ⟨char, after, rfl⟩ := exists_cons_of_ne_nil some_
        have blank := ends char rfl
        rw [Bool.not_eq_false', first char rfl] at blank
        exact Bool.false_ne_true blank
      · exact fun char member => Bool.not_eq_true' _ ▸ solid char member
    by_cases over_ : rest = []
    · subst over_
      rw [append_nil, wordsOf_word isWord]
      exact .last isWord
    obtain ⟨gap, after, rfl, blanks, begins⟩ := exists_span isSpace rest
    obtain ⟨blank, more, rfl⟩ : ∃ blank more, gap = blank :: more := by
      refine exists_cons_of_ne_nil ?_
      rintro rfl
      obtain ⟨char, behind, rfl⟩ := exists_cons_of_ne_nil over_
      have isBlank := ends char rfl
      rw [Bool.not_eq_false', begins char rfl] at isBlank
      exact Bool.false_ne_true isBlank
    -- nothing but blanks behind the word would end the text in one
    have behind : after ≠ [] := by
      rintro rfl
      obtain ⟨end_, isEnd⟩ : ∃ end_, (blank :: more).getLast? = some end_ :=
        ⟨_, getLast?_eq_some_getLast (cons_ne_nil _ _)⟩
      have ended := last end_ (by
        rw [getLast?_of_suffix over_, append_nil, isEnd])
      rw [blanks end_ (mem_of_getLast? isEnd)] at ended
      exact Bool.false_ne_true ended.symm
    have spaced := inductionHypothesis after (by
        simp only [length_append, length_cons] at short
        omega) behind begins
      (fun char isLast => last char (by
        rw [getLast?_of_suffix over_, getLast?_of_suffix behind, isLast]))
    have taken : wordsOf (word ++ (blank :: more ++ after)) = word :: wordsOf after := by
      rw [cons_append, wordsOf_word_blank isWord blank _ (blanks blank mem_cons_self),
        wordsOf_blanks_append fun char member => blanks char (mem_cons_of_mem _ member)]
    rw [taken, ← append_assoc]
    exact .more isWord (cons_ne_nil _ _) blanks spaced

theorem wordsOf_trimmed (text : List Char) : wordsOf (trimmed text) = wordsOf text := by
  have lead : text = text.takeWhile isSpace ++ text.dropWhile isSpace :=
    takeWhile_append_dropWhile.symm
  obtain ⟨trail, whole, blank⟩ := exists_trimEnd_append (text.dropWhile isSpace)
  have ends : wordsOf (text.dropWhile isSpace) = wordsOf (trimmed text) := by
    rw [whole, wordsOf_append_blanks _ blank]
    rfl
  rw [← ends]
  conv_rhs => rw [lead]
  exact (wordsOf_blanks_append (fun _ member => mem_takeWhile_imp member) _).symm

/-- The words that a text is, but for blanks around them, are what it is taken apart into. -/
theorem spaced_trimmed_iff (words : List (List Char)) (some_ : words ≠ []) (text : List Char) :
    Spaced words (trimmed text) ↔ wordsOf text = words := by
  rw [← wordsOf_trimmed]
  constructor
  · exact Spaced.wordsOf_eq
  · rintro rfl
    refine spaced_wordsOf _ _ (le_refl _) ?some ?first ?last
    case some =>
      intro empty
      rw [empty] at some_
      exact some_ rfl
    case first =>
      intro char isFirst
      obtain ⟨rest, whole⟩ := head?_eq_some_iff.mp isFirst
      obtain ⟨trail, shape, _⟩ := exists_trimEnd_append (text.dropWhile isSpace)
      have stops := @List.head?_dropWhile_not _ isSpace text
      have head : trimEnd (text.dropWhile isSpace) = char :: rest := whole
      rw [shape, head] at stops
      exact stops
    case last =>
      intro char is_last
      obtain ⟨before, whole⟩ := getLast?_eq_some_iff.mp is_last
      have stops := rdropWhile_last_not isSpace (text.dropWhile isSpace)
        (by
          show trimmed text ≠ []
          rw [whole]
          exact append_ne_nil_of_right_ne_nil _ (cons_ne_nil _ _))
      have ends : (List.rdropWhile isSpace (text.dropWhile isSpace)) = before ++ [char] := whole
      simp only [ends, getLast_append_singleton] at stops
      exact (Bool.not_eq_true _).mp stops

end Text

/-
This file is about results that may be failures: what follows from a sequence of
steps, or from a walk over a list, having come to a result.
-/

import Mathlib.Data.List.Forall2

namespace Systems

open List Option

variable {Failure First Second Third : Type}

theorem ok_of_bind {first : Except Failure First} {rest : First → Except Failure Second}
    {result : Second} (ended : (first >>= rest) = .ok result) :
    ∃ middle, first = .ok middle ∧ rest middle = .ok result := by
  cases first with
  | error failure => cases ended
  | ok middle => exact ⟨middle, rfl, ended⟩

theorem ok_of_map {first : Except Failure First} {change : First → Second} {result : Second}
    (ended : first.map change = .ok result) :
    ∃ middle, first = .ok middle ∧ change middle = result := by
  cases first with
  | error failure => cases ended
  | ok middle => exact ⟨middle, rfl, Except.ok.inj ended⟩

variable {list : List First} {results : List Second} {walk : First → Except Failure Second}

/-- A walk over a list that came to a result has one for each element. -/
theorem forall₂_of_mapM (ended : list.mapM walk = .ok results) :
    List.Forall₂ (fun one result => walk one = .ok result) list results := by
  induction list generalizing results with
  | nil =>
    cases ended
    exact .nil
  | cons one list inductionHypothesis =>
    rw [mapM_cons] at ended
    obtain ⟨result, here, rest⟩ := ok_of_bind ended
    obtain ⟨others, there, same⟩ := ok_of_bind rest
    cases same
    exact .cons here (inductionHypothesis there)

/-- In two lists that are related one by one, each element has one that it is related to. -/
theorem exists_right_of_forall₂ {relates : First → Second → Prop}
    (pairs : List.Forall₂ relates list results) :
    ∀ one ∈ list, ∃ result ∈ results, relates one result := by
  induction pairs with
  | nil => exact fun one member => absurd member not_mem_nil
  | cons here there inductionHypothesis =>
    refine forall_mem_cons.mpr ⟨⟨_, mem_cons_self, here⟩, fun one member => ?_⟩
    obtain ⟨result, inside, related⟩ := inductionHypothesis one member
    exact ⟨result, mem_cons_of_mem _ inside, related⟩

theorem exists_left_of_forall₂ {relates : First → Second → Prop}
    (pairs : List.Forall₂ relates list results) :
    ∀ result ∈ results, ∃ one ∈ list, relates one result :=
  exists_right_of_forall₂ pairs.flip

/-- A walk whose steps all come to a result comes to one. -/
theorem exists_mapM_ok {holds : First → Second → Prop}
    (each : ∀ one ∈ list, ∃ result, walk one = .ok result ∧ holds one result) :
    ∃ results, list.mapM walk = .ok results ∧ List.Forall₂ holds list results := by
  induction list with
  | nil => exact ⟨[], rfl, .nil⟩
  | cons one list inductionHypothesis =>
    obtain ⟨here, there⟩ := forall_mem_cons.mp each
    obtain ⟨result, walked, is_⟩ := here
    obtain ⟨results, others, are⟩ := inductionHypothesis there
    refine ⟨result :: results, ?_, .cons is_ are⟩
    rw [mapM_cons, walked, others]
    rfl

/-- Every result of a walk is one of its steps'. -/
theorem exists_of_mem_mapM (ended : list.mapM walk = .ok results) :
    ∀ result ∈ results, ∃ one ∈ list, walk one = .ok result :=
  exists_left_of_forall₂ (forall₂_of_mapM ended)

/-- What every result has, when each step's result has it. -/
theorem forall_of_mapM {holds : Second → Prop}
    (each : ∀ one ∈ list, ∀ result, walk one = .ok result → holds result)
    (ended : list.mapM walk = .ok results) : ∀ result ∈ results, holds result := by
  intro result member
  obtain ⟨one, inside, made⟩ := exists_of_mem_mapM ended result member
  exact each one inside result made

/-- What is picked from the results of a walk is what is picked from each step's. -/
theorem filterMap_flatten_of_mapM {walk : First → Except Failure (List Second)}
    {results : List (List Second)} {pick : Second → Option Third} {has : First → Option Third}
    (each : ∀ one result, walk one = .ok result → result.filterMap pick = (has one).toList)
    (ended : list.mapM walk = .ok results) :
    results.flatten.filterMap pick = list.filterMap has := by
  have pairs := forall₂_of_mapM ended
  clear ended
  induction pairs with
  | nil => rfl
  | @cons one result list results here there inductionHypothesis =>
    rw [flatten_cons, filterMap_append, each one result here, inductionHypothesis]
    cases picked : has one with
    | none => exact (filterMap_cons_none picked).symm
    | some value => exact (filterMap_cons_some picked).symm

/-- What is kept by each step of a walk that carries a state is kept by the walk. -/
theorem kept_of_foldlM {State : Type} (holds : State → Prop)
    {walk : State → First → Except Failure State} {start last : State}
    (each : ∀ state, ∀ one ∈ list, ∀ next, holds state → walk state one = .ok next → holds next)
    (before : holds start) (ended : list.foldlM walk start = .ok last) : holds last := by
  induction list generalizing start with
  | nil =>
    cases ended
    exact before
  | cons one list inductionHypothesis =>
    rw [foldlM_cons] at ended
    obtain ⟨next, here, rest⟩ := ok_of_bind ended
    exact inductionHypothesis (fun state other member => each state other
      (mem_cons_of_mem _ member)) (each _ _ mem_cons_self _ before here) rest

/-- A walk over a list whose steps may give nothing gives what each step gives. -/
theorem mapM_eq_some_iff {walk : First → Option Second} : list.mapM walk = some results ↔
      List.Forall₂ (fun one result => walk one = some result) list results := by
  induction list generalizing results with
  | nil =>
    rw [mapM_nil, List.forall₂_nil_left_iff]
    exact ⟨fun same => (some.inj same).symm, fun same => congrArg some same.symm⟩
  | cons one list inductionHypothesis =>
    rw [mapM_cons, List.forall₂_cons_left_iff]
    constructor
    · intro ended
      obtain ⟨result, here, rest⟩ := bind_eq_some_iff.mp ended
      obtain ⟨others, there, same⟩ := bind_eq_some_iff.mp rest
      exact ⟨result, others, here, inductionHypothesis.mp there, (some.inj same).symm⟩
    · rintro ⟨result, others, here, there, rfl⟩
      exact bind_eq_some_iff.mpr ⟨result, here,
        bind_eq_some_iff.mpr ⟨others, inductionHypothesis.mpr there, rfl⟩⟩

/-- A walk over a list gives something exactly when each of its steps does. -/
theorem exists_mapM_iff {walk : First → Option Second} :
    (∃ results, list.mapM walk = some results) ↔ ∀ one ∈ list, ∃ result, walk one = some result := by
  simp only [mapM_eq_some_iff]
  constructor
  · rintro ⟨results, pairs⟩
    induction pairs with
    | nil => exact fun one member => nomatch member
    | cons here _ inductionHypothesis => exact forall_mem_cons.mpr ⟨⟨_, here⟩, inductionHypothesis⟩
  · intro each
    induction list with
    | nil => exact ⟨[], .nil⟩
    | cons one list inductionHypothesis =>
      obtain ⟨here, there⟩ := forall_mem_cons.mp each
      obtain ⟨result, made⟩ := here
      obtain ⟨results, pairs⟩ := inductionHypothesis there
      exact ⟨result :: results, .cons made pairs⟩

end Systems

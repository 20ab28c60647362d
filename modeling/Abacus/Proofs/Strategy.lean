/-
**Where a step works.**

A step works in the leftmost of the groups that have no groups in them, or in the whole expression
if there is no group. There it does what is due, and a group whose inside becomes a literal is gone
in the same step. Everything around the group stays as it is.

* `Expr.FirstGroup`: the group that a step works in, in its place;
* `Expr.reduceGroup_fill`: the search for groups finds it;
* `Expr.DueStep`, `Expr.step_eq_reduced_iff`: a step does what is due in its place;
* `Expr.DueFailure`, `Expr.failure?_step_eq_some_iff`: it fails where this has no value;
* `step_reduces_first`: what every step of the reduction of a text does.
-/

import Abacus.Proofs.Contraction

namespace Abacus

namespace Expr

/-! ### Groups without groups -/

/-- A group without groups in it, at the column. -/
def InnermostGroup (column : Nat) (e : Expr) : Prop :=
  ∃ inner, e = .group inner column ∧ inner.Groupless

theorem stands_innermostGroup : Stands InnermostGroup := by
  rintro column e ⟨inner, rfl, -⟩
  exact List.mem_cons_self

/-- Where there is a group, there is one without groups in it. -/
theorem has_innermostGroup {e inner : Expr} {column : Nat}
    (contains : e.Contains (.group inner column)) : e.Has InnermostGroup := by
  induction e using induction generalizing inner column with
  | literal value start => cases contains
  | group outer start ih =>
    by_cases groupless : outer.Groupless
    · exact ⟨start, _, .refl _, outer, rfl, groupless⟩
    · simp only [Groupless, not_forall, not_not] at groupless
      obtain ⟨inner, column, inside⟩ := groupless
      exact (ih inside).of_contains (.group (.refl _))
  | negate operand start ih =>
    cases contains with
    | negate inside => exact (ih inside).of_contains (.negate (.refl _))
  | chain head links ihHead ihOperands =>
    cases contains with
    | head inside => exact (ihHead inside).of_contains (.head (.refl _))
    | operand member inside =>
      exact (ihOperands _ member inside).of_contains (.operand member (.refl _))

theorem groupless_of_none {e : Expr} (none : ¬ e.Has InnermostGroup) : e.Groupless :=
  fun _ _ contains => none (has_innermostGroup contains)

theorem reduceGroup_eq_irreducible_of_groupless {e : Expr} (groupless : e.Groupless) :
    reduceGroup e = .irreducible := by
  induction e using induction with
  | literal value column => rfl
  | group inner column _ => exact absurd (.refl _) (groupless inner column)
  | negate operand column ih =>
    exact reduceGroup_negate_eq_irreducible_iff.mpr (ih (groupless.of_contains (.negate (.refl _))))
  | chain head links ihHead ihOperands =>
    exact reduceGroup_chain_eq_irreducible_iff.mpr
      ⟨ihHead (groupless.of_contains (.head (.refl _))),
        reduceGroupLinks_eq_irreducible_iff.mpr fun link member =>
          ihOperands link member (groupless.of_contains (.operand member (.refl _)))⟩

/-! ### The first group -/

/-- The expression has the group in the context. There are no groups in it, and it is the leftmost
of such groups. -/
structure FirstGroup (context : Context) (inner : Expr) (column : Nat) (e : Expr) : Prop where
  here : e = context.fill (.group inner column)
  groupless : inner.Groupless
  leftmost : Leftmost InnermostGroup column e

theorem groupless_or_exists_firstGroup (e : Expr) :
    e.Groupless ∨ ∃ context inner column, FirstGroup context inner column e := by
  by_cases has : e.Has InnermostGroup
  · obtain ⟨column, ⟨_, contains, inner, rfl, groupless⟩, leftmost⟩ := exists_leftmost has
    obtain ⟨context, same⟩ := contains_iff_exists_fill.mp contains
    exact .inr ⟨context, inner, column, same, groupless, leftmost⟩
  · exact .inl (groupless_of_none has)

/-- **The search for groups finds the leftmost without groups in it.** A group around the hole is
not looked at before what is in it. -/
theorem reduceGroup_fill {context : Context} {inner : Expr} {column : Nat}
    (groupless : inner.Groupless) (finds : reduceInside inner column ≠ .irreducible)
    (tidy : (context.fill (.group inner column)).Tidy)
    (leftmost : Leftmost InnermostGroup column (context.fill (.group inner column))) :
    reduceGroup (context.fill (.group inner column)) =
      (reduceInside inner column).map context.fill := by
  induction context with
  | hole =>
    rw [Context.fill, reduceGroup, reduceGroup_eq_irreducible_of_groupless groupless]
    cases reduceInside inner column <;> rfl
  | group inside outerColumn ih =>
    have found := ih (tidy.of_contains (.group (.refl _)))
      (leftmost.of_contains (.group (.refl _)))
    rw [Context.fill, reduceGroup, found, Attempt.map_map,
      Attempt.orElse_of_ne_irreducible (Attempt.map_ne_irreducible finds)]
    rfl
  | negate inside signColumn ih =>
    have found := ih (tidy.of_contains (.negate (.refl _)))
      (leftmost.of_contains (.negate (.refl _)))
    rw [Context.fill, reduceGroup, found, Attempt.map_map]
    rfl
  | head inside links ih =>
    have found := ih (tidy.of_contains (.head (.refl _)))
      (leftmost.of_contains (.head (.refl _)))
    rw [Context.fill, reduceGroup, found, Attempt.map_map,
      Attempt.orElse_of_ne_irreducible (Attempt.map_ne_irreducible finds)]
    rfl
  | operand head before op inside opColumn links ih =>
    have found := ih (tidy.of_contains (.operand List.mem_append_cons_self (.refl _)))
      (leftmost.of_contains (.operand List.mem_append_cons_self (.refl _)))
    have stands : column ∈ (inside.fill (group inner column)).columns :=
      HasPart.mem_columns stands_innermostGroup
        ⟨_, inside.contains_fill _, inner, rfl, groupless⟩
    obtain ⟨noneInHead, noneBefore⟩ :=
      none_left_of_operand stands_innermostGroup tidy.increasing leftmost stands
    have operands : reduceGroupLinks
        (before ++ ⟨op, inside.fill (group inner column), opColumn⟩ :: links) =
        (reduceGroup (inside.fill (group inner column))).map fun next =>
          before ++ ⟨op, next, opColumn⟩ :: links :=
      search_append (fun op operand column links => by rw [reduceGroupLinks])
        (fun link member =>
          reduceGroup_eq_irreducible_of_groupless (groupless_of_none (noneBefore link member)))
        op (found ▸ Attempt.map_ne_irreducible finds) opColumn links
    rw [Context.fill, reduceGroup,
      reduceGroup_eq_irreducible_of_groupless (groupless_of_none noneInHead), operands, found,
      Attempt.map_map, Attempt.map_map]
    rfl

/-! ### Steps -/

/-- The reduction that is due in an expression, with what it leaves: in the whole expression if
there is no group in it, and else in its first group. If a literal stands in this group, or if a
literal is what is left of the inside, the literal takes the place of the group. -/
inductive DueStep (e : Expr) : Reduction → Expr → Prop
  | whole {reduction : Reduction} {next : Expr} (groupless : e.Groupless)
      (due : Due e reduction next) : DueStep e reduction next
  | ungroup {context : Context} {value : Int64} {start column : Nat}
      (first : FirstGroup context (.literal value start) column e) :
      DueStep e (.group value column) (context.fill (.literal value column))
  | closed {context : Context} {inner : Expr} {value : Int64} {start column : Nat}
      {reduction : Reduction} (first : FirstGroup context inner column e)
      (due : Due inner reduction (.literal value start)) :
      DueStep e reduction (context.fill (.literal value column))
  | inside {context : Context} {inner next : Expr} {column : Nat} {reduction : Reduction}
      (first : FirstGroup context inner column e) (due : Due inner reduction next)
      (noLiteral : ∀ value start, next ≠ .literal value start) :
      DueStep e reduction (context.fill (.group next column))

/-- The error of the reduction that is due in an expression, if this has no value. -/
inductive DueFailure (e : Expr) : RuntimeError → Prop
  | whole {error : RuntimeError} (groupless : e.Groupless) (fault : DueFault e error) :
      DueFailure e error
  | inside {context : Context} {inner : Expr} {column : Nat} {error : RuntimeError}
      (first : FirstGroup context inner column e) (fault : DueFault inner error) :
      DueFailure e error

section Steps

variable {context : Context} {inner e next : Expr} {column : Nat} {reduction : Reduction}
  {error : RuntimeError}

theorem FirstGroup.region (tidy : e.Tidy) (first : FirstGroup context inner column e) :
    inner.Region where
  toTidy := tidy.of_contains (first.here ▸ (context.contains_fill _).trans (.group (.refl _)))
  groupless := first.groupless

theorem step_of_groupless (groupless : e.Groupless) : e.step = reduceFlat e := by
  rw [step, reduceGroup_eq_irreducible_of_groupless groupless]
  rfl

theorem reduceInside_ne_irreducible (region : inner.Region) (column : Nat) :
    reduceInside inner column ≠ .irreducible := by
  intro nothing
  obtain ⟨nothing, noLiteral⟩ := reduceInside_eq_irreducible_iff.mp nothing
  rw [← step_of_groupless region.groupless] at nothing
  obtain ⟨value, start, rfl⟩ := (linked_of_layered _ region.layered).exists_eq_literal nothing
  cases noLiteral

theorem step_of_firstGroup (tidy : e.Tidy) (first : FirstGroup context inner column e) :
    e.step = (reduceInside inner column).map context.fill := by
  have finds := reduceInside_ne_irreducible (first.region tidy) column
  obtain ⟨rfl, groupless, leftmost⟩ := first
  rw [step, reduceGroup_fill groupless finds tidy leftmost,
    Attempt.orElse_of_ne_irreducible (Attempt.map_ne_irreducible finds)]

theorem Due.ne_literal (region : e.Region) (due : Due e reduction next) (value : Int64)
    (start : Nat) : e ≠ .literal value start := by
  rintro rfl
  nomatch (reduceFlat_eq_reduced_iff region).mpr due

theorem Context.eq_literal_of_fill {part : Expr} {value : Int64} {start : Nat}
    (same : context.fill part = .literal value start) : part = .literal value start := by
  cases context with
  | hole => exact same
  | _ => cases same

/-- The literal that an operation leaves is its value. -/
theorem Due.eq_value {left right value result : Int64} {op : Operator} {start : Nat}
    (due : Due e (.operation left op right value column) next)
    (isLiteral : next = .literal result start) : result = value := by
  cases due with
  | operation due applied => cases Context.eq_literal_of_fill isLiteral
  | last due applied =>
    cases Context.eq_literal_of_fill isLiteral
    rfl

/-- What remains of a group is the literal inside, or the group. -/
theorem regroup_eq_iff :
    regroup inner column = next ↔
      (∃ value start, inner = .literal value start ∧ next = .literal value column) ∨
      (∀ value start, inner ≠ .literal value start) ∧ next = .group inner column := by
  cases inner <;> simp [regroup, literal?, eq_comm]

theorem reduceInside_eq_reduced_iff (region : inner.Region)
    (noLiteral : ∀ value start, inner ≠ .literal value start) :
    reduceInside inner column = .reduced reduction next ↔
      ∃ inner', Due inner reduction inner' ∧ regroup inner' column = next := by
  simp only [← reduceFlat_eq_reduced_iff region, reduceInside]
  cases reduceFlat inner <;> simp [literal?_eq_none_iff.mpr noLiteral]

/-- **A step in a group replaces it if it becomes a literal**, and else what is inside. -/
theorem step_eq_reduced_iff_of_firstGroup (tidy : e.Tidy)
    (first : FirstGroup context inner column e)
    (noLiteral : ∀ value start, inner ≠ .literal value start) :
    e.step = .reduced reduction next ↔
      (∃ value start, Due inner reduction (.literal value start) ∧
        next = context.fill (.literal value column)) ∨
      ∃ inner', Due inner reduction inner' ∧ (∀ value start, inner' ≠ .literal value start) ∧
        next = context.fill (.group inner' column) := by
  simp only [step_of_firstGroup tidy first, Attempt.map_eq_reduced_iff,
    reduceInside_eq_reduced_iff (first.region tidy) noLiteral, regroup_eq_iff]
  constructor
  · rintro ⟨_, ⟨inner', due, ⟨value, start, rfl, rfl⟩ | ⟨other, rfl⟩⟩, rfl⟩
    · exact .inl ⟨value, start, due, rfl⟩
    · exact .inr ⟨inner', due, other, rfl⟩
  · rintro (⟨value, start, due, rfl⟩ | ⟨inner', due, other, rfl⟩)
    · exact ⟨_, ⟨_, due, .inl ⟨value, start, rfl, rfl⟩⟩, rfl⟩
    · exact ⟨_, ⟨_, due, .inr ⟨other, rfl⟩⟩, rfl⟩

/-- **A step does what is due.** -/
theorem step_eq_reduced_iff (tidy : e.Tidy) :
    e.step = .reduced reduction next ↔ DueStep e reduction next := by
  constructor
  · intro stepped
    rcases groupless_or_exists_firstGroup e with groupless | ⟨context, inner, column, first⟩
    · rw [step_of_groupless groupless, reduceFlat_eq_reduced_iff ⟨tidy, groupless⟩] at stepped
      exact .whole groupless stepped
    · cases found : inner.literal? with
      | some value =>
        obtain ⟨start, rfl⟩ := literal?_eq_some_iff.mp found
        rw [step_of_firstGroup tidy first] at stepped
        cases stepped
        exact .ungroup first
      | none =>
        rw [step_eq_reduced_iff_of_firstGroup tidy first (literal?_eq_none_iff.mp found)] at stepped
        rcases stepped with ⟨value, start, due, rfl⟩ | ⟨inner', due, other, rfl⟩
        · exact .closed first due
        · exact .inside first due other
  · rintro (⟨groupless, due⟩ | ⟨first⟩ | ⟨first, due⟩ | ⟨first, due, other⟩)
    · rwa [step_of_groupless groupless, reduceFlat_eq_reduced_iff ⟨tidy, groupless⟩]
    · rw [step_of_firstGroup tidy first]
      rfl
    · rw [step_eq_reduced_iff_of_firstGroup tidy first (due.ne_literal (first.region tidy))]
      exact .inl ⟨_, _, due, rfl⟩
    · rw [step_eq_reduced_iff_of_firstGroup tidy first (due.ne_literal (first.region tidy))]
      exact .inr ⟨_, due, other, rfl⟩

theorem failure?_reduceInside (inner : Expr) (column : Nat) :
    (reduceInside inner column).failure? = (reduceFlat inner).failure? := by
  rw [reduceInside]
  cases reduceFlat inner with
  | reduced reduction state => rfl
  | irreducible => cases inner.literal? <;> rfl
  | failed error state => rfl

/-- **A step fails where what is due has no value**, and with its error. -/
theorem failure?_step_eq_some_iff (tidy : e.Tidy) :
    e.step.failure? = some error ↔ DueFailure e error := by
  have ofWhole (groupless : e.Groupless) : e.step.failure? = some error ↔ DueFault e error := by
    rw [step_of_groupless groupless, failure?_reduceFlat_eq_some_iff ⟨tidy, groupless⟩]
  have ofGroup {context inner column} (first : FirstGroup context inner column e) :
      e.step.failure? = some error ↔ DueFault inner error := by
    rw [step_of_firstGroup tidy first, Attempt.failure?_map, failure?_reduceInside,
      failure?_reduceFlat_eq_some_iff (first.region tidy)]
  constructor
  · intro fails
    rcases groupless_or_exists_firstGroup e with groupless | ⟨context, inner, column, first⟩
    · exact .whole groupless ((ofWhole groupless).mp fails)
    · exact .inside first ((ofGroup first).mp fails)
  · rintro (⟨groupless, fault⟩ | ⟨first, fault⟩)
    · exact (ofWhole groupless).mpr fault
    · exact (ofGroup first).mpr fault

end Steps

end Expr

open Abacus.Expr

/-- **A step reduces what comes first.** Whatever steps have been made on the expression of a text,
also steps that failed: a step finds nothing only in a literal. Without groups it succeeds with the
reduction that is due, and with no other. Otherwise there is a leftmost group without groups in it.
If a literal stands in this group, the step takes the parentheses away. If not, it succeeds with the
reduction that is due inside; where this leaves a literal, the literal takes the place of the group,
and otherwise the group stays around what is left. Everything around the group stays as it is. -/
theorem step_reduces_first {source : String} {e state : Expr} (parsed : parse source = .ok e)
    {steps : Nat} (reached : afterStep^[steps] e = state) :
    (state.step = .irreducible ↔ ∃ value column, state = .literal value column) ∧
      (state.Groupless ∨ ∃ context inner column, FirstGroup context inner column state) ∧
      (state.Groupless → ∀ reduction next,
        state.step = .reduced reduction next ↔ Due state reduction next) ∧
      ∀ context inner column, FirstGroup context inner column state →
        (∀ value start, inner = .literal value start →
          state.step = .reduced (.group value column) (context.fill (.literal value column))) ∧
        ((∀ value start, inner ≠ .literal value start) → ∀ reduction next,
          state.step = .reduced reduction next ↔
            (∃ value start, Due inner reduction (.literal value start) ∧
              next = context.fill (.literal value column)) ∨
            ∃ inner', Due inner reduction inner' ∧ (∀ value start, inner' ≠ .literal value start) ∧
              next = context.fill (.group inner' column)) := by
  have tidy : state.Tidy := reached ▸ tidy_of_parse parsed (rewritesTo_iterate_afterStep e steps)
  refine ⟨(linked_of_layered state tidy.layered).step_eq_irreducible_iff_literal,
    groupless_or_exists_firstGroup state, fun groupless reduction next => ?_,
    fun context inner column first => ⟨?_, fun noLiteral reduction next =>
      step_eq_reduced_iff_of_firstGroup tidy first noLiteral⟩⟩
  · rw [step_of_groupless groupless, reduceFlat_eq_reduced_iff ⟨tidy, groupless⟩]
  · rintro value start rfl
    rw [step_of_firstGroup tidy first]
    rfl

/-- After the first step on `(7)*(4-5)` the second group is the first. Its difference is due, and
the value takes the place of the group. -/
theorem step_reduces_first_of_two_groups :
    ∃ e context inner column start, parse "(7)*(4-5)" = .ok e ∧
      FirstGroup context inner column (afterStep^[1] e) ∧
      Due inner (.operation 4 .sub 5 (-1) 7) (.literal (-1) start) ∧
      (afterStep^[1] e).step =
        .reduced (.operation 4 .sub 5 (-1) 7) (context.fill (.literal (-1) column)) := by
  obtain ⟨e, parsed, test⟩ := exists_parse_of_test "(7)*(4-5)"
    (fun e => match (afterStep^[1] e).reduceGroup with
      | .reduced reduction (.chain head links) =>
        decide (reduction = .operation 4 .sub 5 (-1) 7) && head.literal?.isSome &&
          links.all fun link => link.operand.literal?.isSome
      | _ => false) (by decide +kernel)
  obtain ⟨-, region, -, inGroup⟩ := step_reduces_first parsed (Eq.refl (afterStep^[1] e))
  split at test
  · rename_i reduction head links ran
    simp only [Bool.and_eq_true, decide_eq_true_eq, List.all_eq_true, Option.isSome_iff_exists,
      literal?_eq_some_iff] at test
    obtain ⟨⟨rfl, left, start, rfl⟩, operands⟩ := test
    rcases region with groupless | ⟨context, inner, column, first⟩
    · cases (reduceGroup_eq_irreducible_of_groupless groupless).symm.trans ran
    · have stepped : (afterStep^[1] e).step = .reduced (.operation 4 .sub 5 (-1) 7)
          (.chain (.literal left start) links) := by
        rw [step, ran]
        rfl
      obtain ⟨ofLiteral, ofOther⟩ := inGroup context inner column first
      have noLiteral (value : Int64) (start : Nat) : inner ≠ .literal value start := by
        intro same
        cases stepped.symm.trans (ofLiteral value start same)
      rcases (ofOther noLiteral _ _).mp stepped with
        ⟨value, start, due, same⟩ | ⟨inner', -, -, same⟩
      · obtain rfl := due.eq_value rfl
        exact ⟨e, context, inner, column, start, parsed, first, due, same ▸ stepped⟩
      · have contains := same ▸ context.contains_fill (.group inner' column)
        cases contains with
        | head inside => cases inside
        | operand member inside =>
          obtain ⟨right, inner, literal⟩ := operands _ member
          rw [literal] at inside
          cases inside
  · cases test

end Abacus

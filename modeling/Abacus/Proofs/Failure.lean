/-
**Failing steps.**

A step that fails may have changed the expression: the minus signs to the left of the one that
cannot be folded are literals by then, at any depth. The change does no harm. What is left has the
same value or error, it starts at the same column, and a step on it looks at the same operation
again and fails in the same way.

* `Expr.settles_foldSigns`: folding again finds nothing, or the sign that could not be folded;
* `Expr.unchanged_contract`: an operation that fails leaves everything as it was;
* `Expr.keepsGroups_foldSigns`: folding opens no group for reduction;
* `Expr.repeats_step`: a step that has failed fails again;
* `Expr.step_keeps_meaning`: what every step keeps, and what every later step answers.
-/

import Abacus.Proofs.Progress
import Abacus.Proofs.Refinement

namespace Abacus

namespace Attempt

variable {α β γ : Type}

theorem map_eq_failed_iff {whole : α → β} {attempt : Attempt α} {error : RuntimeError} {state : β} :
    attempt.map whole = .failed error state ↔
      ∃ a, attempt = .failed error a ∧ whole a = state := by
  cases attempt with
  | reduced reduction other => exact ⟨nofun, nofun⟩
  | irreducible => exact ⟨nofun, nofun⟩
  | failed fault other =>
    constructor
    · rintro ⟨⟩
      exact ⟨other, rfl, rfl⟩
    · rintro ⟨_, ⟨⟩, rfl⟩
      rfl

theorem orElse_eq_failed_iff {first second : Attempt α} {error : RuntimeError} {state : α} :
    (first <|> second) = .failed error state ↔
      first = .failed error state ∨ first = .irreducible ∧ second = .failed error state := by
  cases first with
  | reduced reduction other => exact ⟨nofun, nofun⟩
  | irreducible => exact ⟨fun failed => .inr ⟨rfl, failed⟩, fun failed => (failed.resolve_left nofun).2⟩
  | failed fault other => exact ⟨.inl, fun failed => failed.resolve_right nofun⟩

/-- Attempting again what a failed attempt leaves fails in the same way. -/
def Repeats (attempt : α → Attempt α) (a : α) : Prop :=
  ∀ error state, attempt a = .failed error state → attempt state = .failed error state

theorem Repeats.map {attempt : β → Attempt β} {attemptA : α → Attempt α} {whole : α → β}
    (law : ∀ a, attempt (whole a) = (attemptA a).map whole) {a : α} (one : Repeats attemptA a) :
    Repeats attempt (whole a) := by
  intro error state failed
  rw [law] at failed
  obtain ⟨x, part, rfl⟩ := map_eq_failed_iff.mp failed
  rw [law, one error x part]
  rfl

/-- An attempt on the first part of a whole, and on the second if there is nothing in the first. -/
theorem Repeats.either {attempt : γ → Attempt γ} {attemptA : α → Attempt α}
    {attemptB : β → Attempt β} {whole : α → β → γ}
    (law : ∀ a b, attempt (whole a b) =
      ((attemptA a).map (whole · b) <|> (attemptB b).map (whole a))) {a : α} {b : β}
    (one : Repeats attemptA a) (two : Repeats attemptB b) : Repeats attempt (whole a b) := by
  intro error state failed
  rw [law] at failed
  rcases orElse_eq_failed_iff.mp failed with first | ⟨nothing, second⟩
  · obtain ⟨x, part, rfl⟩ := map_eq_failed_iff.mp first
    rw [law, one error x part]
    rfl
  · obtain ⟨y, part, rfl⟩ := map_eq_failed_iff.mp second
    rw [law, map_eq_irreducible_iff.mp nothing, two error y part]
    rfl

/-- What an attempt leaves to be found: the failure, if it has failed. -/
def remains : Attempt α → Attempt α
  | failed error state => .failed error state
  | _ => .irreducible

/-- Attempting again finds what the first attempt leaves to be found, and no more. -/
def Settles (attempt : α → Attempt α) (a : α) : Prop :=
  attempt ((attempt a).stateFrom a) = (attempt a).remains

/-- Attempts on both parts of a whole settle it if they settle the parts. -/
theorem Settles.both {attempt : γ → Attempt γ} {attemptA : α → Attempt α}
    {attemptB : β → Attempt β} {whole : α → β → γ}
    (law : ∀ a b, attempt (whole a b) = .both whole a b (attemptA a) (attemptB b)) {a : α} {b : β}
    (one : Settles attemptA a) (two : Settles attemptB b) : Settles attempt (whole a b) := by
  unfold Settles at one two ⊢
  rw [law]
  cases ranA : attemptA a <;> cases ranB : attemptB b <;>
    simp only [ranA, ranB, Attempt.both, map, stateFrom, remains] at one two ⊢ <;>
    simp only [law, one, two, ranA, ranB, Attempt.both, map]

end Attempt

namespace Expr

/-! ### Folding again -/

theorem foldSigns_negate_of_folded {operand : Expr} (folded : foldSigns operand = .irreducible)
    (column : Nat) : foldSigns (negate operand column) = foldSign operand column := by
  rw [foldSigns, folded]

/-- A sign before an operand without signs is a literal, or the one that cannot be folded. -/
theorem settles_foldSign {operand : Expr} (folded : foldSigns operand = .irreducible)
    (column : Nat) :
    foldSigns ((foldSign operand column).stateFrom (negate operand column)) =
      (foldSign operand column).remains := by
  have again := foldSigns_negate_of_folded folded column
  unfold foldSign at again ⊢
  split
  · rename_i noLiteral
    rw [noLiteral] at again
    exact again
  · rename_i value found
    rw [found] at again
    split
    · rfl
    · rename_i error negated
      simp only [negated] at again
      exact again

/-- A sign before an operand that becomes a literal is folded in the same step. -/
theorem settles_negate {operand : Expr} (settles : Attempt.Settles foldSigns operand)
    (column : Nat) : Attempt.Settles foldSigns (negate operand column) := by
  unfold Attempt.Settles at settles ⊢
  cases ran : foldSigns operand with
  | irreducible =>
    rw [foldSigns_negate_of_folded ran]
    exact settles_foldSign ran column
  | failed error state =>
    rw [ran] at settles
    have failed : foldSigns (negate operand column) = .failed error (negate state column) := by
      rw [foldSigns, ran]
    have again : foldSigns state = .failed error state := settles
    rw [failed]
    show foldSigns (negate state column) = .failed error (negate state column)
    rw [foldSigns, again]
  | reduced reduction state =>
    rw [ran] at settles
    have folded : foldSigns state = .irreducible := settles
    have outer := settles_foldSign folded column
    have whole : foldSigns (negate operand column) =
        (foldSign state column <|> .reduced reduction (negate state column)) := by
      rw [foldSigns, ran]
    rw [whole]
    cases outerRan : foldSign state column with
    | irreducible => exact (foldSigns_negate_of_folded folded column).trans outerRan
    | reduced _ next =>
      rw [outerRan] at outer
      exact outer
    | failed error next =>
      rw [outerRan] at outer
      exact outer

mutual

/-- **Folding again finds nothing, or the sign that could not be folded.** -/
theorem settles_foldSigns : ∀ e : Expr, Attempt.Settles foldSigns e
  | literal _ _ => rfl
  | group _ _ => rfl
  | negate operand column => settles_negate (settles_foldSigns operand) column
  | chain head links =>
    .both (fun _ _ => by rw [foldSigns]) (settles_foldSigns head) (settles_foldLinksSigns links)

theorem settles_foldLinksSigns : ∀ links : List (Link Expr), Attempt.Settles foldLinksSigns links
  | [] => rfl
  | ⟨op, operand, column⟩ :: links => by
    have law : ∀ operand links, foldLinksSigns (⟨op, operand, column⟩ :: links) =
        .both (fun operand links => ⟨op, operand, column⟩ :: links) operand links
          (foldSigns operand) (foldLinksSigns links) := fun _ _ => by rw [foldLinksSigns]
    exact .both law (settles_foldSigns operand) (settles_foldLinksSigns links)

end

theorem repeats_foldSigns (e : Expr) : Attempt.Repeats foldSigns e := by
  intro error state failed
  have settles := settles_foldSigns e
  rwa [Attempt.Settles, failed] at settles

/-! ### Folding and groups -/

theorem reduceGroup_chain_eq_irreducible_iff {head : Expr} {links : List (Link Expr)} :
    reduceGroup (chain head links) = .irreducible ↔
      reduceGroup head = .irreducible ∧ reduceGroupLinks links = .irreducible := by
  rw [reduceGroup]
  simp

theorem reduceGroup_negate_eq_irreducible_iff {operand : Expr} {column : Nat} :
    reduceGroup (negate operand column) = .irreducible ↔ reduceGroup operand = .irreducible := by
  rw [reduceGroup]
  simp

/-- Expressions without a group to reduce, as long as the first one is. -/
def KeepsGroups (e state : Expr) : Prop :=
  reduceGroup e = .irreducible → reduceGroup state = .irreducible

/-- Links without a group to reduce, as long as the first ones are. -/
def LinksKeepGroups (links state : List (Link Expr)) : Prop :=
  reduceGroupLinks links = .irreducible → reduceGroupLinks state = .irreducible

theorem KeepsGroups.negate {operand state : Expr} (keeps : KeepsGroups operand state)
    (column : Nat) : KeepsGroups (negate operand column) (negate state column) := by
  intro nothing
  rw [reduceGroup_negate_eq_irreducible_iff] at nothing ⊢
  exact keeps nothing

theorem keepsGroups_foldSign {operand state : Expr} {column : Nat}
    (keeps : KeepsGroups operand state) :
    (foldSign state column).Leaves (KeepsGroups (negate operand column)) fun _ _ => True := by
  unfold foldSign
  split
  · trivial
  · split
    · exact fun _ => rfl
    · exact ⟨keeps.negate column, trivial⟩

mutual

/-- **Folding signs gives no group to reduce.** -/
theorem keepsGroups_foldSigns :
    ∀ e : Expr, (foldSigns e).Leaves (KeepsGroups e) fun _ _ => True
  | literal _ _ => trivial
  | group _ _ => trivial
  | negate operand column => by
    have below := keepsGroups_foldSigns operand
    rw [foldSigns]
    split
    · exact keepsGroups_foldSign id
    · rename_i error state ran
      rw [ran] at below
      exact ⟨below.1.negate column, trivial⟩
    · rename_i reduction state ran
      rw [ran] at below
      have keeps : KeepsGroups operand state := below
      exact (keepsGroups_foldSign keeps).orElse (keeps.negate column)
  | chain head links => by
    rw [foldSigns]
    refine (keepsGroups_foldSigns head).both (keepsGroups_foldLinksSigns links) id id ?_
      (fun _ _ _ _ => trivial) (fun _ _ _ _ => trivial)
    intro state more keeps keepLinks nothing
    obtain ⟨nothingHead, nothingLinks⟩ := reduceGroup_chain_eq_irreducible_iff.mp nothing
    exact reduceGroup_chain_eq_irreducible_iff.mpr ⟨keeps nothingHead, keepLinks nothingLinks⟩

theorem keepsGroups_foldLinksSigns :
    ∀ links : List (Link Expr), (foldLinksSigns links).Leaves (LinksKeepGroups links) fun _ _ => True
  | [] => trivial
  | ⟨op, operand, column⟩ :: links => by
    rw [foldLinksSigns]
    refine (keepsGroups_foldSigns operand).both (keepsGroups_foldLinksSigns links) id id ?_
      (fun _ _ _ _ => trivial) (fun _ _ _ _ => trivial)
    intro state more keeps keepLinks nothing
    rw [LinksKeepGroups] at keepLinks
    simp only [reduceGroupLinks_eq_irreducible_iff, List.forall_mem_cons] at nothing keepLinks ⊢
    exact ⟨keeps nothing.1, keepLinks nothing.2⟩

end

/-! ### Operations again -/

theorem unchanged_contractFirst (tier : Tier) (head : Expr) (links : List (Link Expr)) :
    (contractFirst tier head links).Leaves (fun _ => True)
      fun _ state => state = chain head links := by
  unfold contractFirst
  split
  · trivial
  · split
    · split
      · split
        · trivial
        · exact ⟨trivial, rfl⟩
      · trivial
    · trivial

mutual

/-- **An operation that fails leaves everything as it was.** -/
theorem unchanged_contract (tier : Tier) :
    ∀ e : Expr, (contract tier e).Leaves (fun _ => True) fun _ state => state = e
  | literal _ _ => trivial
  | group _ _ => trivial
  | negate operand column => by
    rw [contract]
    exact (unchanged_contract tier operand).map (fun _ _ => trivial) fun _ _ => congrArg (negate · column)
  | chain head links => by
    rw [contract]
    refine Attempt.Leaves.orElse ?_ (.orElse (unchanged_contractFirst tier head links) ?_)
    · exact (unchanged_contract tier head).map (fun _ _ => trivial)
        fun _ _ => congrArg (chain · links)
    · exact (unchanged_contractLinks tier links).map (fun _ _ => trivial)
        fun _ _ => congrArg (chain head)

theorem unchanged_contractLinks (tier : Tier) :
    ∀ links : List (Link Expr),
      (contractLinks tier links).Leaves (fun _ => True) fun _ state => state = links
  | [] => trivial
  | ⟨op, operand, column⟩ :: links => by
    rw [contractLinks]
    refine Attempt.Leaves.orElse ?_ ?_
    · exact (unchanged_contract tier operand).map (fun _ _ => trivial)
        fun _ _ => congrArg fun operand => (⟨op, operand, column⟩ : Link Expr) :: links
    · exact (unchanged_contractLinks tier links).map (fun _ _ => trivial)
        fun _ _ => congrArg (List.cons (⟨op, operand, column⟩ : Link Expr))

end

/-- A reduction outside of groups fails at a sign, or leaves the expression as it was. -/
theorem reduceFlat_eq_failed {e state : Expr} {error : RuntimeError}
    (failed : reduceFlat e = .failed error state) :
    foldSigns e = .failed error state ∨ state = e := by
  rcases Attempt.orElse_eq_failed_iff.mp failed with folding | ⟨-, contracting⟩
  · exact .inl folding
  · have unchanged := (unchanged_contract .power e).orElse <|
      (unchanged_contract .product e).orElse (unchanged_contract .sum e)
    rw [contracting] at unchanged
    exact .inr unchanged.2

theorem repeats_reduceFlat (e : Expr) : Attempt.Repeats reduceFlat e := by
  intro error state failed
  rcases reduceFlat_eq_failed failed with folding | rfl
  · rw [reduceFlat, repeats_foldSigns e error state folding]
    rfl
  · exact failed

theorem keepsGroups_reduceFlat {e state : Expr} {error : RuntimeError}
    (failed : reduceFlat e = .failed error state) : KeepsGroups e state := by
  rcases reduceFlat_eq_failed failed with folding | rfl
  · have keeps := keepsGroups_foldSigns e
    rw [folding] at keeps
    exact keeps.1
  · exact id

/-! ### Steps again -/

theorem reduceInside_eq_failed {inner state : Expr} {column : Nat} {error : RuntimeError}
    (failed : reduceInside inner column = .failed error state) :
    ∃ next, reduceFlat inner = .failed error next ∧ state = group next column := by
  unfold reduceInside at failed
  split at failed
  · cases failed
  · rename_i fault next ran
    cases failed
    exact ⟨next, ran, rfl⟩
  · split at failed <;> cases failed

/-- What is left of a group without groups in it is such a group. -/
theorem repeats_group {inner : Expr} (below : Attempt.Repeats reduceGroup inner) (column : Nat) :
    Attempt.Repeats reduceGroup (group inner column) := by
  intro error state failed
  rw [reduceGroup] at failed
  rcases Attempt.orElse_eq_failed_iff.mp failed with deeper | ⟨nothing, here⟩
  · obtain ⟨next, part, rfl⟩ := Attempt.map_eq_failed_iff.mp deeper
    rw [reduceGroup, below error next part]
    rfl
  · obtain ⟨next, flat, rfl⟩ := reduceInside_eq_failed here
    have stillNothing := keepsGroups_reduceFlat flat (Attempt.map_eq_irreducible_iff.mp nothing)
    rw [reduceGroup, stillNothing, reduceInside, repeats_reduceFlat inner error next flat]
    rfl

mutual

theorem repeats_reduceGroup : ∀ e : Expr, Attempt.Repeats reduceGroup e
  | literal _ _ => nofun
  | negate operand column => by
    have law : ∀ operand, reduceGroup (negate operand column) =
        (reduceGroup operand).map (negate · column) := fun _ => by rw [reduceGroup]
    exact .map law (repeats_reduceGroup operand)
  | chain head links =>
    .either (fun _ _ => by rw [reduceGroup]) (repeats_reduceGroup head)
      (repeats_reduceGroupLinks links)
  | group inner column => repeats_group (repeats_reduceGroup inner) column

theorem repeats_reduceGroupLinks :
    ∀ links : List (Link Expr), Attempt.Repeats reduceGroupLinks links
  | [] => nofun
  | ⟨op, operand, column⟩ :: links => by
    have law : ∀ operand links, reduceGroupLinks (⟨op, operand, column⟩ :: links) =
        ((reduceGroup operand).map (⟨op, ·, column⟩ :: links) <|>
          (reduceGroupLinks links).map (⟨op, operand, column⟩ :: ·)) :=
      fun _ _ => by rw [reduceGroupLinks]
    exact .either law (repeats_reduceGroup operand) (repeats_reduceGroupLinks links)

end

/-- **A step that has failed fails again**, in the same way. -/
theorem repeats_step (e : Expr) : Attempt.Repeats step e := by
  intro error state failed
  rcases Attempt.orElse_eq_failed_iff.mp failed with inGroup | ⟨nothing, flat⟩
  · rw [step, repeats_reduceGroup e error state inGroup]
    rfl
  · rw [step, keepsGroups_reduceFlat flat nothing]
    exact repeats_reduceFlat e error state flat

/-! ### What every step keeps -/

theorem Rewrites.column_eq {e next : Expr} (rewrites : Rewrites e next) :
    next.column = e.column := by
  induction rewrites with
  | contract applied => rw [column_ofLinks, column, column, column]
  | head _ ih => rw [column, column, ih]
  | fold negated => rfl
  | ungroup => rfl
  | group _ _ => rfl
  | negate _ _ => rfl
  | operand _ _ => rfl

theorem RewritesTo.column_eq {e next : Expr} (rewrites : RewritesTo e next) :
    next.column = e.column :=
  rewrites.keeps Rewrites.column_eq

/-- **A step keeps the meaning, and a failure stays.** Whatever a step comes to, the expression has
the same value or error as before, with its column and exponent, and starts at the same column.
After a step that has failed every later step fails with the same error and changes nothing. -/
theorem step_keeps_meaning (e : Expr) :
    e.afterStep.eval = e.eval ∧ e.afterStep.column = e.column ∧
      ∀ error state, e.step = .failed error state → ∀ later,
        afterStep^[later + 1] e = state ∧
          (afterStep^[later + 1] e).step = .failed error state := by
  refine ⟨(rewritesTo_afterStep e).eval_eq, (rewritesTo_afterStep e).column_eq, ?_⟩
  intro error state failed later
  have again := repeats_step e error state failed
  have first : e.afterStep = state := by rw [afterStep, failed, Attempt.stateFrom]
  have same : state.afterStep = state := by rw [afterStep, again, Attempt.stateFrom]
  have reached : afterStep^[later + 1] e = state := by
    rw [Function.iterate_succ_apply, first]
    exact Function.iterate_fixed same later
  exact ⟨reached, reached ▸ again⟩

/-- A step on `-2--x`, where `x` is the least value, folds the first sign and fails at the second
one. The steps that follow fail there too. -/
theorem step_keeps_meaning_of_half_folded :
    ∃ e state : Expr, e.step = .failed (.overflow 4) state ∧ state ≠ e ∧
      afterStep^[3] e = state ∧ (afterStep^[3] e).step = .failed (.overflow 4) state := by
  have failed : (chain (negate (literal 2 2) 1) [⟨.sub, negate (literal .minValue 5) 4, 3⟩]).step =
      .failed (.overflow 4)
        (chain (literal (-2) 1) [⟨.sub, negate (literal .minValue 5) 4, 3⟩]) := rfl
  exact ⟨_, _, failed, by simp, (step_keeps_meaning _).2.2 _ _ failed 2⟩

end Expr

end Abacus

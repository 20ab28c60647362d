/-
**Folding minus signs.**

In a tidy expression without groups a minus sign stands before a literal or before a power. A step
that finds minus signs before literals folds them all, and it reports the leftmost. If some of the
literals cannot be negated, it reports the leftmost of these.

* `Expr.FoldsAll`: one expression is the other with every such minus sign folded;
* `Expr.foldsAll_iff`: this is what folding leaves, unless it fails;
* `Expr.foldSigns_eq_irreducible_iff`: folding finds nothing where there is no such minus sign;
* `Expr.foldSigns_eq_reduced_iff`: what folding does, in all;
* `Expr.failure?_foldSigns_eq_some_iff`: how it fails.
-/

import Abacus.Proofs.Context
import Abacus.Proofs.Failure

namespace Abacus

namespace Attempt

variable {α β γ : Type} {reduction : Reduction}

theorem map_eq_reduced_iff {whole : α → β} {attempt : Attempt α} {state : β} :
    attempt.map whole = .reduced reduction state ↔
      ∃ a, attempt = .reduced reduction a ∧ whole a = state := by
  cases attempt with
  | reduced other a =>
    constructor
    · rintro ⟨⟩
      exact ⟨a, rfl, rfl⟩
    · rintro ⟨_, ⟨⟩, rfl⟩
      rfl
  | irreducible => exact ⟨nofun, nofun⟩
  | failed error a => exact ⟨nofun, nofun⟩

/-- Of attempts on both parts the first is reported if it finds something. -/
theorem eq_reduced_of_both {whole : α → β → γ} {a : α} {b : β} {first : Attempt α}
    {second : Attempt β} {state : γ} (found : first ≠ .irreducible)
    (ran : Attempt.both whole a b first second = .reduced reduction state) :
    ∃ x, first = .reduced reduction x := by
  cases first with
  | reduced other x => cases second <;> cases ran <;> exact ⟨x, rfl⟩
  | irreducible => exact absurd rfl found
  | failed error x => cases ran

/-- The state after an attempt, if it does not fail. -/
def settled? (before : α) : Attempt α → Option α
  | reduced _ state => some state
  | irreducible => some before
  | failed _ _ => none

theorem settled?_map (whole : α → β) (before : α) (attempt : Attempt α) :
    (attempt.map whole).settled? (whole before) = (attempt.settled? before).map whole := by
  cases attempt <;> rfl

theorem settled?_both (whole : α → β → γ) (a : α) (b : β) (first : Attempt α)
    (second : Attempt β) :
    (Attempt.both whole a b first second).settled? (whole a b) =
      (first.settled? a).bind fun x => (second.settled? b).map (whole x) := by
  cases first <;> cases second <;> rfl

/-- The error of an attempt, if it fails. -/
def failure? : Attempt α → Option RuntimeError
  | failed error _ => some error
  | _ => none

theorem failure?_eq_some_iff {attempt : Attempt α} {error : RuntimeError} :
    attempt.failure? = some error ↔ ∃ state, attempt = .failed error state := by
  cases attempt <;> simp [failure?]

theorem failure?_map (whole : α → β) (attempt : Attempt α) :
    (attempt.map whole).failure? = attempt.failure? := by
  cases attempt <;> rfl

theorem failure?_both (whole : α → β → γ) (a : α) (b : β) (first : Attempt α)
    (second : Attempt β) :
    (Attempt.both whole a b first second).failure? = first.failure?.or second.failure? := by
  cases first <;> cases second <;> rfl

end Attempt

namespace Expr

/-! ### Signs -/

/-- A minus sign before a literal, at the column. -/
def SignedLiteral (column : Nat) (e : Expr) : Prop :=
  ∃ value start, e = .negate (.literal value start) column

theorem stands_signedLiteral : Stands SignedLiteral := by
  rintro column e ⟨value, start, rfl⟩
  exact List.mem_cons_self

theorem foldSigns_negate_literal (value : Int64) (start column : Nat) :
    foldSigns (negate (literal value start) column) = foldSign (literal value start) column := by
  rw [foldSigns, foldSigns]

/-- Where a minus sign stands before a chain, only those in the chain can be folded. -/
theorem foldSigns_negate {bound : Nat} {operand : Expr} (tight : BindsTighter bound operand)
    (noLiteral : operand.literal? = none) (column : Nat) :
    foldSigns (negate operand column) = (foldSigns operand).map (negate · column) := by
  cases tight with
  | literal value start => cases noLiteral
  | group inner start => rfl
  | chain head ofTier tighter =>
    rename_i links
    cases first : foldSigns head <;> cases second : foldLinksSigns links <;>
      simp only [foldSigns, first, second] <;> rfl

theorem foldSigns_eq_irreducible_of_none {e : Expr} (none : ¬ e.Has SignedLiteral) :
    foldSigns e = .irreducible := by
  induction e using induction with
  | literal value column => rfl
  | group inner column _ => rfl
  | negate operand column ih =>
    have inside := ih fun has => none (has.of_contains (.negate (.refl _)))
    refine foldSigns_negate_eq_irreducible_iff.mpr ⟨inside, ?_⟩
    cases found : operand.literal? with
    | none => rfl
    | some value =>
      obtain ⟨start, rfl⟩ := literal?_eq_some_iff.mp found
      exact absurd ⟨column, _, .refl _, value, start, rfl⟩ none
  | chain head links ihHead ihOperands =>
    rw [foldSigns, Attempt.both_eq_irreducible_iff, foldLinksSigns_eq_irreducible_iff]
    exact ⟨ihHead fun has => none (has.of_contains (.head (.refl _))), fun link member =>
      ihOperands link member fun has => none (has.of_contains (.operand member (.refl _)))⟩

/-- **Folding finds nothing exactly where no minus sign stands before a literal.** -/
theorem foldSigns_eq_irreducible_iff {e : Expr} (groupless : e.Groupless) :
    foldSigns e = .irreducible ↔ ¬ e.Has SignedLiteral := by
  refine ⟨?_, foldSigns_eq_irreducible_of_none⟩
  rintro nothing ⟨column, part, contains, signed⟩
  induction contains with
  | refl =>
    obtain ⟨value, start, rfl⟩ := signed
    exact nomatch (foldSigns_negate_eq_irreducible_iff.mp nothing).2
  | group _ _ => exact groupless _ _ (.refl _)
  | negate _ ih =>
    exact ih (groupless.of_contains (.negate (.refl _)))
      (foldSigns_negate_eq_irreducible_iff.mp nothing).1 signed
  | head _ ih =>
    rw [foldSigns, Attempt.both_eq_irreducible_iff] at nothing
    exact ih (groupless.of_contains (.head (.refl _))) nothing.1 signed
  | operand member _ ih =>
    rw [foldSigns, Attempt.both_eq_irreducible_iff, foldLinksSigns_eq_irreducible_iff] at nothing
    exact ih (groupless.of_contains (.operand member (.refl _))) (nothing.2 _ member) signed

/-! ### All signs at once -/

mutual

/-- The second expression is the first with every minus sign before a literal folded, outside of
groups. -/
inductive FoldsAll : Expr → Expr → Prop
  | literal (value : Int64) (column : Nat) :
      FoldsAll (.literal value column) (.literal value column)
  | group (inner : Expr) (column : Nat) : FoldsAll (.group inner column) (.group inner column)
  | sign {value result : Int64} {start column : Nat}
      (negated : checkedNeg value column = .ok result) :
      FoldsAll (.negate (.literal value start) column) (.literal result column)
  | negate {operand next : Expr} {column : Nat} (noLiteral : operand.literal? = none) :
      FoldsAll operand next → FoldsAll (.negate operand column) (.negate next column)
  | chain {head next : Expr} {links more : List (Link Expr)} :
      FoldsAll head next → LinksFoldAll links more →
        FoldsAll (.chain head links) (.chain next more)

/-- So are the operands of links. -/
inductive LinksFoldAll : List (Link Expr) → List (Link Expr) → Prop
  | nil : LinksFoldAll [] []
  | cons {op : Operator} {operand next : Expr} {column : Nat} {links more : List (Link Expr)} :
      FoldsAll operand next → LinksFoldAll links more →
        LinksFoldAll (⟨op, operand, column⟩ :: links) (⟨op, next, column⟩ :: more)

end

theorem linksFoldAll_iff {links : List (Link Expr)}
    (operands : ∀ link ∈ links, ∀ next,
      FoldsAll link.operand next ↔ (foldSigns link.operand).settled? link.operand = some next)
    {more : List (Link Expr)} :
    LinksFoldAll links more ↔ (foldLinksSigns links).settled? links = some more := by
  induction links generalizing more with
  | nil =>
    constructor
    · rintro ⟨⟩
      rfl
    · rintro ⟨⟩
      exact .nil
  | cons link links ih =>
    obtain ⟨op, operand, column⟩ := link
    obtain ⟨first, later⟩ := List.forall_mem_cons.mp operands
    have settles := Attempt.settled?_both (fun operand links => ⟨op, operand, column⟩ :: links)
      operand links (foldSigns operand) (foldLinksSigns links)
    rw [← foldLinksSigns] at settles
    simp only [settles, Option.bind_eq_some_iff, Option.map_eq_some_iff, ← ih later]
    constructor
    · rintro ⟨⟩
      rename_i next rest operandFolds linksFold
      exact ⟨next, (first next).mp operandFolds, rest, linksFold, rfl⟩
    · rintro ⟨next, settled, rest, linksFold, rfl⟩
      exact .cons ((first next).mpr settled) linksFold

/-- **Folding folds all signs, unless it fails.** -/
theorem foldsAll_iff {e : Expr} (layered : ∀ part, e.Contains part → part.Layered) {next : Expr} :
    FoldsAll e next ↔ (foldSigns e).settled? e = some next := by
  induction e using induction generalizing next with
  | literal value column =>
    constructor
    · rintro ⟨⟩
      rfl
    · rintro ⟨⟩
      exact .literal value column
  | group inner column _ =>
    constructor
    · rintro ⟨⟩
      rfl
    · rintro ⟨⟩
      exact .group inner column
  | negate operand column ih =>
    have tight : BindsTighter Tier.product.rank operand := layered _ (.refl _)
    cases found : operand.literal? with
    | some value =>
      obtain ⟨start, rfl⟩ := literal?_eq_some_iff.mp found
      rw [foldSigns_negate_literal, foldSign]
      simp only [found]
      constructor
      · intro folds
        cases folds with
        | sign negated =>
          rw [negated]
          rfl
        | negate noLiteral _ => cases noLiteral
      · cases negated : checkedNeg value column with
        | ok result =>
          rintro ⟨⟩
          exact .sign negated
        | error error => rintro ⟨⟩
    | none =>
      have settles := Attempt.settled?_map (negate · column) operand (foldSigns operand)
      rw [← foldSigns_negate tight found] at settles
      simp only [settles, Option.map_eq_some_iff,
        ← ih fun part inside => layered part (.negate inside)]
      constructor
      · intro folds
        cases folds with
        | sign negated => cases found
        | negate _ inside => exact ⟨_, inside, rfl⟩
      · rintro ⟨inner, inside, rfl⟩
        exact .negate found inside
  | chain head links ihHead ihOperands =>
    have operands (more : List (Link Expr)) :
        LinksFoldAll links more ↔ (foldLinksSigns links).settled? links = some more :=
      linksFoldAll_iff fun link member next =>
        ihOperands link member fun part inside => layered part (.operand member inside)
    rw [foldSigns, Attempt.settled?_both]
    simp only [Option.bind_eq_some_iff, Option.map_eq_some_iff,
      ← ihHead fun part inside => layered part (.head inside), ← operands]
    constructor
    · rintro ⟨⟩
      rename_i inner rest headFolds linksFold
      exact ⟨inner, headFolds, rest, linksFold, rfl⟩
    · rintro ⟨inner, headFolds, rest, linksFold, rfl⟩
      exact .chain headFolds linksFold

/-! ### The sign that is reported -/

theorem foldLinksSigns_append {before : List (Link Expr)}
    (nothing : ∀ link ∈ before, foldSigns link.operand = .irreducible) (links : List (Link Expr)) :
    foldLinksSigns (before ++ links) = (foldLinksSigns links).map (before ++ ·) := by
  induction before with
  | nil =>
    rw [List.nil_append]
    cases foldLinksSigns links <;> rfl
  | cons link before ih =>
    obtain ⟨op, operand, column⟩ := link
    obtain ⟨first, later⟩ := List.forall_mem_cons.mp nothing
    rw [List.cons_append, foldLinksSigns, first, ih later]
    cases foldLinksSigns links <;> rfl

/-- **Folding reports the leftmost sign.** Nothing is folded left of it, so what is reported of a
chain is what is reported of the part with this sign. -/
theorem eq_negation_of_foldSigns {e sign next : Expr} {value : Int64} {start column : Nat}
    {reduction : Reduction} (contains : e.Contains sign)
    (signed : sign = .negate (.literal value start) column) (region : e.Region)
    (leftmost : Leftmost SignedLiteral column e)
    (ran : foldSigns e = .reduced reduction next) :
    ∃ result, checkedNeg value column = .ok result ∧ reduction = .negation result column := by
  have found {part : Expr} (contains : part.Contains sign) : part.HasPart (SignedLiteral column) :=
    ⟨sign, contains, value, start, signed⟩
  induction contains generalizing next with
  | refl =>
    rw [signed, foldSigns_negate_literal, foldSign] at ran
    simp only [literal?] at ran
    cases negated : checkedNeg value column <;> rw [negated] at ran <;> cases ran
    exact ⟨_, rfl, rfl⟩
  | group _ _ => exact absurd (.refl _) (region.groupless _ _)
  | @negate operand sign signColumn inside ih =>
    have inner : (negate operand signColumn).Contains operand := .negate (.refl _)
    have tight : BindsTighter Tier.product.rank operand := region.layered _ (.refl _)
    have noLiteral : operand.literal? = none := by
      rw [signed] at inside
      cases inside <;> rfl
    rw [foldSigns_negate tight noLiteral, Attempt.map_eq_reduced_iff] at ran
    obtain ⟨state, ran, -⟩ := ran
    exact ih signed (region.of_contains inner) (leftmost.of_contains inner) ran found
  | @head head sign links inside ih =>
    have inner : (chain head links).Contains head := .head (.refl _)
    have finds : foldSigns head ≠ .irreducible := fun nothing =>
      (foldSigns_eq_irreducible_iff (region.of_contains inner).groupless).mp nothing
        ⟨column, found inside⟩
    rw [foldSigns] at ran
    obtain ⟨state, ran⟩ := Attempt.eq_reduced_of_both finds ran
    exact ih signed (region.of_contains inner) (leftmost.of_contains inner) ran found
  | @operand head sign links link member inside ih =>
    have inner : (chain head links).Contains link.operand := .operand member (.refl _)
    have finds : foldSigns link.operand ≠ .irreducible := fun nothing =>
      (foldSigns_eq_irreducible_iff (region.of_contains inner).groupless).mp nothing
        ⟨column, found inside⟩
    obtain ⟨before, more, rfl⟩ := List.append_of_mem member
    obtain ⟨noneInHead, noneBefore⟩ := none_left_of_operand stands_signedLiteral region.increasing
      leftmost ((found inside).mem_columns stands_signedLiteral)
    have nothingBefore := fun link member =>
      foldSigns_eq_irreducible_of_none (noneBefore link member)
    rw [foldSigns, foldSigns_eq_irreducible_of_none noneInHead,
      foldLinksSigns_append nothingBefore, foldLinksSigns] at ran
    simp only [Attempt.both, Attempt.map_eq_reduced_iff] at ran
    obtain ⟨-, ⟨state, ran, -⟩, -⟩ := ran
    obtain ⟨operandState, ran⟩ := Attempt.eq_reduced_of_both finds ran
    exact ih signed (region.of_contains inner) (leftmost.of_contains inner) ran found

/-- **What folding does**: it folds all signs, and it reports the leftmost. -/
theorem foldSigns_eq_reduced_iff {e : Expr} (region : e.Region) {reduction : Reduction}
    {next : Expr} :
    foldSigns e = .reduced reduction next ↔ FoldsAll e next ∧
      ∃ value start column result, e.Contains (.negate (.literal value start) column) ∧
        Leftmost SignedLiteral column e ∧ checkedNeg value column = .ok result ∧
        reduction = .negation result column := by
  constructor
  · intro ran
    have folds : FoldsAll e next := by
      rw [foldsAll_iff region.layered, ran]
      rfl
    have someSign : e.Has SignedLiteral := by
      by_contra none
      rw [foldSigns_eq_irreducible_of_none none] at ran
      cases ran
    obtain ⟨column, ⟨_, contains, value, start, rfl⟩, leftmost⟩ := exists_leftmost someSign
    obtain ⟨result, negated, same⟩ := eq_negation_of_foldSigns contains rfl region leftmost ran
    exact ⟨folds, value, start, column, result, contains, leftmost, negated, same⟩
  · rintro ⟨folds, value, start, column, result, contains, leftmost, negated, rfl⟩
    rw [foldsAll_iff region.layered] at folds
    cases ran : foldSigns e with
    | reduced reduction state =>
      rw [ran] at folds
      cases folds
      obtain ⟨other, negated', rfl⟩ := eq_negation_of_foldSigns contains rfl region leftmost ran
      cases negated.symm.trans negated'
      rfl
    | irreducible =>
      exact absurd ⟨column, _, contains, value, start, rfl⟩
        ((foldSigns_eq_irreducible_iff region.groupless).mp ran)
    | failed error state =>
      rw [ran] at folds
      cases folds

/-! ### The sign that fails -/

/-- A minus sign before a literal that cannot be negated, at the column. -/
def FailingSign (column : Nat) (e : Expr) : Prop :=
  ∃ value start error, e = .negate (.literal value start) column ∧
    checkedNeg value column = .error error

theorem stands_failingSign : Stands FailingSign := by
  rintro column e ⟨value, start, error, rfl, -⟩
  exact List.mem_cons_self

theorem failure?_foldLinksSigns (links : List (Link Expr)) :
    (foldLinksSigns links).failure? =
      links.findSome? fun link => (foldSigns link.operand).failure? := by
  induction links with
  | nil => rfl
  | cons link links ih =>
    obtain ⟨op, operand, column⟩ := link
    rw [foldLinksSigns, Attempt.failure?_both, ih, List.findSome?_cons]
    cases (foldSigns operand).failure? <;> rfl

theorem failure?_foldSigns_of_none {e : Expr} (layered : ∀ part, e.Contains part → part.Layered)
    (noSign : ¬ e.Has FailingSign) : (foldSigns e).failure? = none := by
  induction e using induction with
  | literal value column => rfl
  | group inner column _ => rfl
  | negate operand column ih =>
    cases found : operand.literal? with
    | some value =>
      obtain ⟨start, rfl⟩ := literal?_eq_some_iff.mp found
      cases negated : checkedNeg value column with
      | ok result =>
        rw [foldSigns_negate_literal, foldSign]
        simp only [literal?, negated]
        rfl
      | error error =>
        exact absurd ⟨column, _, .refl _, value, start, error, rfl, negated⟩ noSign
    | none =>
      have tight : BindsTighter Tier.product.rank operand := layered _ (.refl _)
      rw [foldSigns_negate tight found, Attempt.failure?_map]
      exact ih (fun part inside => layered part (.negate inside)) fun has =>
        noSign (has.of_contains (.negate (.refl _)))
  | chain head links ihHead ihOperands =>
    have nothing := ihHead (fun part inside => layered part (.head inside)) fun has =>
      noSign (has.of_contains (.head (.refl _)))
    rw [foldSigns, Attempt.failure?_both, nothing, failure?_foldLinksSigns, Option.none_or]
    exact List.findSome?_eq_none_iff.mpr fun link member =>
      ihOperands link member (fun part inside => layered part (.operand member inside)) fun has =>
        noSign (has.of_contains (.operand member (.refl _)))

/-- **Folding fails at the leftmost sign that cannot be folded.** -/
theorem failure?_foldSigns_of_leftmost {e sign : Expr} {value : Int64} {start column : Nat}
    {error : RuntimeError} (contains : e.Contains sign)
    (signed : sign = .negate (.literal value start) column)
    (negated : checkedNeg value column = .error error) (region : e.Region)
    (leftmost : Leftmost FailingSign column e) : (foldSigns e).failure? = some error := by
  induction contains with
  | refl =>
    rw [signed, foldSigns_negate_literal, foldSign]
    simp only [literal?, negated]
    rfl
  | group _ _ => exact absurd (.refl _) (region.groupless _ _)
  | @negate operand sign signColumn inside ih =>
    have inner : (negate operand signColumn).Contains operand := .negate (.refl _)
    have tight : BindsTighter Tier.product.rank operand := region.layered _ (.refl _)
    have noLiteral : operand.literal? = none := by
      rw [signed] at inside
      cases inside <;> rfl
    rw [foldSigns_negate tight noLiteral, Attempt.failure?_map]
    exact ih signed (region.of_contains inner) (leftmost.of_contains inner)
  | @head head sign links inside ih =>
    have inner : (chain head links).Contains head := .head (.refl _)
    have fails := ih signed (region.of_contains inner) (leftmost.of_contains inner)
    rw [foldSigns, Attempt.failure?_both, fails, Option.some_or]
  | @operand head sign links link member inside ih =>
    have inner : (chain head links).Contains link.operand := .operand member (.refl _)
    have fails := ih signed (region.of_contains inner) (leftmost.of_contains inner)
    have here : link.operand.HasPart (FailingSign column) :=
      ⟨sign, inside, value, start, error, signed, negated⟩
    obtain ⟨before, more, rfl⟩ := List.append_of_mem member
    obtain ⟨noneInHead, noneBefore⟩ := none_left_of_operand stands_failingSign region.increasing
      leftmost (here.mem_columns stands_failingSign)
    have nothingInHead := failure?_foldSigns_of_none
      (region.of_contains (.head (.refl _))).layered noneInHead
    have nothingBefore : before.findSome? (fun link => (foldSigns link.operand).failure?) = none :=
      List.findSome?_eq_none_iff.mpr fun link member =>
        failure?_foldSigns_of_none
          (region.of_contains (.operand (List.mem_append_left _ member) (.refl _))).layered
          (noneBefore link member)
    rw [foldSigns, Attempt.failure?_both, nothingInHead, failure?_foldLinksSigns,
      List.findSome?_append, nothingBefore, List.findSome?_cons, fails]
    rfl

/-- **How folding fails**: with the error of the leftmost sign that cannot be folded. -/
theorem failure?_foldSigns_eq_some_iff {e : Expr} (region : e.Region) {error : RuntimeError} :
    (foldSigns e).failure? = some error ↔
      ∃ value start column, e.Contains (.negate (.literal value start) column) ∧
        Leftmost FailingSign column e ∧ checkedNeg value column = .error error := by
  constructor
  · intro fails
    have someSign : e.Has FailingSign := by
      by_contra noSign
      cases (failure?_foldSigns_of_none region.layered noSign).symm.trans fails
    obtain ⟨column, ⟨_, contains, value, start, fault, rfl, negated⟩, leftmost⟩ :=
      exists_leftmost someSign
    have same := failure?_foldSigns_of_leftmost contains rfl negated region leftmost
    cases fails.symm.trans same
    exact ⟨value, start, column, contains, leftmost, negated⟩
  · rintro ⟨value, start, column, contains, leftmost, negated⟩
    exact failure?_foldSigns_of_leftmost contains rfl negated region leftmost

end Expr

end Abacus

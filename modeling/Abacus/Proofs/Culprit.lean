/-
**Every error has an operation that fails.**

Evaluation and reduction report errors with the column of an operator. That operator is one of the
expression itself, and it fails there on the values that its operands have in the expression
(`Expr.FailsHere`), however often the expression has been rewritten when the error comes up.

* `Expr.Contains`: the parts of an expression;
* `Expr.mem_linksFailures_iff`, `Expr.mem_failures_iff`: the failures of an expression are the
  errors of its operations, and there are no others;
* `Expr.error_has_operation`: whatever error is reported, by evaluation or by reduction, is that of
  a minus sign or of an operator of the expression.
-/

import Abacus.Proofs.Diagnosis

namespace Abacus.Expr

/-! ### Parts -/

/-- The second expression is the first or a part of it. -/
inductive Contains : Expr → Expr → Prop
  | refl (e : Expr) : Contains e e
  | group {inner part : Expr} {column : Nat} :
      Contains inner part → Contains (.group inner column) part
  | negate {operand part : Expr} {column : Nat} :
      Contains operand part → Contains (.negate operand column) part
  | head {head part : Expr} {links : List (Link Expr)} :
      Contains head part → Contains (.chain head links) part
  | operand {head part : Expr} {links : List (Link Expr)} {link : Link Expr} :
      link ∈ links → Contains link.operand part → Contains (.chain head links) part

/-- The expression or a part of it is of a kind. -/
def HasPart (kind : Expr → Prop) (e : Expr) : Prop := ∃ part, e.Contains part ∧ kind part

section HasPart

variable {kind : Expr → Prop} {value : Int64} {column : Nat} {inner operand head : Expr}
  {links : List (Link Expr)}

theorem hasPart_literal_iff :
    (literal value column).HasPart kind ↔ kind (literal value column) := by
  constructor
  · rintro ⟨part, ⟨⟩, ofKind⟩
    exact ofKind
  · exact fun ofKind => ⟨_, .refl _, ofKind⟩

theorem hasPart_group_iff :
    (group inner column).HasPart kind ↔ kind (group inner column) ∨ inner.HasPart kind := by
  constructor
  · rintro ⟨part, contains, ofKind⟩
    cases contains with
    | refl => exact .inl ofKind
    | group inside => exact .inr ⟨part, inside, ofKind⟩
  · rintro (ofKind | ⟨part, inside, ofKind⟩)
    · exact ⟨_, .refl _, ofKind⟩
    · exact ⟨part, .group inside, ofKind⟩

theorem hasPart_negate_iff :
    (negate operand column).HasPart kind ↔
      kind (negate operand column) ∨ operand.HasPart kind := by
  constructor
  · rintro ⟨part, contains, ofKind⟩
    cases contains with
    | refl => exact .inl ofKind
    | negate inside => exact .inr ⟨part, inside, ofKind⟩
  · rintro (ofKind | ⟨part, inside, ofKind⟩)
    · exact ⟨_, .refl _, ofKind⟩
    · exact ⟨part, .negate inside, ofKind⟩

theorem hasPart_chain_iff :
    (chain head links).HasPart kind ↔
      kind (chain head links) ∨ head.HasPart kind ∨ ∃ link ∈ links, link.operand.HasPart kind := by
  constructor
  · rintro ⟨part, contains, ofKind⟩
    cases contains with
    | refl => exact .inl ofKind
    | head inside => exact .inr (.inl ⟨part, inside, ofKind⟩)
    | operand member inside => exact .inr (.inr ⟨_, member, part, inside, ofKind⟩)
  · rintro (ofKind | ⟨part, inside, ofKind⟩ | ⟨link, member, part, inside, ofKind⟩)
    · exact ⟨_, .refl _, ofKind⟩
    · exact ⟨part, .head inside, ofKind⟩
    · exact ⟨part, .operand member inside, ofKind⟩

end HasPart

/-! ### Operations that fail -/

/-- An operation of the expression itself, not of a part, fails on the values of its operands: its
minus sign, or the operator of a link on the value of the chain up to there and that of the
operand. -/
inductive FailsHere (error : RuntimeError) : Expr → Prop
  | sign {operand : Expr} {column : Nat} {value : Int64} (evaluated : operand.eval = .ok value)
      (negated : checkedNeg value column = .error error) :
      FailsHere error (.negate operand column)
  | link {head operand : Expr} {links : List (Link Expr)} {op : Operator} {column : Nat}
      {left right : Int64} (index : Nat) (found : links[index]? = some ⟨op, operand, column⟩)
      (evaluatedLeft : (chain head (links.take index)).eval = .ok left)
      (evaluatedRight : operand.eval = .ok right)
      (applied : op.apply left right column = .error error) : FailsHere error (.chain head links)

variable {error : RuntimeError}

theorem mem_behind_iff {α : Type} {outcome : Except RuntimeError α}
    {errors : α → List RuntimeError} :
    error ∈ behind outcome errors ↔ ∃ value, outcome = .ok value ∧ error ∈ errors value := by
  cases outcome <;> simp [behind]

theorem mem_error?_iff {α : Type} {outcome : Except RuntimeError α} :
    error ∈ (error? outcome).toList ↔ outcome = .error error := by
  cases outcome <;> simp [error?, eq_comm]

theorem failsHere_negate_iff {operand : Expr} {column : Nat} :
    FailsHere error (.negate operand column) ↔
      error ∈ behind operand.eval fun value => (error? (checkedNeg value column)).toList := by
  simp only [mem_behind_iff, mem_error?_iff]
  constructor
  · rintro ⟨evaluated, negated⟩
    exact ⟨_, evaluated, negated⟩
  · rintro ⟨value, evaluated, negated⟩
    exact .sign evaluated negated

/-- The operator of some link fails on the value of what is before it, which starts with the outcome
`left`, and that of its operand. -/
def LinkFails (error : RuntimeError) (left : Except RuntimeError Int64)
    (links : List (Link Expr)) : Prop :=
  ∃ index op operand column value right, links[index]? = some ⟨op, operand, column⟩ ∧
    (do let first ← left; evalLinks first (links.take index)) = .ok value ∧
      operand.eval = .ok right ∧ op.apply value right column = .error error

theorem failsHere_chain_iff {head : Expr} {links : List (Link Expr)} :
    FailsHere error (.chain head links) ↔ LinkFails error head.eval links := by
  constructor
  · rintro (_ | ⟨index, found, evaluatedLeft, evaluatedRight, applied⟩)
    rw [eval] at evaluatedLeft
    exact ⟨index, _, _, _, _, _, found, evaluatedLeft, evaluatedRight, applied⟩
  · rintro ⟨index, op, operand, column, value, right, found, evaluatedLeft, evaluatedRight, applied⟩
    refine .link index found ?_ evaluatedRight applied
    rw [eval]
    exact evaluatedLeft

/-- The first link fails, or a later one does behind the result of the first. -/
theorem linkFails_cons_iff {left : Except RuntimeError Int64} {op : Operator} {operand : Expr}
    {column : Nat} {links : List (Link Expr)} :
    LinkFails error left (⟨op, operand, column⟩ :: links) ↔
      (error ∈ behind left fun value => behind operand.eval fun right =>
        (error? (op.apply value right column)).toList) ∨
      LinkFails error (do let value ← left; let right ← operand.eval; op.apply value right column)
        links := by
  have onward (before : List (Link Expr)) :
      (do let first ← (do let value ← left; let right ← operand.eval; op.apply value right column)
          evalLinks first before) =
        (do let first ← left; evalLinks first (⟨op, operand, column⟩ :: before)) := by
    simp only [evalLinks, bind_assoc]
  simp only [mem_behind_iff, mem_error?_iff]
  constructor
  · rintro ⟨index, op', operand', column', value, right, found, evaluatedLeft, evaluatedRight,
      applied⟩
    cases index with
    | zero =>
      cases found
      obtain ⟨first, evaluated, same⟩ := bind_eq_ok_iff.mp evaluatedLeft
      cases same
      exact .inl ⟨value, evaluated, right, evaluatedRight, applied⟩
    | succ index =>
      rw [List.take_succ_cons, ← onward] at evaluatedLeft
      exact .inr ⟨index, op', operand', column', value, right, found, evaluatedLeft,
        evaluatedRight, applied⟩
  · rintro (⟨value, evaluated, right, evaluatedRight, applied⟩ |
      ⟨index, op', operand', column', value, right, found, evaluatedLeft, evaluatedRight, applied⟩)
    · refine ⟨0, op, operand, column, value, right, rfl, ?_, evaluatedRight, applied⟩
      rw [evaluated]
      rfl
    · refine ⟨index + 1, op', operand', column', value, right, found, ?_, evaluatedRight, applied⟩
      rw [List.take_succ_cons, ← onward]
      exact evaluatedLeft

/-- **The failures of links** are those of the operands and the errors of the operators. -/
theorem mem_linksFailures_iff {left : Except RuntimeError Int64} {links : List (Link Expr)} :
    error ∈ linksFailures left links ↔
      LinkFails error left links ∨ ∃ link ∈ links, error ∈ link.operand.failures := by
  induction links generalizing left with
  | nil => simp [linksFailures, LinkFails]
  | cons link links ih =>
    obtain ⟨op, operand, column⟩ := link
    simp only [linksFailures, List.mem_append, ih, linkFails_cons_iff, List.mem_cons,
      exists_eq_or_imp, or_assoc, or_left_comm]

/-- **The failures of an expression are the errors of its operations.** -/
theorem mem_failures_iff (e : Expr) : error ∈ e.failures ↔ e.HasPart (FailsHere error) := by
  induction e using Expr.induction with
  | literal value column =>
    rw [hasPart_literal_iff, failures]
    exact ⟨nofun, nofun⟩
  | group inner column ih =>
    have notHere : ¬ FailsHere error (.group inner column) := nofun
    rw [hasPart_group_iff, failures, ih, or_iff_right notHere]
  | negate operand column ih =>
    rw [hasPart_negate_iff, failures, List.mem_append, ih, failsHere_negate_iff, or_comm]
  | chain head links ihHead ihOperands =>
    have operands : (∃ link ∈ links, error ∈ link.operand.failures) ↔
        ∃ link ∈ links, link.operand.HasPart (FailsHere error) :=
      exists_congr fun link => and_congr_right fun member => ihOperands link member
    rw [hasPart_chain_iff, failures, List.mem_append, ihHead, mem_linksFailures_iff, operands,
      failsHere_chain_iff, or_left_comm]

/-! ### Errors -/

/-- Whatever error is reported, it is a failure of the expression. -/
theorem mem_failures_of_error {e : Expr}
    (reported : e.eval = .error error ∨ e.reduce.value = .error error) : error ∈ e.failures := by
  rcases reported with evaluated | reduced
  · exact List.mem_of_head? (eval_eq_error_iff.mp evaluated)
  · exact mem_failures_of_reduce reduced

/-- **Every error is that of an operation of the expression.** If evaluation or reduction fails, the
expression contains a minus sign whose operand has a value that it cannot negate, or a chain with a
link whose operator fails on the value of the chain up to there and that of its operand; and this
is the error that is reported, with its column and exponent. -/
theorem error_has_operation (e : Expr) (error : RuntimeError)
    (reported : e.eval = .error error ∨ e.reduce.value = .error error) :
    (∃ operand column value, e.Contains (.negate operand column) ∧
      operand.eval = .ok value ∧ checkedNeg value column = .error error) ∨
    ∃ head links index op operand column left right, e.Contains (.chain head links) ∧
      links[index]? = some ⟨op, operand, column⟩ ∧
      (chain head (links.take index)).eval = .ok left ∧ operand.eval = .ok right ∧
      op.apply left right column = .error error := by
  obtain ⟨part, contains, fails⟩ := (mem_failures_iff e).mp (mem_failures_of_error reported)
  cases fails with
  | sign evaluated negated => exact .inl ⟨_, _, _, contains, evaluated, negated⟩
  | link index found evaluatedLeft evaluatedRight applied =>
    exact .inr ⟨_, _, index, _, _, _, _, _, contains, found, evaluatedLeft, evaluatedRight, applied⟩

/-- The reduction of `1/0+2^-1` folds the sign of the exponent and then fails at the power. The
operation that fails is found in the expression as it was before. -/
theorem error_has_operation_of_folded_exponent :
    ∃ e : Expr, e.reduce.value = .error (.invalidExponent (-1) 6) ∧
      ∃ head links index op operand column left right, e.Contains (.chain head links) ∧
        links[index]? = some ⟨op, operand, column⟩ ∧
        (chain head (links.take index)).eval = .ok left ∧ operand.eval = .ok right ∧
        op.apply left right column = .error (.invalidExponent (-1) 6) := by
  have reduced : (chain (chain (literal 1 1) [⟨.div, literal 0 3, 2⟩])
      [⟨.add, chain (literal 2 5) [⟨.pow, negate (literal 1 8) 7, 6⟩], 4⟩]).reduce.value =
        .error (.invalidExponent (-1) 6) := mem_error?_iff.mp (by decide +kernel)
  refine ⟨_, reduced, ?_⟩
  rcases error_has_operation _ _ (.inr reduced) with ⟨operand, column, value, -, -, negated⟩ | found
  · cases (checked_eq_error_iff.mp negated).2
  · exact found

end Abacus.Expr

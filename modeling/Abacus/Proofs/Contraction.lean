/-
**The operation that is due.**

Where no minus sign stands before a literal, the operators of the tightest tier stand between
literals, unless one of their tier stands left of them in the same chain. So the leftmost of them
has its operands, and the search for it, which looks at the first link of every chain, meets it
first.

* `Expr.contract_fill`: contracting finds the leftmost operator of a tier;
* `Expr.exists_redex`: the leftmost operator of the tightest tier has two literals;
* `Expr.Due`, `Expr.reduceFlat_eq_reduced_iff`: a reduction without groups does what is due;
* `Expr.DueFault`, `Expr.failure?_reduceFlat_eq_some_iff`: it fails where what is due has no value.
-/

import Abacus.Proofs.Folding

namespace Abacus

namespace Attempt

variable {α β γ : Type}

theorem map_map (whole : α → β) (outer : β → γ) (attempt : Attempt α) :
    (attempt.map whole).map outer = attempt.map fun a => outer (whole a) := by
  cases attempt <;> rfl

theorem orElse_of_ne_irreducible {first second : Attempt α} (finds : first ≠ .irreducible) :
    (first <|> second) = first := by
  cases first with
  | reduced reduction state => rfl
  | irreducible => exact absurd rfl finds
  | failed error state => rfl

theorem irreducible_orElse (second : Attempt α) : (.irreducible <|> second) = second := rfl

theorem map_ne_irreducible {whole : α → β} {attempt : Attempt α} (finds : attempt ≠ .irreducible) :
    attempt.map whole ≠ .irreducible :=
  fun nothing => finds (map_eq_irreducible_iff.mp nothing)

end Attempt

namespace Expr

/-- A search through the operands of links, one after the other, that finds nothing in the operands
before one in which it finds something. -/
theorem search_append {searchLinks : List (Link Expr) → Attempt (List (Link Expr))}
    {search : Expr → Attempt Expr}
    (law : ∀ op operand column links, searchLinks (⟨op, operand, column⟩ :: links) =
      ((search operand).map (⟨op, ·, column⟩ :: links) <|>
        (searchLinks links).map (⟨op, operand, column⟩ :: ·)))
    {before : List (Link Expr)} (nothing : ∀ link ∈ before, search link.operand = .irreducible)
    (op : Operator) {operand : Expr} (finds : search operand ≠ .irreducible) (column : Nat)
    (links : List (Link Expr)) :
    searchLinks (before ++ ⟨op, operand, column⟩ :: links) =
      (search operand).map fun next => before ++ ⟨op, next, column⟩ :: links := by
  induction before with
  | nil =>
    rw [List.nil_append, law, Attempt.orElse_of_ne_irreducible (Attempt.map_ne_irreducible finds)]
    rfl
  | cons link before ih =>
    obtain ⟨first, later⟩ := List.forall_mem_cons.mp nothing
    rw [List.cons_append, law, first, ih later, Attempt.map_map]
    rfl

/-! ### The leftmost operator of a tier -/

/-- A chain with an operator of the tier at the column. -/
def OperatorOf (tier : Tier) (column : Nat) (e : Expr) : Prop :=
  ∃ head links link, e = .chain head links ∧ link ∈ links ∧ link.op.tier = tier ∧
    link.column = column

theorem stands_operatorOf (tier : Tier) : Stands (OperatorOf tier) := by
  rintro column e ⟨head, links, link, rfl, member, -, rfl⟩
  exact List.mem_append_right _ (mem_linksColumns member).1

theorem operatorOf_chain {head : Expr} {links : List (Link Expr)} {link : Link Expr}
    (member : link ∈ links) : OperatorOf link.op.tier link.column (.chain head links) :=
  ⟨head, links, link, rfl, member, rfl, rfl⟩

theorem contract_eq_irreducible_of_none {tier : Tier} {e : Expr}
    (none : ¬ e.Has (OperatorOf tier)) : contract tier e = .irreducible := by
  induction e using induction with
  | literal value column => rfl
  | group inner column _ => rfl
  | negate operand column ih =>
    rw [contract, ih fun has => none (has.of_contains (.negate (.refl _)))]
    rfl
  | chain head links ihHead ihOperands =>
    have first : contractFirst tier head links = .irreducible := by
      cases links with
      | nil => rfl
      | cons link links =>
        refine if_neg fun ofTier => none ⟨link.column, _, .refl _, ?_⟩
        exact ofTier ▸ operatorOf_chain List.mem_cons_self
    have operands : contractLinks tier links = .irreducible :=
      contractLinks_eq_irreducible_iff.mpr fun link member =>
        ihOperands link member fun has => none (has.of_contains (.operand member (.refl _)))
    rw [contract, ihHead fun has => none (has.of_contains (.head (.refl _))), first, operands]
    rfl

/-- Left of the leftmost operator of a tier, no chain starts with an operator of this tier. -/
theorem contractFirst_of_left {tier : Tier} {head operand : Expr} {before links : List (Link Expr)}
    {op : Operator} {opColumn column : Nat}
    (increasing :
      (chain head (before ++ ⟨op, operand, opColumn⟩ :: links)).columns.Pairwise (· < ·))
    (leftmost :
      Leftmost (OperatorOf tier) column (chain head (before ++ ⟨op, operand, opColumn⟩ :: links)))
    (inside : column ∈ operand.columns) :
    contractFirst tier head (before ++ ⟨op, operand, opColumn⟩ :: links) = .irreducible := by
  obtain ⟨left, opLeft⟩ := lt_of_left_of_operand increasing inside
  have otherTier {link : Link Expr} (member : link ∈ before ++ ⟨op, operand, opColumn⟩ :: links)
      (less : link.column < column) : link.op.tier ≠ tier := by
    intro ofTier
    have here : OperatorOf tier link.column
        (chain head (before ++ ⟨op, operand, opColumn⟩ :: links)) :=
      ofTier ▸ operatorOf_chain member
    exact Nat.not_le_of_lt less (leftmost _ ⟨_, .refl _, here⟩)
  cases before with
  | nil => exact if_neg (otherTier List.mem_cons_self opLeft)
  | cons link before =>
    have less := left link.column (List.mem_append_right _ (mem_linksColumns List.mem_cons_self).1)
    exact if_neg (otherTier List.mem_cons_self less)

/-- **Contracting finds the leftmost operator of the tier.** The head, the first link and the
operands before it are searched first, but there is nothing in them. -/
theorem contract_fill {context : Context} {tier : Tier} {redex : Expr} {column : Nat}
    (here : OperatorOf tier column redex) (finds : contract tier redex ≠ .irreducible)
    (region : (context.fill redex).Region)
    (leftmost : Leftmost (OperatorOf tier) column (context.fill redex)) :
    contract tier (context.fill redex) = (contract tier redex).map context.fill := by
  induction context with
  | hole =>
    rw [Context.fill]
    cases contract tier redex <;> rfl
  | group inside _ _ => exact absurd (.refl _) (region.groupless _ _)
  | negate inside signColumn ih =>
    have inner := ih (region.of_contains (.negate (.refl _)))
      (leftmost.of_contains (.negate (.refl _)))
    rw [Context.fill, contract, inner, Attempt.map_map]
    rfl
  | head inside links ih =>
    have inner := ih (region.of_contains (.head (.refl _)))
      (leftmost.of_contains (.head (.refl _)))
    rw [Context.fill, contract, inner, Attempt.map_map,
      Attempt.orElse_of_ne_irreducible (Attempt.map_ne_irreducible finds)]
    rfl
  | operand head before op inside opColumn links ih =>
    have inner := ih (region.of_contains (.operand List.mem_append_cons_self (.refl _)))
      (leftmost.of_contains (.operand List.mem_append_cons_self (.refl _)))
    have stands : column ∈ (inside.fill redex).columns :=
      HasPart.mem_columns (stands_operatorOf tier) ⟨_, inside.contains_fill redex, here⟩
    obtain ⟨noneInHead, noneBefore⟩ :=
      none_left_of_operand (stands_operatorOf tier) region.increasing leftmost stands
    have operands : contractLinks tier (before ++ ⟨op, inside.fill redex, opColumn⟩ :: links) =
        (contract tier (inside.fill redex)).map fun next =>
          before ++ ⟨op, next, opColumn⟩ :: links :=
      search_append (fun op operand column links => by rw [contractLinks])
        (fun link member => contract_eq_irreducible_of_none (noneBefore link member)) op
        (inner ▸ Attempt.map_ne_irreducible finds) opColumn links
    rw [Context.fill, contract, contract_eq_irreducible_of_none noneInHead,
      contractFirst_of_left region.increasing leftmost stands, operands, inner, Attempt.map_map,
      Attempt.map_map]
    rfl

/-! ### The tightest operators -/

/-- No operator of the expression binds tighter than the tier. -/
def Tightest (tier : Tier) (e : Expr) : Prop :=
  ∀ other : Tier, other.rank < tier.rank → ¬ e.Has (OperatorOf other)

/-- What binds tighter than the tightest operators is a literal. -/
theorem eq_literal_of_tight {e part : Expr} {tier : Tier} (region : e.Region)
    (tightest : Tightest tier e) (contains : e.Contains part)
    (tight : BindsTighter tier.rank part) :
    ∃ value column, part = .literal value column := by
  cases tight with
  | literal value column => exact ⟨value, column, rfl⟩
  | group inner column => exact absurd contains (region.groupless inner column)
  | chain head ofTier tighter =>
    rename_i other links
    obtain ⟨someLink, -⟩ := region.layered _ contains
    obtain ⟨link, more, rfl⟩ := List.exists_cons_of_ne_nil someLink
    have here : OperatorOf other link.column (chain head (link :: more)) :=
      ofTier link List.mem_cons_self ▸ operatorOf_chain List.mem_cons_self
    exact absurd ⟨_, _, contains, here⟩ (tightest other tighter)

/-- So is such an operand with a minus sign before it, if no minus sign stands before a literal. -/
theorem eq_literal_of_operand {e operand : Expr} {tier : Tier} (region : e.Region)
    (unsigned : ¬ e.Has SignedLiteral) (tightest : Tightest tier e)
    (contains : e.Contains operand) (tight : BindsTighter tier.rank operand.withoutSign) :
    ∃ value column, operand = .literal value column := by
  cases operand with
  | negate inner column =>
    obtain ⟨value, start, rfl⟩ := eq_literal_of_tight region tightest
      (contains.trans (.negate (.refl _))) tight
    exact absurd ⟨column, _, contains, value, start, rfl⟩ unsigned
  | literal value column => exact ⟨value, column, rfl⟩
  | group inner column => exact eq_literal_of_tight region tightest contains tight
  | chain head links => exact eq_literal_of_tight region tightest contains tight

theorem lt_of_later_link {head : Expr} {first link : Link Expr} {more : List (Link Expr)}
    (increasing : (chain head (first :: more)).columns.Pairwise (· < ·)) (later : link ∈ more) :
    first.column < link.column := by
  obtain ⟨op, operand, column⟩ := first
  have inLinks := (List.pairwise_append.mp increasing).2.1
  rw [linksColumns] at inLinks
  exact List.rel_of_pairwise_cons inLinks (List.mem_append_right _ (mem_linksColumns later).1)

/-- **The leftmost operator of the tightest tier stands between literals**, and first in its chain:
a later link would have one of the same tier left of it. -/
theorem exists_redex {e : Expr} {tier : Tier} {column : Nat} (region : e.Region)
    (unsigned : ¬ e.Has SignedLiteral) (tightest : Tightest tier e)
    (found : e.HasPart (OperatorOf tier column)) (leftmost : Leftmost (OperatorOf tier) column e) :
    ∃ (context : Context) (left : Int64) (start : Nat) (op : Operator) (right : Int64)
      (inner : Nat) (links : List (Link Expr)), op.tier = tier ∧
      e = context.fill
        (.chain (.literal left start) (⟨op, .literal right inner, column⟩ :: links)) := by
  obtain ⟨_, contains, head, links, link, rfl, member, ofTier, rfl⟩ := found
  obtain ⟨-, chainTier, allOfTier, tightHead, tightOperands⟩ := region.layered _ contains
  obtain rfl : tier = chainTier := ofTier.symm.trans (allOfTier link member)
  obtain ⟨first, more, rfl⟩ := List.exists_cons_of_ne_nil (List.ne_nil_of_mem member)
  have isFirst : link = first := by
    refine (List.mem_cons.mp member).resolve_right fun later => ?_
    have less := lt_of_later_link (region.of_contains contains).increasing later
    have here : OperatorOf tier first.column (chain head (first :: more)) :=
      allOfTier first List.mem_cons_self ▸ operatorOf_chain List.mem_cons_self
    exact Nat.not_le_of_lt less (leftmost _ ⟨_, contains, here⟩)
  obtain rfl := isFirst
  obtain ⟨op, operand, column⟩ := link
  obtain ⟨left, start, rfl⟩ := eq_literal_of_operand region unsigned tightest
    (contains.trans (.head (.refl _))) tightHead
  obtain ⟨right, inner, rfl⟩ := eq_literal_of_operand region unsigned tightest
    (contains.trans (.operand List.mem_cons_self (.refl _))) (tightOperands _ List.mem_cons_self)
  obtain ⟨context, same⟩ := contains_iff_exists_fill.mp contains
  exact ⟨context, left, start, op, right, inner, more, ofTier, same⟩

/-! ### What is due -/

/-- The operation that is due in an expression without groups and without minus signs before
literals: the leftmost of the tightest tier, which has two literals. -/
structure OperationDue (region : Expr) (context : Context) (left : Int64) (start : Nat)
    (op : Operator) (right : Int64) (inner column : Nat) (links : List (Link Expr)) : Prop where
  unsigned : ¬ region.Has SignedLiteral
  here : region = context.fill
    (.chain (.literal left start) (⟨op, .literal right inner, column⟩ :: links))
  tightest : Tightest op.tier region
  leftmost : Leftmost (OperatorOf op.tier) column region

/-- The reduction that is due in an expression without groups, with what it leaves: all minus signs
before literals are folded, or else the operation that is due is replaced by its value. This is the
head of the links that remain, or stands alone if none do. -/
inductive Due (region : Expr) : Reduction → Expr → Prop
  | signs {value result : Int64} {start column : Nat} {next : Expr}
      (sign : region.Contains (.negate (.literal value start) column))
      (leftmost : Leftmost SignedLiteral column region)
      (negated : checkedNeg value column = .ok result) (folds : FoldsAll region next) :
      Due region (.negation result column) next
  | operation {context : Context} {left right value : Int64} {op : Operator}
      {start inner column : Nat} {link : Link Expr} {links : List (Link Expr)}
      (due : OperationDue region context left start op right inner column (link :: links))
      (applied : op.apply left right column = .ok value) :
      Due region (.operation left op right value column)
        (context.fill (.chain (.literal value start) (link :: links)))
  | last {context : Context} {left right value : Int64} {op : Operator} {start inner column : Nat}
      (due : OperationDue region context left start op right inner column [])
      (applied : op.apply left right column = .ok value) :
      Due region (.operation left op right value column) (context.fill (.literal value start))

/-- The error of what is due in an expression without groups: that of the leftmost minus sign before
a literal that cannot be negated, or else that of the operation that is due. -/
inductive DueFault (region : Expr) : RuntimeError → Prop
  | sign {value : Int64} {start column : Nat} {error : RuntimeError}
      (sign : region.Contains (.negate (.literal value start) column))
      (leftmost : Leftmost FailingSign column region)
      (negated : checkedNeg value column = .error error) : DueFault region error
  | operation {context : Context} {left right : Int64} {op : Operator} {start inner column : Nat}
      {links : List (Link Expr)} {error : RuntimeError}
      (due : OperationDue region context left start op right inner column links)
      (applied : op.apply left right column = .error error) : DueFault region error

section Due

variable {e : Expr} {context : Context} {left right value : Int64} {op : Operator}
  {start inner column : Nat} {links : List (Link Expr)} {error : RuntimeError}

theorem contract_redex (left : Int64) (start : Nat) (op : Operator) (right : Int64)
    (inner column : Nat) (links : List (Link Expr)) :
    contract op.tier (chain (literal left start) (⟨op, literal right inner, column⟩ :: links)) =
      match op.apply left right column with
      | .ok value =>
        .reduced (.operation left op right value column) (ofLinks (literal value start) links)
      | .error error =>
        .failed error
          (chain (literal left start) (⟨op, literal right inner, column⟩ :: links)) := by
  rw [contract, contract, contractFirst, if_pos rfl]
  cases applied : op.apply left right column <;> simp only [literal?, applied] <;> rfl

/-- Without a minus sign before a literal, the tightest operators are contracted. -/
theorem reduceFlat_of_tightest {tier : Tier} (unsigned : ¬ e.Has SignedLiteral)
    (tightest : Tightest tier e) (finds : contract tier e ≠ .irreducible) :
    reduceFlat e = contract tier e := by
  rw [reduceFlat, foldSigns_eq_irreducible_of_none unsigned, Attempt.irreducible_orElse]
  have tighter (other : Tier) (less : other.rank < tier.rank) :
      contract other e = .irreducible := contract_eq_irreducible_of_none (tightest other less)
  cases tier with
  | power => exact Attempt.orElse_of_ne_irreducible finds
  | product =>
    rw [tighter .power (by decide), Attempt.irreducible_orElse]
    exact Attempt.orElse_of_ne_irreducible finds
  | sum =>
    rw [tighter .power (by decide), tighter .product (by decide)]
    rfl

/-- **The operation that is due is the one that is contracted.** -/
theorem OperationDue.reduceFlat_eq (region : e.Region)
    (due : OperationDue e context left start op right inner column links) :
    reduceFlat e =
      match op.apply left right column with
      | .ok value =>
        .reduced (.operation left op right value column)
          (context.fill (ofLinks (literal value start) links))
      | .error error => .failed error e := by
  have finds : contract op.tier
      (chain (literal left start) (⟨op, literal right inner, column⟩ :: links)) ≠ .irreducible := by
    rw [contract_redex]
    cases op.apply left right column <;> exact nofun
  obtain ⟨unsigned, rfl, tightest, leftmost⟩ := due
  have contracts := contract_fill (operatorOf_chain List.mem_cons_self) finds region leftmost
  rw [reduceFlat_of_tightest unsigned tightest (contracts ▸ Attempt.map_ne_irreducible finds),
    contracts, contract_redex]
  cases op.apply left right column <;> rfl

/-- Where something other than minus signs is reduced, one tier of operators is the tightest. -/
theorem exists_tightest (finds : reduceFlat e ≠ .irreducible)
    (unsigned : ¬ e.Has SignedLiteral) :
    ∃ tier, e.Has (OperatorOf tier) ∧ Tightest tier e := by
  have someTier : ∃ tier, e.Has (OperatorOf tier) := by
    by_contra none
    refine finds (reduceFlat_eq_irreducible_iff.mpr
      ⟨foldSigns_eq_irreducible_of_none unsigned, fun tier => ?_⟩)
    exact contract_eq_irreducible_of_none fun has => none ⟨tier, has⟩
  obtain ⟨tier, least⟩ := exists_minimalFor_of_wellFoundedLT _ Tier.rank someTier
  exact ⟨tier, least.prop, fun other less has => least.not_lt has less⟩

/-- So an operation is due there. -/
theorem exists_operationDue (region : e.Region) (finds : reduceFlat e ≠ .irreducible)
    (unsigned : ¬ e.Has SignedLiteral) :
    ∃ context left start op right inner column links,
      OperationDue e context left start op right inner column links := by
  obtain ⟨tier, someOperator, tightest⟩ := exists_tightest finds unsigned
  obtain ⟨column, found, leftmost⟩ := exists_leftmost someOperator
  obtain ⟨context, left, start, op, right, inner, links, rfl, here⟩ :=
    exists_redex region unsigned tightest found leftmost
  exact ⟨context, left, start, op, right, inner, column, links, unsigned, here, tightest, leftmost⟩

/-- Where a minus sign stands before a literal, the signs are what is reduced. -/
theorem reduceFlat_of_signed (region : e.Region) (signed : e.Has SignedLiteral) :
    reduceFlat e = foldSigns e :=
  Attempt.orElse_of_ne_irreducible fun nothing =>
    (foldSigns_eq_irreducible_iff region.groupless).mp nothing signed

theorem Due.ofLinks (due : OperationDue e context left start op right inner column links)
    (applied : op.apply left right column = .ok value) :
    Due e (.operation left op right value column)
      (context.fill (ofLinks (.literal value start) links)) := by
  cases links with
  | nil => exact .last due applied
  | cons link links => exact .operation due applied

/-- **A reduction without groups does what is due.** -/
theorem reduceFlat_eq_reduced_iff (region : e.Region) {reduction : Reduction} {next : Expr} :
    reduceFlat e = .reduced reduction next ↔ Due e reduction next := by
  constructor
  · intro ran
    by_cases signed : e.Has SignedLiteral
    · rw [reduceFlat_of_signed region signed, foldSigns_eq_reduced_iff region] at ran
      obtain ⟨folds, value, start, column, result, sign, leftmost, negated, rfl⟩ := ran
      exact .signs sign leftmost negated folds
    · have finds : reduceFlat e ≠ .irreducible := by
        rw [ran]
        rintro ⟨⟩
      obtain ⟨context, left, start, op, right, inner, column, links, due⟩ :=
        exists_operationDue region finds signed
      rw [due.reduceFlat_eq region] at ran
      cases applied : op.apply left right column with
      | ok value =>
        rw [applied] at ran
        cases ran
        exact .ofLinks due applied
      | error error =>
        rw [applied] at ran
        cases ran
  · rintro (⟨sign, leftmost, negated, folds⟩ | ⟨due, applied⟩ | ⟨due, applied⟩)
    · rw [reduceFlat_of_signed region ⟨_, _, sign, _, _, rfl⟩, foldSigns_eq_reduced_iff region]
      exact ⟨folds, _, _, _, _, sign, leftmost, negated, rfl⟩
    · rw [due.reduceFlat_eq region, applied]
      rfl
    · rw [due.reduceFlat_eq region, applied]
      rfl

/-- **A reduction without groups fails where what is due has no value**, and with its error. -/
theorem failure?_reduceFlat_eq_some_iff (region : e.Region) :
    (reduceFlat e).failure? = some error ↔ DueFault e error := by
  constructor
  · intro fails
    by_cases signed : e.Has SignedLiteral
    · rw [reduceFlat_of_signed region signed, failure?_foldSigns_eq_some_iff region] at fails
      obtain ⟨value, start, column, sign, leftmost, negated⟩ := fails
      exact .sign sign leftmost negated
    · have finds : reduceFlat e ≠ .irreducible := by
        intro nothing
        rw [nothing] at fails
        cases fails
      obtain ⟨context, left, start, op, right, inner, column, links, due⟩ :=
        exists_operationDue region finds signed
      rw [due.reduceFlat_eq region] at fails
      cases applied : op.apply left right column with
      | ok value =>
        rw [applied] at fails
        cases fails
      | error fault =>
        rw [applied] at fails
        cases fails
        exact .operation due applied
  · rintro (⟨sign, leftmost, negated⟩ | ⟨due, applied⟩)
    · rw [reduceFlat_of_signed region ⟨_, _, sign, _, _, rfl⟩,
        failure?_foldSigns_eq_some_iff region]
      exact ⟨_, _, _, sign, leftmost, negated⟩
    · rw [due.reduceFlat_eq region, applied]
      rfl

end Due

end Expr

end Abacus

/-
**Parts in their places.**

A part of an expression stands in a context: the expression with a hole in the place of the part.
Where the columns of the expression increase, whatever is left of the hole has smaller columns than
the part. A search from the left meets what stands at the smallest column first.

* `Expr.Context`, `Expr.contains_iff_exists_fill`: contexts, and that every part stands in one;
* `Expr.Leftmost`, `Expr.exists_leftmost`: the smallest column of the parts of a kind;
* `Expr.none_left_of_operand`: nothing of a kind is left of the leftmost part of this kind;
* `Expr.Tidy`, `tidy_of_parse`: what is known of all parts of the states of a reduction;
* `Expr.Region`: tidy expressions without groups.
-/

import Abacus.Proofs.Layers
import Mathlib.Order.Minimal

namespace Abacus

namespace Expr

/-! ### Contexts -/

/-- An expression with a hole in it. -/
inductive Context where
  | hole
  | group (inside : Context) (column : Nat)
  | negate (inside : Context) (column : Nat)
  | head (inside : Context) (links : List (Link Expr))
  | operand (head : Expr) (before : List (Link Expr)) (op : Operator) (inside : Context)
      (column : Nat) (links : List (Link Expr))

/-- The expression with a part put into the hole. -/
def Context.fill : Context → Expr → Expr
  | hole, part => part
  | group inside column, part => .group (inside.fill part) column
  | negate inside column, part => .negate (inside.fill part) column
  | head inside links, part => .chain (inside.fill part) links
  | operand first before op inside column links, part =>
    .chain first (before ++ ⟨op, inside.fill part, column⟩ :: links)

theorem Contains.trans {e part inner : Expr} (contains : e.Contains part)
    (inside : part.Contains inner) : e.Contains inner := by
  induction contains with
  | refl => exact inside
  | group _ ih => exact .group (ih inside)
  | negate _ ih => exact .negate (ih inside)
  | head _ ih => exact .head (ih inside)
  | operand member _ ih => exact .operand member (ih inside)

theorem Context.contains_fill (context : Context) (part : Expr) :
    (context.fill part).Contains part := by
  induction context with
  | hole => exact .refl part
  | group inside column ih => exact .group ih
  | negate inside column ih => exact .negate ih
  | head inside links ih => exact .head ih
  | operand head before op inside column links ih =>
    exact .operand List.mem_append_cons_self ih

/-- **The parts of an expression are what stands in contexts in it.** -/
theorem contains_iff_exists_fill {e part : Expr} :
    e.Contains part ↔ ∃ context : Context, e = context.fill part := by
  constructor
  · intro contains
    induction contains with
    | refl => exact ⟨.hole, rfl⟩
    | @group inner part column _ ih =>
      obtain ⟨context, same⟩ := ih
      exact ⟨.group context column, congrArg (group · column) same⟩
    | @negate operand part column _ ih =>
      obtain ⟨context, same⟩ := ih
      exact ⟨.negate context column, congrArg (negate · column) same⟩
    | @head head part links _ ih =>
      obtain ⟨context, same⟩ := ih
      exact ⟨.head context links, congrArg (chain · links) same⟩
    | @operand head part links link member _ ih =>
      obtain ⟨context, same⟩ := ih
      obtain ⟨before, more, rfl⟩ := List.append_of_mem member
      refine ⟨.operand head before link.op context link.column more, ?_⟩
      rw [Context.fill, ← same]
  · rintro ⟨context, rfl⟩
    exact context.contains_fill part

/-! ### Columns -/

theorem mem_linksColumns {links : List (Link Expr)} {link : Link Expr} (member : link ∈ links) :
    link.column ∈ linksColumns links ∧ link.operand.columns.Sublist (linksColumns links) := by
  obtain ⟨before, more, rfl⟩ := List.append_of_mem member
  rw [linksColumns_append, linksColumns]
  refine ⟨List.mem_append_cons_self, ?_⟩
  exact ((List.sublist_append_left _ _).cons _).trans (List.sublist_append_right _ _)

theorem Contains.columns_sublist {e part : Expr} (contains : e.Contains part) :
    part.columns.Sublist e.columns := by
  induction contains with
  | refl => exact .refl _
  | group _ ih => exact ih.cons _
  | negate _ ih => exact ih.cons _
  | head _ ih => exact ih.trans (List.sublist_append_left _ _)
  | operand member _ ih =>
    exact (ih.trans (mem_linksColumns member).2).trans (List.sublist_append_right _ _)

/-- What stands left of a column in an operand of a chain has smaller columns. -/
theorem lt_of_left_of_operand {head operand : Expr} {before links : List (Link Expr)}
    {op : Operator} {opColumn column : Nat}
    (increasing :
      (chain head (before ++ ⟨op, operand, opColumn⟩ :: links)).columns.Pairwise (· < ·))
    (inside : column ∈ operand.columns) :
    (∀ left ∈ head.columns ++ linksColumns before, left < column) ∧ opColumn < column := by
  rw [columns, linksColumns_append, linksColumns, ← List.append_assoc] at increasing
  obtain ⟨-, fromOperator, across⟩ := List.pairwise_append.mp increasing
  have behind : column ∈ operand.columns ++ linksColumns links := List.mem_append_left _ inside
  exact ⟨fun left member => across left member column (List.mem_cons_of_mem _ behind),
    List.rel_of_pairwise_cons fromOperator behind⟩

/-! ### The leftmost part of a kind -/

section Leftmost

variable {kind : Nat → Expr → Prop} {e part : Expr} {column : Nat}

/-- There is a part of the kind at some column. -/
def Has (kind : Nat → Expr → Prop) (e : Expr) : Prop := ∃ column, e.HasPart (kind column)

/-- No part of the kind is left of the column. -/
def Leftmost (kind : Nat → Expr → Prop) (column : Nat) (e : Expr) : Prop :=
  ∀ other, e.HasPart (kind other) → column ≤ other

/-- What is of the kind at a column has this column itself. -/
def Stands (kind : Nat → Expr → Prop) : Prop := ∀ column e, kind column e → column ∈ e.columns

theorem HasPart.of_contains {kind : Expr → Prop} (contains : e.Contains part)
    (has : part.HasPart kind) : e.HasPart kind := by
  obtain ⟨inner, inside, ofKind⟩ := has
  exact ⟨inner, contains.trans inside, ofKind⟩

theorem Has.of_contains (contains : e.Contains part) : part.Has kind → e.Has kind :=
  fun ⟨column, has⟩ => ⟨column, has.of_contains contains⟩

theorem Leftmost.of_contains (leftmost : Leftmost kind column e) (contains : e.Contains part) :
    Leftmost kind column part :=
  fun other has => leftmost other (has.of_contains contains)

theorem HasPart.mem_columns (stands : Stands kind) (has : e.HasPart (kind column)) :
    column ∈ e.columns := by
  obtain ⟨part, contains, ofKind⟩ := has
  exact contains.columns_sublist.subset (stands column part ofKind)

/-- **Of the parts of a kind, one is leftmost.** -/
theorem exists_leftmost (has : e.Has kind) :
    ∃ column, e.HasPart (kind column) ∧ Leftmost kind column e := by
  obtain ⟨column, least⟩ :=
    exists_minimal_of_wellFoundedLT (fun column => e.HasPart (kind column)) has
  exact ⟨column, least.prop, fun other has => Nat.le_of_not_lt (least.not_lt has)⟩

/-- **Nothing of a kind is left of the leftmost part of this kind**, if this is in an operand. -/
theorem none_left_of_operand {head operand : Expr} {before links : List (Link Expr)}
    {op : Operator} {opColumn : Nat} (stands : Stands kind)
    (increasing :
      (chain head (before ++ ⟨op, operand, opColumn⟩ :: links)).columns.Pairwise (· < ·))
    (leftmost : Leftmost kind column (chain head (before ++ ⟨op, operand, opColumn⟩ :: links)))
    (inside : column ∈ operand.columns) :
    ¬ head.Has kind ∧ ∀ link ∈ before, ¬ link.operand.Has kind := by
  have left := (lt_of_left_of_operand increasing inside).1
  constructor
  · rintro ⟨other, has⟩
    have less := left other (List.mem_append_left _ (has.mem_columns stands))
    exact Nat.not_le_of_lt less (leftmost other (has.of_contains (.head (.refl _))))
  · rintro link member ⟨other, has⟩
    have inBefore := (mem_linksColumns member).2.subset (has.mem_columns stands)
    have less := left other (List.mem_append_right _ inBefore)
    have contains : (chain head (before ++ ⟨op, operand, opColumn⟩ :: links)).Contains
        link.operand := .operand (List.mem_append_left _ member) (.refl _)
    exact Nat.not_le_of_lt less (leftmost other (has.of_contains contains))

end Leftmost

/-! ### Tidy expressions -/

/-- All operations in the expression have their layers, and the columns increase. -/
structure Tidy (e : Expr) : Prop where
  layered : ∀ part, e.Contains part → part.Layered
  increasing : e.columns.Pairwise (· < ·)

theorem Tidy.of_contains {e part : Expr} (tidy : e.Tidy) (contains : e.Contains part) :
    part.Tidy where
  layered inner inside := tidy.layered inner (contains.trans inside)
  increasing := tidy.increasing.sublist contains.columns_sublist

theorem linked_of_layered (e : Expr) (layered : ∀ part, e.Contains part → part.Layered) :
    e.Linked := by
  induction e using induction with
  | literal value column => exact .literal value column
  | group inner column ih =>
    exact .group column (ih fun part inside => layered part (.group inside))
  | negate operand column ih =>
    exact .negate column (ih fun part inside => layered part (.negate inside))
  | chain head links ihHead ihOperands =>
    obtain ⟨someLink, -⟩ := layered _ (.refl _)
    obtain ⟨link, more, rfl⟩ := List.exists_cons_of_ne_nil someLink
    exact .chain (ihHead fun part inside => layered part (.head inside)) fun other member =>
      ihOperands other member fun part inside => layered part (.operand member inside)

/-- There is no group in the expression. -/
def Groupless (e : Expr) : Prop := ∀ inner column, ¬ e.Contains (.group inner column)

theorem Groupless.of_contains {e part : Expr} (groupless : e.Groupless)
    (contains : e.Contains part) : part.Groupless :=
  fun inner column inside => groupless inner column (contains.trans inside)

/-- A tidy expression without groups: what a step works in. -/
structure Region (e : Expr) : Prop extends Tidy e where
  groupless : e.Groupless

theorem Region.of_contains {e part : Expr} (region : e.Region) (contains : e.Contains part) :
    part.Region where
  toTidy := region.toTidy.of_contains contains
  groupless := region.groupless.of_contains contains

end Expr

open Abacus.Expr

/-- **Every state of the reduction of a text is tidy.** -/
theorem tidy_of_parse {source : String} {e state : Expr} (parsed : parse source = .ok e)
    (rewrites : RewritesTo e state) : state.Tidy := by
  have fits := (fits_of_reaches parsed .refl (Nat.le_refl _)).rewritesTo rewrites
  exact ⟨fits.layered, increasing_of_parse parsed rewrites⟩

end Abacus

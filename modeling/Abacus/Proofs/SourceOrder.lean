/-
**Columns in the order of the text.**

The tokens of a text stand at increasing columns. The parts of an expression stand at columns of its
tokens, in the same order, and a rewriting only takes some of them away.

* `Expr.columns`: the columns of an expression in the order of its text;
* `increasing_of_tokenize`: the columns of the tokens of a text increase;
* `Grammar.Derivation.columns_sublist`, `Expr.Rewrites.columns_sublist`: where the columns of an
  expression come from;
* `increasing_of_parse`: the columns of an expression, and of what it is rewritten to, increase.
-/

import Abacus.Proofs.Parsing
import Abacus.Proofs.Rewriting

namespace Abacus

namespace Expr

mutual

/-- The columns of an expression in the order of its text: those of literals, of opening
parentheses, of minus signs and of the operators of chains. -/
def columns : Expr → List Nat
  | literal _ column => [column]
  | group inner column => column :: inner.columns
  | negate operand column => column :: operand.columns
  | chain head links => head.columns ++ linksColumns links

/-- The columns of links: that of each operator and those of its operand. -/
def linksColumns : List (Link Expr) → List Nat
  | [] => []
  | ⟨_, operand, column⟩ :: links => column :: (operand.columns ++ linksColumns links)

end

@[simp]
theorem columns_ofLinks (head : Expr) (links : List (Link Expr)) :
    (ofLinks head links).columns = head.columns ++ linksColumns links := by
  cases links with
  | nil => rw [ofLinks, linksColumns, List.append_nil]
  | cons link links => rw [ofLinks, columns]

theorem linksColumns_append (before links : List (Link Expr)) :
    linksColumns (before ++ links) = linksColumns before ++ linksColumns links := by
  induction before with
  | nil => rfl
  | cons link before ih =>
    obtain ⟨op, operand, column⟩ := link
    rw [List.cons_append, linksColumns, linksColumns, ih, List.cons_append, List.append_assoc]

/-- **A rewriting only takes columns away.** -/
theorem Rewrites.columns_sublist {e next : Expr} (rewrites : Rewrites e next) :
    next.columns.Sublist e.columns := by
  induction rewrites with
  | fold negated => exact (List.nil_sublist _).cons_cons _
  | contract applied =>
    rw [columns_ofLinks, columns, columns, columns, linksColumns, columns]
    exact (((List.Sublist.refl _).cons _).cons _).cons_cons _
  | ungroup => exact (List.nil_sublist _).cons_cons _
  | group _ ih => exact ih.cons_cons _
  | negate _ ih => exact ih.cons_cons _
  | head _ ih => exact ih.append (.refl _)
  | operand _ ih =>
    rw [columns, columns, linksColumns_append, linksColumns_append, linksColumns, linksColumns]
    exact (List.Sublist.refl _).append
      ((List.Sublist.refl _).append ((ih.append (.refl _)).cons_cons _))

theorem RewritesTo.columns_sublist {e next : Expr} (rewrites : RewritesTo e next) :
    next.columns.Sublist e.columns := by
  induction rewrites with
  | refl => exact .refl _
  | tail _ last ih => exact last.columns_sublist.trans ih

end Expr

/-! ### Tokens -/

/-- The columns of tokens. -/
abbrev columnsOf (lexemes : List Lexeme) : List Nat := lexemes.map Lexeme.column

theorem increasing_of_scan {column : Nat} {text : List Char} {lexemes : List Lexeme}
    (read : scan column text = .ok lexemes) :
    (columnsOf lexemes).Pairwise (· < ·) ∧ ∀ later ∈ columnsOf lexemes, column ≤ later := by
  fun_induction scan column text generalizing lexemes with
  | case1 =>
    cases read
    exact ⟨.nil, List.forall_mem_nil _⟩
  | case2 column c rest digit digits magnitude small =>
    rename_i ih
    obtain ⟨more, readMore, same⟩ := bind_eq_ok_iff.mp read
    cases same
    obtain ⟨increasing, bound⟩ := ih readMore
    have behind : column < column + digits.length := Nat.lt_add_of_pos_right (Nat.succ_pos _)
    refine ⟨.cons (fun later member => Nat.lt_of_lt_of_le behind (bound later member)) increasing,
      List.forall_mem_cons.mpr ⟨Nat.le_refl _, fun later member => ?_⟩⟩
    exact Nat.le_trans (Nat.le_of_lt behind) (bound later member)
  | case3 => cases read
  | case4 column c rest notDigit separator ih =>
    obtain ⟨increasing, bound⟩ := ih read
    exact ⟨increasing, fun later member => Nat.le_of_succ_le (bound later member)⟩
  | case5 column c rest notDigit notSeparator token found ih =>
    obtain ⟨more, readMore, same⟩ := bind_eq_ok_iff.mp read
    cases same
    obtain ⟨increasing, bound⟩ := ih readMore
    exact ⟨.cons bound increasing,
      List.forall_mem_cons.mpr ⟨Nat.le_refl _, fun later member =>
        Nat.le_of_succ_le (bound later member)⟩⟩
  | case6 => cases read

/-- **The columns of the tokens of a text increase.** -/
theorem increasing_of_tokenize {source : String} {lexemes : List Lexeme}
    (read : tokenize source = .ok lexemes) : (columnsOf lexemes).Pairwise (· < ·) :=
  (increasing_of_scan read).1

/-! ### Expressions -/

namespace Grammar

mutual

/-- **The parts of a derived expression stand at columns of its tokens**, in the same order. -/
theorem Derivation.columns_sublist {symbol : Symbol} {lexemes : List Lexeme} {e : Expr} :
    Derivation symbol lexemes e → e.columns.Sublist (columnsOf lexemes)
  | .integer _ _ _ => .refl _
  | .group opening _ inside => by
    rw [columnsOf, List.map_cons, List.map_append]
    exact (inside.columns_sublist.trans (List.sublist_append_left _ _)).cons_cons opening
  | .unsigned operand => operand.columns_sublist
  | .signed column operand => operand.columns_sublist.cons_cons column
  | .leastSigned _ _ _ _ => (List.nil_sublist _).cons_cons _
  | .base power => power.columns_sublist
  | .plain power => power.columns_sublist
  | .negated column power => power.columns_sublist.cons_cons column
  | .leastFactor _ _ _ _ => (List.nil_sublist _).cons_cons _
  | .alone operand => operand.columns_sublist
  | .chain first next => by
    rw [Expr.columns, columnsOf, List.map_append]
    exact first.columns_sublist.append next.columns_sublist

theorem LinksDerivation.columns_sublist {tier : Tier} {lexemes : List Lexeme}
    {links : List (Link Expr)} :
    LinksDerivation tier lexemes links → (Expr.linksColumns links).Sublist (columnsOf lexemes)
  | .nil => .refl _
  | .cons _ column _ operand next => by
    rw [columnsOf, List.map_cons, List.map_append]
    exact (operand.columns_sublist.append next.columns_sublist).cons_cons column

end

end Grammar

open Grammar Abacus.Expr

/-- **The columns of an expression increase**, and so do those of what it is rewritten to. -/
theorem increasing_of_parse {source : String} {e state : Expr} (parsed : parse source = .ok e)
    (rewrites : RewritesTo e state) : state.columns.Pairwise (· < ·) := by
  obtain ⟨lexemes, read, parsed⟩ := bind_eq_ok_iff.mp parsed
  obtain ⟨⟨derivation⟩, -⟩ := derivation_of_parseLexemes parsed
  exact (increasing_of_tokenize read).sublist
    (rewrites.columns_sublist.trans derivation.columns_sublist)

end Abacus

/-
**Without powers a trace shrinks.**

A rewriting replaces a part of an expression by the literal of its value. Only a power can have a
value that is wider than its operands, so without powers no state has a longer text than the one
before it; and where the text has the same length it is the same, and no entry of the trace.

* `Expr.Powerless`: no operator of the expression is that of powers;
* `Expr.Rewrites.shrinks`: a rewriting keeps the text of such an expression or shortens it;
* `Grammar.Fits.isChain_shrink`: so does every step of a reduction;
* `Spells.shrinks`: a text is that of the tokens it spells, or longer;
* `trace_shrinks`: every entry of a compact trace is shorter than the one before it.
-/

import Abacus.Proofs.Decimal
import Abacus.Proofs.Layers
import Abacus.Proofs.RoundTrip
import Abacus.Proofs.Trace

namespace Abacus

open Abacus.Expr (Rewrites RewritesTo Contains Layered BindsTighter enclosed linksTokens)
open Grammar

/-! ### Texts of tokens -/

namespace Token

/-- The text of the second tokens is that of the first, or shorter. -/
def TextShrinks (tokens next : List Token) : Prop :=
  Shrinks (tokens.flatMap chars) (next.flatMap chars)

variable {tokens next front front' : List Token}

theorem TextShrinks.refl (tokens : List Token) : TextShrinks tokens tokens := .inl rfl

theorem TextShrinks.of_width_lt (narrower : width next < width tokens) : TextShrinks tokens next :=
  .inr narrower

theorem TextShrinks.append (one : TextShrinks front front') (two : TextShrinks tokens next) :
    TextShrinks (front ++ tokens) (front' ++ next) := by
  rw [TextShrinks, List.flatMap_append, List.flatMap_append]
  exact Shrinks.append one two

theorem TextShrinks.cons (token : Token) (shrink : TextShrinks tokens next) :
    TextShrinks (token :: tokens) (token :: next) :=
  (TextShrinks.refl [token]).append shrink

theorem width_append (tokens more : List Token) :
    width (tokens ++ more) = width tokens + width more := by
  rw [width, width, width, List.flatMap_append, List.length_append]

theorem width_operator (op : Operator) (tokens : List Token) :
    width (operator op :: tokens) = width tokens + 1 := by
  rw [width, List.flatMap_cons, List.length_append]
  exact Nat.add_comm 1 _

theorem width_enclosed (tokens : List Token) : width (enclosed tokens) = width tokens + 2 := by
  rw [enclosed, width, List.flatMap_cons, List.flatMap_append, List.length_append,
    List.length_append]
  exact Nat.add_comm 1 _

theorem shrink_enclosed (tokens : List Token) : TextShrinks (enclosed tokens) tokens := by
  refine .of_width_lt ?_
  rw [width_enclosed]
  omega

end Token

/-- A minus sign before a value is kept, or the value has one less. -/
theorem shrink_negation {value result : Int64} {column : Nat}
    (negated : checkedNeg value column = .ok result) :
    Token.TextShrinks
      (.minus :: if value < 0 then enclosed (Token.ofValue value) else Token.ofValue value)
      (Token.ofValue result) := by
  have exact : result.toInt = -value.toInt := checked_eq_ok_iff.mp negated
  have magnitude : result.toInt.natAbs = value.toInt.natAbs := by rw [exact, Int.natAbs_neg]
  by_cases negative : value < 0
  · have positive : ¬ result < 0 := by
      rw [Int64.lt_iff_toInt_lt, Int64.toInt_zero] at negative ⊢
      omega
    rw [if_pos negative]
    refine .of_width_lt ?_
    rw [Token.width_operator, Token.width_enclosed, width_ofValue, width_ofValue, magnitude,
      if_pos negative, if_neg positive]
    omega
  · rw [if_neg negative, Token.ofValue_of_not_neg negative, ← magnitude]
    by_cases signed : result < 0
    · rw [Token.ofValue_of_neg signed]
      exact .refl _
    · rw [Token.ofValue_of_not_neg signed]
      refine .of_width_lt ?_
      rw [Token.width_operator]
      exact Nat.lt_succ_self _

/-! ### Expressions without powers -/

namespace Expr

/-- No operator of the expression is that of powers. -/
def Powerless (e : Expr) : Prop := Token.operator .pow ∉ e.tokens

theorem powerless_ofValue (value : Int64) : Token.operator .pow ∉ Token.ofValue value := by
  unfold Token.ofValue
  split <;> simp

theorem mem_enclosed_iff {op : Operator} {tokens : List Token} :
    Token.operator op ∈ enclosed tokens ↔ Token.operator op ∈ tokens := by
  simp [enclosed]

theorem powerless_literal (value : Int64) (column : Nat) : (literal value column).Powerless := by
  rw [Powerless, tokens]
  exact powerless_ofValue value

theorem powerless_group_iff {inner : Expr} {column : Nat} :
    (group inner column).Powerless ↔ inner.Powerless := by
  rw [Powerless, tokens, mem_enclosed_iff]
  rfl

theorem powerless_negate_iff {operand : Expr} {column : Nat} :
    (negate operand column).Powerless ↔ operand.Powerless := by
  rw [Powerless, Powerless, tokens, List.mem_cons]
  split
  · rw [mem_enclosed_iff]
    simp
  · simp

theorem powerless_chain_iff {head : Expr} {links : List (Link Expr)} :
    (chain head links).Powerless ↔
      head.Powerless ∧ ∀ link ∈ links, link.op ≠ .pow ∧ link.operand.Powerless := by
  have inLinks : Token.operator .pow ∉ linksTokens links ↔
      ∀ link ∈ links, link.op ≠ .pow ∧ link.operand.Powerless := by
    simp only [linksTokens_eq_flatMap, List.mem_flatMap, List.mem_cons, Token.operator.injEq,
      not_exists, not_and, not_or, Powerless, ne_eq, eq_comm]
  rw [Powerless, tokens, List.mem_append, not_or, inLinks]
  split
  · rw [mem_enclosed_iff]
    rfl
  · rfl

/-- Links without powers take no parentheses around a negative head. -/
theorem tokens_chain_of_powerless {head : Expr} {links : List (Link Expr)}
    (noPower : ∀ link ∈ links, link.op ≠ .pow) :
    (chain head links).tokens = head.tokens ++ linksTokens links := by
  have plain : startWithPower links = false := by
    cases links with
    | nil => rfl
    | cons link links => exact beq_eq_false_iff_ne.mpr (noPower link List.mem_cons_self)
  rw [tokens, plain, Bool.and_false]
  rfl

theorem tokens_ofLinks_of_powerless {head : Expr} {links : List (Link Expr)}
    (noPower : ∀ link ∈ links, link.op ≠ .pow) :
    (ofLinks head links).tokens = head.tokens ++ linksTokens links := by
  cases links with
  | nil => exact (List.append_nil _).symm
  | cons link links => exact tokens_chain_of_powerless noPower

theorem powerless_ofLinks_iff {head : Expr} {links : List (Link Expr)} :
    (ofLinks head links).Powerless ↔
      head.Powerless ∧ ∀ link ∈ links, link.op ≠ .pow ∧ link.operand.Powerless := by
  cases links with
  | nil => exact ⟨fun powerless => ⟨powerless, List.forall_mem_nil _⟩, And.left⟩
  | cons link links => exact powerless_chain_iff

/-! ### Rewriting -/

/-- Behind a minus sign stands a literal or a group, if there are no powers: a chain there is one of
powers, and chains have a link. -/
theorem literal_or_group_of_layered {operand : Expr} {column : Nat}
    (layered : ∀ part, (negate operand column).Contains part → part.Layered)
    (powerless : operand.Powerless) :
    (∃ value start, operand = literal value start) ∨
      ∃ inner start, operand = group inner start := by
  have tight : BindsTighter Tier.product.rank operand := layered _ (.refl _)
  cases tight with
  | literal value start => exact .inl ⟨value, start, rfl⟩
  | group inner start => exact .inr ⟨inner, start, rfl⟩
  | @chain tier links head ofTier tighter =>
    have nonempty : links ≠ [] := (layered _ (.negate (.refl _))).1
    obtain ⟨link, member⟩ := List.exists_mem_of_ne_nil links nonempty
    have isPower : tier = .power := by cases tier <;> first | rfl | exact absurd tighter (by decide)
    have linkTier := ofTier link member
    rw [isPower, ← Operator.mem_operators_tier] at linkTier
    exact absurd (List.mem_singleton.mp linkTier)
      ((powerless_chain_iff.mp powerless).2 link member).1

/-- A value takes no more room than the operation it is the result of. -/
theorem shrink_contract {left right value : Int64} {op : Operator} {start inner column : Nat}
    {links : List (Link Expr)}
    (noPower : ∀ link ∈ ⟨op, literal right inner, column⟩ :: links, link.op ≠ .pow)
    (applied : op.apply left right column = .ok value) :
    Token.TextShrinks (chain (literal left start) (⟨op, literal right inner, column⟩ :: links)).tokens
      (ofLinks (literal value start) links).tokens := by
  obtain ⟨noPowerOp, noPowerMore⟩ := List.forall_mem_cons.mp noPower
  have narrow := width_result_le noPowerOp applied
  refine .of_width_lt ?_
  rw [tokens_ofLinks_of_powerless noPowerMore, tokens_chain_of_powerless noPower, linksTokens,
    tokens, tokens, tokens, Token.width_append, Token.width_append, Token.width_operator,
    Token.width_append]
  omega

/-- A negative literal behind a minus sign needs parentheses of its own only where a group had
some. -/
theorem shrink_negate {operand next : Expr} {column : Nat} (rewrites : Rewrites operand next)
    (layered : ∀ part, (negate operand column).Contains part → part.Layered)
    (powerless : operand.Powerless) (shrink : Token.TextShrinks operand.tokens next.tokens) :
    Token.TextShrinks (negate operand column).tokens (negate next column).tokens := by
  rcases literal_or_group_of_layered layered powerless with
    ⟨value, start, rfl⟩ | ⟨inner, start, rfl⟩
  · cases rewrites
  · cases rewrites with
    | @ungroup value =>
      show Token.TextShrinks (.minus :: enclosed (Token.ofValue value)) (.minus ::
        if decide (value < 0) = true then enclosed (Token.ofValue value) else Token.ofValue value)
      split
      · exact .refl _
      · exact .cons _ (Token.shrink_enclosed _)
    | group _ => exact .cons _ shrink

/-- What takes the place of an operand changes the text there only. -/
theorem shrink_operand {head operand next : Expr} {op : Operator} {column : Nat}
    {before links : List (Link Expr)}
    (powerless : (chain head (before ++ ⟨op, operand, column⟩ :: links)).Powerless)
    (nextPowerless : next.Powerless) (shrink : Token.TextShrinks operand.tokens next.tokens) :
    (chain head (before ++ ⟨op, next, column⟩ :: links)).Powerless ∧
      Token.TextShrinks (chain head (before ++ ⟨op, operand, column⟩ :: links)).tokens
        (chain head (before ++ ⟨op, next, column⟩ :: links)).tokens := by
  obtain ⟨headPowerless, linksPowerless⟩ := powerless_chain_iff.mp powerless
  obtain ⟨beforePowerless, fromPowerless⟩ := List.forall_mem_append.mp linksPowerless
  obtain ⟨⟨noPower, -⟩, morePowerless⟩ := List.forall_mem_cons.mp fromPowerless
  have rewritten : ∀ link ∈ before ++ ⟨op, next, column⟩ :: links,
      link.op ≠ .pow ∧ link.operand.Powerless :=
    List.forall_mem_append.mpr ⟨beforePowerless,
      List.forall_mem_cons.mpr ⟨⟨noPower, nextPowerless⟩, morePowerless⟩⟩
  refine ⟨powerless_chain_iff.mpr ⟨headPowerless, rewritten⟩, ?_⟩
  rw [tokens_chain_of_powerless fun link member => (linksPowerless link member).1,
    tokens_chain_of_powerless fun link member => (rewritten link member).1]
  simp only [linksTokens_eq_flatMap, List.flatMap_append, List.flatMap_cons]
  exact .append (.refl _) (.append (.refl _) (.append (.cons _ shrink) (.refl _)))

/-- **A rewriting keeps the text or shortens it**, if there are no powers and the expression has its
layers. -/
theorem Rewrites.shrinks {e next : Expr} (rewrites : Rewrites e next)
    (layered : ∀ part, e.Contains part → part.Layered) (powerless : e.Powerless) :
    next.Powerless ∧ Token.TextShrinks e.tokens next.tokens := by
  induction rewrites with
  | @fold value result column inner negated =>
    refine ⟨powerless_literal _ _, ?_⟩
    have shrink := shrink_negation negated
    simpa only [tokens, isNegativeLiteral, decide_eq_true_eq] using shrink
  | contract applied =>
    obtain ⟨-, linksPowerless⟩ := powerless_chain_iff.mp powerless
    have morePowerless := (List.forall_mem_cons.mp linksPowerless).2
    exact ⟨powerless_ofLinks_iff.mpr ⟨powerless_literal _ _, morePowerless⟩,
      shrink_contract (fun link member => (linksPowerless link member).1) applied⟩
  | ungroup => exact ⟨powerless_literal _ _, Token.shrink_enclosed _⟩
  | group _ ih =>
    obtain ⟨nextPowerless, shrink⟩ := ih (fun part inside => layered part (.group inside))
      (powerless_group_iff.mp powerless)
    exact ⟨powerless_group_iff.mpr nextPowerless, .cons _ (shrink.append (.refl _))⟩
  | negate inside ih =>
    have operandPowerless := powerless_negate_iff.mp powerless
    obtain ⟨nextPowerless, shrink⟩ := ih (fun part inside => layered part (.negate inside))
      operandPowerless
    exact ⟨powerless_negate_iff.mpr nextPowerless,
      shrink_negate inside layered operandPowerless shrink⟩
  | @head head next links _ ih =>
    obtain ⟨headPowerless, linksPowerless⟩ := powerless_chain_iff.mp powerless
    obtain ⟨nextPowerless, shrink⟩ := ih (fun part inside => layered part (.head inside))
      headPowerless
    have noPower : ∀ link ∈ links, link.op ≠ .pow := fun link member =>
      (linksPowerless link member).1
    refine ⟨powerless_chain_iff.mpr ⟨nextPowerless, linksPowerless⟩, ?_⟩
    rw [tokens_chain_of_powerless noPower, tokens_chain_of_powerless noPower]
    exact shrink.append (.refl _)
  | @operand head operand next op column before links _ ih =>
    have member : ⟨op, operand, column⟩ ∈ before ++ ⟨op, operand, column⟩ :: links :=
      List.mem_append_cons_self
    obtain ⟨nextPowerless, shrink⟩ := ih (fun part inside => layered part (.operand member inside))
      ((powerless_chain_iff.mp powerless).2 _ member).2
    exact shrink_operand powerless nextPowerless shrink

end Expr

/-! ### Reductions -/

namespace Grammar

variable {room : Nat} {symbol : Symbol} {e next : Expr}

/-- **Rewritings keep the text of what fits or shorten it**, if there are no powers. -/
theorem Fits.shrinks (fits : Fits room symbol e) (powerless : e.Powerless)
    (rewrites : RewritesTo e next) : next.Powerless ∧ Token.TextShrinks e.tokens next.tokens := by
  induction rewrites with
  | refl => exact ⟨powerless, .refl _⟩
  | tail first last ih =>
    obtain ⟨middlePowerless, shrink⟩ := ih
    obtain ⟨lastPowerless, shrinkLast⟩ :=
      last.shrinks (fits.rewritesTo first).layered middlePowerless
    exact ⟨lastPowerless, Shrinks.trans shrink shrinkLast⟩

/-- **So does every step of a reduction.** -/
theorem Fits.isChain_shrink (fits : Fits room symbol e) (powerless : e.Powerless) :
    (e :: e.reduce.steps.map Prod.snd).IsChain fun before after =>
      Token.TextShrinks before.tokens after.tokens := by
  fun_induction Expr.reduce e with
  | case1 e reduction next stepped lighter run ih =>
    have rewrites : RewritesTo e next := Expr.StepsTo.rewritesTo ⟨reduction, stepped⟩
    obtain ⟨nextPowerless, shrink⟩ := fits.shrinks powerless rewrites
    rw [List.map_cons, List.isChain_cons_cons]
    exact ⟨shrink, ih (fits.rewritesTo rewrites) nextPowerless⟩
  | case2 e stepped => exact .singleton e
  | case3 e error state stepped => exact .singleton e

end Grammar

/-! ### Texts -/

section Spelling

variable {text : List Char} {tokens : List Token}

/-- **A text is that of the tokens it spells, or longer.** -/
theorem Spells.shrinks (spells : Spells text tokens) :
    Shrinks text (tokens.flatMap Token.chars) := by
  induction spells with
  | nil => exact .refl _
  | separator _ _ ih => exact .inr (Nat.lt_succ_of_le ih.length_le)
  | symbol found _ ih =>
    rw [List.flatMap_cons, Token.chars_of_ofSymbol? found]
    exact Shrinks.append (.refl _) ih
  | integer digit _ small _ ih =>
    rw [List.flatMap_cons, Token.chars, UInt64.toNat_ofNat_of_lt' small]
    exact (shrinks_toDigits digit).append ih

/-- The operators that a text spells stand in it. -/
theorem Spells.symbol_mem (spells : Spells text tokens) {op : Operator}
    (member : .operator op ∈ tokens) : op.symbol ∈ text := by
  induction spells with
  | nil => cases member
  | separator _ _ ih => exact List.mem_cons_of_mem _ (ih member)
  | @symbol c token text tokens found _ ih =>
    rcases List.mem_cons.mp member with rfl | later
    · have written : [op.symbol] = [c] := Token.chars_of_ofSymbol? found
      rw [(List.cons.inj written).1]
      exact List.mem_cons_self
    · exact List.mem_cons_of_mem _ (ih later)
  | integer _ _ _ _ ih =>
    rcases List.mem_cons.mp member with same | later
    · cases same
    · exact List.mem_append_right _ (ih later)

theorem isBlank_of_mem_chars {token : Token} {c : Char} (member : c ∈ token.chars) :
    isBlank c = false := by
  cases token with
  | integer magnitude =>
    exact isBlank_of_isDigit (Token.isDigit_of_mem_toDigits member)
  | operator op =>
    have found : Token.ofSymbol? op.symbol = some (.operator op) :=
      Token.ofSymbol?_eq_some_iff.mpr (.inl ⟨op, rfl, rfl⟩)
    rw [List.mem_singleton.mp member]
    exact isBlank_of_ofSymbol? found
  | leftParen =>
    rw [List.mem_singleton.mp member]
    rfl
  | rightParen =>
    rw [List.mem_singleton.mp member]
    rfl
  | blank => cases member

/-- The text of tokens has no blanks. -/
theorem compact_joined (tokens : List Token) :
    compact (Token.joined tokens) = Token.joined tokens := by
  rw [compact, Token.joined, String.toList_ofList, List.filter_eq_self.mpr]
  intro c member
  obtain ⟨token, -, inToken⟩ := List.mem_flatMap.mp member
  rw [isBlank_of_mem_chars inToken]
  rfl

/-- Without powers nothing is enclosed as their base. -/
theorem encloseLeastBases_of_powerless (starts : Bool) (noPower : Token.operator .pow ∉ tokens) :
    encloseLeastBases starts tokens = tokens := by
  fun_induction encloseLeastBases starts tokens with
  | case1 magnitude rest => simp at noPower
  | case2 _ rest ih => rw [ih (List.not_mem_of_not_mem_cons noPower)]
  | case3 _ token rest _ _ ih => rw [ih (List.not_mem_of_not_mem_cons noPower)]
  | case4 _ => rfl

end Spelling

/-- An expression is written as the tokens of its compact text, if there are no powers. -/
theorem shrinks_compact_of_parse {source : String} {e : Expr} (parsed : parse source = .ok e)
    (noPower : '^' ∉ source.toList) :
    e.Powerless ∧ Shrinks (compact source).toList (e.tokens.flatMap Token.chars) := by
  obtain ⟨lexemes, read, ranParse⟩ := bind_eq_ok_iff.mp parsed
  obtain ⟨⟨derivation⟩, -⟩ := derivation_of_parseLexemes ranParse
  have spells : Spells source.toList (tokensOf lexemes) := spells_of_scan read
  have powerless : Token.operator .pow ∉ tokensOf lexemes := fun member =>
    noPower (spells.symbol_mem member)
  have written : e.tokens = tokensOf lexemes := by
    have whole := derivation.enclose_tokens true [] (fun _ => rfl) fun _ _ _ => nofun
    rw [List.append_nil, encloseLeastBases_of_powerless true powerless] at whole
    simpa only [List.append_nil, encloseLeastBases] using whole.symm
  rw [Expr.Powerless, written, compact, String.toList_ofList]
  refine ⟨powerless, ?_⟩
  exact (spells.compact (separated_of_parse parsed read)).shrinks

/-! ### Traces -/

/-- Of related entries those that change are related and different. -/
theorem isChain_changes {related : String → String → Prop} {last : String} {entries : List String}
    (chain : (last :: entries).IsChain related) :
    (last :: changes last entries).IsChain fun before after =>
      related before after ∧ after ≠ before := by
  induction entries generalizing last with
  | nil => exact .singleton last
  | cons entry entries ih =>
    obtain ⟨first, rest⟩ := List.isChain_cons_cons.mp chain
    rw [changes]
    split
    · rename_i same
      exact ih (same ▸ rest)
    · rename_i changed
      exact List.isChain_cons_cons.mpr ⟨⟨first, changed⟩, ih rest⟩

/-- The texts of a reduction without powers do not grow. The first text is that of the expression,
or has zeros in front of its numbers. -/
theorem isChain_texts {source : String} {e : Expr} (parsed : parse source = .ok e)
    (noPower : '^' ∉ source.toList) :
    (e.reduce.texts .compact (compact source)).IsChain fun before after =>
      Shrinks before.toList after.toList := by
  obtain ⟨powerless, shrinksFirst⟩ := shrinks_compact_of_parse parsed noPower
  have fits := fits_of_reaches parsed .refl (Nat.le_refl _)
  have written : ∀ state : Expr,
      (compact state.text).toList = state.tokens.flatMap Token.chars := fun state => by
    rw [Expr.text, compact_joined, Token.joined, String.toList_ofList]
  have states : ((e :: e.reduce.steps.map Prod.snd).map fun state => compact state.text).IsChain
      fun before after => Shrinks before.toList after.toList := by
    rw [List.isChain_map]
    simp only [written]
    exact fits.isChain_shrink powerless
  rw [List.map_cons, List.map_map] at states
  refine states.imp_head fun shrinks => ?_
  rw [written] at shrinks
  exact shrinksFirst.trans shrinks

/-- **Without powers a trace shrinks.** In the compact trace of a text without the operator of
powers every entry is shorter than the one before it. -/
theorem trace_shrinks {source : String} {evaluation : Evaluation}
    (noPower : '^' ∉ source.toList)
    (evaluated : evaluateWith ⟨true, .compact⟩ source = .ok evaluation) :
    evaluation.trace.IsChain fun before after => after.length < before.length := by
  cases parsed : parse source with
  | error cause => cases (evaluateWith_of_refused parsed _).symm.trans evaluated
  | ok e =>
    obtain ⟨value, -, rfl⟩ := (evaluateWith_verbose_eq_ok_iff parsed .compact _).mp evaluated
    refine (isChain_changes (isChain_texts parsed noPower)).imp fun before after related => ?_
    obtain ⟨same | shorter, changed⟩ := related
    · exact absurd (String.toList_inj.mp same) changed
    · rwa [String.length_toList, String.length_toList] at shorter

/-- The trace of `-(-007)*(1-2)` loses its zeros and the product; folding the sign of the group
leaves the text as it is. -/
theorem trace_shrinks_of_zeros :
    ∃ evaluation, evaluateWith ⟨true, .compact⟩ "-(-007)*(1-2)" = .ok evaluation ∧
      evaluation.trace = ["-(-007)*(1-2)", "-(-7)*(1-2)", "-(-7)*-1", "7*-1", "-7"] ∧
      evaluation.trace.IsChain fun before after => after.length < before.length := by
  have shown : (evaluateWith ⟨true, .compact⟩ "-(-007)*(1-2)").toOption.any (fun evaluation =>
      evaluation.trace = ["-(-007)*(1-2)", "-(-7)*(1-2)", "-(-7)*-1", "7*-1", "-7"]) = true := by
    decide +kernel
  cases ran : evaluateWith ⟨true, .compact⟩ "-(-007)*(1-2)" with
  | error error =>
    rw [ran] at shown
    cases shown
  | ok evaluation =>
    rw [ran] at shown
    exact ⟨evaluation, rfl, of_decide_eq_true shown, trace_shrinks (by decide) ran⟩

end Abacus

/-
**The shape of the states of a reduction.**

A state of a reduction is made up like the expression of a derivation, but it has literals anywhere,
also negative ones. `Grammar.Fits` says that an expression may stand where a nonterminal is due,
with room for some groups inside one another. Where the grammar allows no minus sign, a negative
literal stands only with room to spare: it has come out of a group.

* `Derivation.fits`: a derived expression fits, with as much room as its groups need;
* `Fits.rewrites`: a rewriting keeps what fits;
* `fits_of_reaches`: every state of the reduction of a text fits, with the room of the text.
-/

import Abacus.Proofs.Parsing
import Abacus.Proofs.Rewriting

namespace Abacus

open Abacus.Expr (Rewrites RewritesTo Reaches)

namespace Grammar

/-- Whether a nonterminal allows no minus sign at its start. -/
def Symbol.isUnsigned : Symbol → Bool
  | .atom => true
  | .chain .power .following => true
  | _ => false

theorem eq_of_isUnsigned {symbol : Symbol} (unsigned : symbol.isUnsigned = true) :
    symbol = .atom ∨ symbol = .chain .power .following := by
  unfold Symbol.isUnsigned at unsigned
  split at unsigned
  · exact .inl rfl
  · exact .inr rfl
  · cases unsigned

theorem Symbol.isUnsigned_head (tier : Tier) (position : Position) :
    (Symbol.head tier position).isUnsigned = (Symbol.chain tier position).isUnsigned := by
  cases tier <;> cases position <;> rfl

theorem Symbol.isUnsigned_operand (tier : Tier) : (Symbol.operand tier).isUnsigned = false := by
  cases tier <;> rfl

/-- The expression may stand where the nonterminal is due. -/
inductive Fits : Nat → Symbol → Expr → Prop
  | literal {room : Nat} {symbol : Symbol} (value : Int64) (column : Nat)
      (fromGroup : symbol.isUnsigned → value < 0 → 0 < room) :
      Fits room symbol (.literal value column)
  | group {room : Nat} {inner : Expr} (column : Nat) :
      Fits room .expression inner → Fits (room + 1) .atom (.group inner column)
  | unsigned {room : Nat} {e : Expr} : Fits room .atom e → Fits room .signed e
  | signed {room : Nat} {e : Expr} (column : Nat) :
      Fits room .atom e → Fits room .signed (.negate e column)
  | base {room : Nat} {e : Expr} :
      Fits room (.chain .power .leading) e → Fits room (.factor .leading) e
  | plain {room : Nat} {e : Expr} :
      Fits room (.chain .power .following) e → Fits room (.factor .following) e
  | negated {room : Nat} {e : Expr} (column : Nat) :
      Fits room (.chain .power .following) e → Fits room (.factor .following) (.negate e column)
  | chain {room : Nat} {tier : Tier} {position : Position} {head : Expr}
      {links : List (Link Expr)} :
      Fits room (.head tier position) head → (∀ link ∈ links, link.op.tier = tier) →
        (∀ link ∈ links, Fits room (.operand tier) link.operand) →
          Fits room (.chain tier position) (.ofLinks head links)

theorem Fits.alone {room : Nat} {tier : Tier} {position : Position} {e : Expr}
    (operand : Fits room (.head tier position) e) : Fits room (.chain tier position) e := by
  have whole : Fits room (.chain tier position) (.ofLinks e []) :=
    .chain operand (List.forall_mem_nil _) (List.forall_mem_nil _)
  exact whole

/-! ### Derived expressions -/

theorem not_neg_ofNat {magnitude : UInt64} (small : magnitude.toNat < leastMagnitude) :
    ¬ (Int64.ofNat magnitude.toNat < 0) := by
  rw [Int64.lt_iff_toInt_lt, Int64.toInt_ofNat_of_lt small, Int64.toInt_zero]
  exact Int.not_lt.mpr (Int.natCast_nonneg _)

mutual

/-- **A derived expression fits**, with as much room as its groups need. -/
theorem Derivation.fits {symbol : Symbol} {lexemes : List Lexeme} {e : Expr} {room : Nat} :
    Derivation symbol lexemes e → Token.nesting (tokensOf lexemes) ≤ room → Fits room symbol e
  | .integer magnitude column small, _ =>
    .literal _ column fun _ negative => absurd negative (not_neg_ofNat small)
  | .group opening closing inside, shallow => by
    rw [inside.nesting_group] at shallow
    obtain ⟨less, rfl⟩ := Nat.exists_eq_add_of_le' (Nat.le_trans (Nat.le_add_left 1 _) shallow)
    exact .group opening (inside.fits (Nat.le_of_succ_le_succ shallow))
  | .unsigned operand, shallow => .unsigned (operand.fits shallow)
  | .signed column operand, shallow => .signed column (operand.fits shallow)
  | .leastSigned _ column _ _, _ => .literal _ column nofun
  | .base power, shallow => .base (power.fits shallow)
  | .plain power, shallow => .plain (power.fits shallow)
  | .negated column power, shallow => .negated column (power.fits shallow)
  | .leastFactor _ column _ _, _ => .literal _ column nofun
  | .alone operand, shallow => (operand.fits shallow).alone
  | .chain first next, shallow => by
    rw [first.nesting_append] at shallow
    obtain ⟨shallowFirst, shallowNext⟩ := Nat.max_le.mp shallow
    exact .chain (first.fits shallowFirst)
      (fun link member => (next.fits shallowNext link member).1)
      fun link member => (next.fits shallowNext link member).2

theorem LinksDerivation.fits {tier : Tier} {lexemes : List Lexeme} {links : List (Link Expr)}
    {room : Nat} :
    LinksDerivation tier lexemes links → Token.nesting (tokensOf lexemes) ≤ room →
      ∀ link ∈ links, link.op.tier = tier ∧ Fits room (.operand tier) link.operand
  | .nil, _ => nofun
  | .cons op column ofTier operand next, shallow => by
    rw [nesting_operator, operand.nesting_append] at shallow
    obtain ⟨shallowOperand, shallowNext⟩ := Nat.max_le.mp shallow
    intro link member
    rcases List.mem_cons.mp member with rfl | later
    · exact ⟨ofTier, operand.fits shallowOperand⟩
    · exact next.fits shallowNext link later

end

/-! ### Rewritten expressions -/

/-- A literal that is the head of a power behind a sign is negative only if there is room. -/
theorem Fits.literal_head {room : Nat} {tier : Tier} {position : Position} {value : Int64}
    {column : Nat} (fits : Fits room (.head tier position) (.literal value column))
    (unsigned : (Symbol.head tier position).isUnsigned) (negative : value < 0) : 0 < room := by
  cases tier with
  | power =>
    cases position with
    | leading => cases unsigned
    | following =>
      cases fits with
      | literal _ _ fromGroup => exact fromGroup unsigned negative
  | product => cases unsigned
  | sum => cases position <;> cases unsigned

theorem op_eq_pow_of_isUnsigned_head {tier : Tier} {position : Position} {op : Operator}
    (unsigned : (Symbol.head tier position).isUnsigned) (ofTier : op.tier = tier) : op = .pow := by
  cases tier with
  | power => cases op <;> first | rfl | cases ofTier
  | product => cases unsigned
  | sum => cases position <;> cases unsigned

/-- **A rewriting keeps what fits.** The value of an operation is a new head. Behind a sign it is
negative only if the old head was, which then had come out of a group. -/
theorem Fits.rewrites {room : Nat} {symbol : Symbol} {e next : Expr} (fits : Fits room symbol e)
    (rewrites : Rewrites e next) : Fits room symbol next := by
  induction fits generalizing next with
  | literal value column fromGroup => cases rewrites
  | @group room inner column _ ih =>
    cases rewrites with
    | ungroup => exact .literal _ _ fun _ _ => Nat.succ_pos _
    | group inside => exact .group column (ih inside)
  | unsigned _ ih => exact .unsigned (ih rewrites)
  | signed column _ ih =>
    cases rewrites with
    | fold negated => exact .literal _ _ nofun
    | negate inside => exact .signed column (ih inside)
  | base _ ih => exact .base (ih rewrites)
  | plain _ ih => exact .plain (ih rewrites)
  | negated column _ ih =>
    cases rewrites with
    | fold negated => exact .literal _ _ nofun
    | negate inside => exact .negated column (ih inside)
  | @chain room tier position head links headFits ofTier operandsFit ihHead ihOperands =>
    cases links with
    | nil => exact (ihHead rewrites).alone
    | cons link links =>
      rcases Rewrites.chain_cases rewrites with
        ⟨left, start, op, right, inner, column, more, value, rfl, same, applied, rfl⟩ |
        ⟨head', inside, rfl⟩ | ⟨before, op, operand, column, more, operand', inside, same, rfl⟩
      · obtain ⟨rfl, rfl⟩ := List.cons.inj same
        refine .chain (.literal _ _ fun unsigned negative => ?_)
          (fun link member => ofTier link (List.mem_cons_of_mem _ member))
          fun link member => operandsFit link (List.mem_cons_of_mem _ member)
        have isPower : op = .pow :=
          op_eq_pow_of_isUnsigned_head unsigned (ofTier _ List.mem_cons_self)
        rw [isPower] at applied
        exact headFits.literal_head unsigned (neg_of_power_eq_ok applied negative)
      · have rewritten : Fits room (.chain tier position) (.ofLinks head' (link :: links)) :=
          .chain (ihHead inside) ofTier operandsFit
        exact rewritten
      · rw [same] at ofTier operandsFit ihOperands
        obtain ⟨ofTierBefore, ofTierFrom⟩ := List.forall_mem_append.mp ofTier
        obtain ⟨ofTierOp, ofTierMore⟩ := List.forall_mem_cons.mp ofTierFrom
        obtain ⟨fitsBefore, fitsFrom⟩ := List.forall_mem_append.mp operandsFit
        have fitsMore := (List.forall_mem_cons.mp fitsFrom).2
        have operandFits := ihOperands ⟨op, operand, column⟩ (List.mem_append_cons_self ..) inside
        rw [← Expr.ofLinks_append_cons]
        refine .chain headFits (List.forall_mem_append.mpr ⟨ofTierBefore, ?_⟩)
          (List.forall_mem_append.mpr ⟨fitsBefore, ?_⟩)
        · exact List.forall_mem_cons.mpr ⟨ofTierOp, ofTierMore⟩
        · exact List.forall_mem_cons.mpr ⟨operandFits, fitsMore⟩

theorem Fits.rewritesTo {room : Nat} {symbol : Symbol} {e next : Expr} (fits : Fits room symbol e)
    (rewrites : RewritesTo e next) : Fits room symbol next := by
  induction rewrites with
  | refl => exact fits
  | tail _ last ih => exact ih.rewrites last

end Grammar

open Grammar

/-- A text that is read as an expression opens no more groups at once than allowed. -/
theorem nesting_le_of_parse {source : String} {e : Expr} (parsed : parse source = .ok e) :
    nesting source ≤ maxNesting := by
  obtain ⟨lexemes, read, parsed⟩ := bind_eq_ok_iff.mp parsed
  rw [nesting_eq_of_tokenize read]
  exact (derivation_of_parseLexemes parsed).2

/-- **Every state of the reduction of a text fits**, with as much room as the groups of the text
need. -/
theorem fits_of_reaches {source : String} {e state : Expr} {room : Nat}
    (parsed : parse source = .ok e) (reaches : Reaches e state) (shallow : nesting source ≤ room) :
    Fits room .expression state := by
  obtain ⟨lexemes, read, parsed⟩ := bind_eq_ok_iff.mp parsed
  obtain ⟨⟨derivation⟩, -⟩ := derivation_of_parseLexemes parsed
  rw [nesting_eq_of_tokenize read] at shallow
  exact (derivation.fits shallow).rewritesTo reaches.rewritesTo

end Abacus

/-
**The rules read exactly what the grammar derives.**

A rule `Recognizes` a nonterminal, with room for some groups inside one another, if it reads exactly
the derived tokens that are no deeper, up to a token that does not go on with them (`Ends`), and
reports a group too many in those that are deeper. Each rule needs this of the rules it is built
from:

* `recognizes_rule`: every rule recognizes its nonterminal if the rule of atoms does;
* `recognizes_expression`: the rule of expressions recognizes them.
-/

import Abacus.Proofs.Derivation

namespace Abacus.Grammar

/-! ### What may follow -/

/-- The number of tiers whose operators a nonterminal takes up when they follow. -/
def Symbol.reach : Symbol → Nat
  | .atom | .signed => 0
  | .factor _ => Tier.power.rank + 1
  | .chain tier _ => tier.rank + 1

theorem Symbol.reach_head (tier : Tier) (position : Position) :
    (Symbol.head tier position).reach = tier.rank := by
  cases tier <;> cases position <;> rfl

theorem Symbol.reach_operand (tier : Tier) : (Symbol.operand tier).reach = tier.rank := by
  cases tier <;> rfl

/-- The tokens do not start with an operator of one of the tightest `reach` tiers. -/
def Ends (reach : Nat) (rest : List Lexeme) : Prop :=
  ∀ op column more, rest = ⟨.operator op, column⟩ :: more → reach ≤ op.tier.rank

theorem Ends.mono {reach less : Nat} {rest : List Lexeme} (ends : Ends reach rest)
    (le : less ≤ reach) : Ends less rest :=
  fun op column more same => Nat.le_trans le (ends op column more same)

theorem ends_nil (reach : Nat) : Ends reach [] := nofun

theorem ends_rightParen (reach column : Nat) (rest : List Lexeme) :
    Ends reach (⟨.rightParen, column⟩ :: rest) := nofun

theorem ends_zero (rest : List Lexeme) : Ends 0 rest := fun _ _ _ _ => Nat.zero_le _

/-- Links go on with an operator of their tier. -/
theorem LinksDerivation.ends {tier : Tier} {lexemes rest : List Lexeme} {links : List (Link Expr)}
    (derivation : LinksDerivation tier lexemes links) (ends : Ends (tier.rank + 1) rest) :
    Ends tier.rank (lexemes ++ rest) := by
  cases derivation with
  | nil => exact ends.mono (Nat.le_succ _)
  | cons op column ofTier operand next =>
    intro op' column' more same
    cases same
    exact Nat.le_of_eq (congrArg Tier.rank ofTier.symm)

/-! ### Where a minus sign may stand -/

/-- The tokens start with neither a minus sign nor the magnitude of the least value. -/
def Unsigned (lexemes : List Lexeme) : Prop :=
  ∃ lexeme more, lexemes = lexeme :: more ∧ lexeme.token ≠ .minus ∧
    ∀ magnitude, lexeme.token = .integer magnitude → magnitude.toNat ≠ leastMagnitude

theorem Unsigned.append {lexemes : List Lexeme} (unsigned : Unsigned lexemes)
    (rest : List Lexeme) : Unsigned (lexemes ++ rest) := by
  obtain ⟨lexeme, more, rfl, notMinus, notLeast⟩ := unsigned
  exact ⟨lexeme, more ++ rest, rfl, notMinus, notLeast⟩

theorem Unsigned.leastMagnitude?_eq_none {lexemes : List Lexeme} (unsigned : Unsigned lexemes) :
    leastMagnitude? lexemes = none := by
  obtain ⟨⟨token, column⟩, more, rfl, -, notLeast⟩ := unsigned
  unfold leastMagnitude?
  split
  · rename_i magnitude column' rest same
    cases same
    exact if_neg (notLeast magnitude rfl)
  · rfl

theorem Derivation.unsigned_atom {lexemes : List Lexeme} {e : Expr}
    (derivation : Derivation .atom lexemes e) : Unsigned lexemes := by
  cases derivation with
  | integer magnitude column small =>
    refine ⟨_, _, rfl, nofun, ?_⟩
    intro magnitude' same
    cases same
    exact Nat.ne_of_lt small
  | group opening closing inside => exact ⟨_, _, rfl, nofun, nofun⟩

theorem Derivation.unsigned_power {lexemes : List Lexeme} {e : Expr}
    (derivation : Derivation (.chain .power .following) lexemes e) : Unsigned lexemes := by
  cases derivation with
  | alone operand => exact unsigned_atom operand
  | chain first next => exact (unsigned_atom first).append _

theorem leastMagnitude?_eq_some_iff {lexemes rest : List Lexeme} {column : Nat} :
    leastMagnitude? lexemes = some (column, rest) ↔
      ∃ magnitude : UInt64, magnitude.toNat = leastMagnitude ∧
        lexemes = ⟨.integer magnitude, column⟩ :: rest := by
  unfold leastMagnitude?
  constructor
  · intro found
    split at found
    · rename_i magnitude column' rest'
      split at found
      · rename_i least
        cases found
        exact ⟨magnitude, least, rfl⟩
      · cases found
    · cases found
  · rintro ⟨magnitude, least, rfl⟩
    exact if_pos least

/-! ### Recognition -/

/-- The rule reads exactly what the grammar derives for the nonterminal, with room for a number of
groups inside one another. -/
structure Recognizes (rule : Rule) (room : Nat) (symbol : Symbol) : Prop where
  sound {input : List Lexeme} {e : Expr} {rest : List Lexeme} :
    rule.run input = .ok (e, rest) →
      ∃ lexemes, input = lexemes ++ rest ∧ Derives symbol lexemes e ∧
        Token.nesting (tokensOf lexemes) ≤ room ∧ Ends symbol.reach rest
  complete {lexemes : List Lexeme} {e : Expr} {rest : List Lexeme} :
    Derivation symbol lexemes e → Ends symbol.reach rest →
      Token.nesting (tokensOf lexemes) ≤ room → rule.run (lexemes ++ rest) = .ok (e, rest)
  refuses {lexemes : List Lexeme} {e : Expr} {rest : List Lexeme} :
    Derivation symbol lexemes e → Ends symbol.reach rest →
      room < Token.nesting (tokensOf lexemes) →
        ∃ column, rule.run (lexemes ++ rest) = .error (.nestingTooDeep column)

/-- Atoms are recognized with room for one more group than there is inside of a group. -/
theorem recognizes_atom {endColumn room : Nat}
    (inside : ∀ less, room = less + 1 → Recognizes (expression endColumn less) less .expression) :
    Recognizes (atom endColumn (inside? endColumn room)) room .atom where
  sound {input e rest} done := by
    change atomRun endColumn (inside? endColumn room) input = _ at done
    unfold atomRun at done
    split at done
    · cases done
    · rename_i magnitude column rest'
      split at done
      · rename_i small
        cases done
        exact ⟨[_], rfl, ⟨.integer magnitude column small⟩, Nat.zero_le _, ends_zero _⟩
      · cases done
    · rename_i column rest'
      cases room with
      | zero => cases done
      | succ less =>
        simp only [inside?] at done
        split at done
        · cases done
        · cases done
        · rename_i inner closing rest'' ran
          cases done
          obtain ⟨lexemes, rfl, ⟨derivation⟩, shallow, -⟩ := (inside less rfl).sound ran
          refine ⟨⟨.leftParen, column⟩ :: (lexemes ++ [⟨.rightParen, closing⟩]), ?_,
            ⟨.group column closing derivation⟩, ?_, ends_zero _⟩
          · simp only [List.cons_append, List.append_assoc, List.nil_append]
          · rw [derivation.nesting_group]
            exact Nat.succ_le_succ shallow
        · cases done
    · cases done
  complete {lexemes e rest} derivation ends shallow := by
    change atomRun endColumn (inside? endColumn room) (lexemes ++ rest) = _
    cases derivation with
    | integer magnitude column small => exact if_pos small
    | group opening closing derivation =>
      rename_i lexemes inner
      rw [derivation.nesting_group] at shallow
      cases room with
      | zero => cases shallow
      | succ less =>
        have ran := (inside less rfl).complete derivation (ends_rightParen _ closing rest)
          (Nat.le_of_succ_le_succ shallow)
        simp only [List.cons_append, List.append_assoc, List.nil_append, atomRun, inside?, ran]
  refuses {lexemes e rest} derivation ends deep := by
    change ∃ column, atomRun endColumn (inside? endColumn room) (lexemes ++ rest) = _
    cases derivation with
    | integer magnitude column small => cases deep
    | group opening closing derivation =>
      rename_i lexemes inner
      rw [derivation.nesting_group] at deep
      cases room with
      | zero => exact ⟨opening, rfl⟩
      | succ less =>
        obtain ⟨column, ran⟩ := (inside less rfl).refuses derivation
          (ends_rightParen _ closing rest) (Nat.lt_of_succ_lt_succ deep)
        refine ⟨column, ?_⟩
        simp only [List.cons_append, List.append_assoc, List.nil_append, atomRun, inside?, ran]

/-! ### Signs -/

variable {room : Nat}

theorem signed_run_of_unsigned (atom : Rule) {input : List Lexeme} (unsigned : Unsigned input) :
    (signed atom).run input = atom.run input := by
  obtain ⟨⟨token, column⟩, more, rfl, notMinus, -⟩ := unsigned
  unfold signed
  dsimp only
  split
  · rename_i same
    cases same
    exact absurd rfl notMinus
  · rfl

theorem recognizes_signed {atom : Rule} (atoms : Recognizes atom room .atom) :
    Recognizes (signed atom) room .signed where
  sound {input e rest} done := by
    unfold signed at done
    dsimp only at done
    split at done
    · rename_i column input
      split at done
      · rename_i magnitudeColumn rest' found
        obtain ⟨magnitude, least, rfl⟩ := leastMagnitude?_eq_some_iff.mp found
        cases done
        exact ⟨[_, _], rfl, ⟨.leastSigned magnitude column magnitudeColumn least⟩, Nat.zero_le _,
          ends_zero _⟩
      · split at done
        · cases done
        · rename_i operand rest' ran
          cases done
          obtain ⟨lexemes, rfl, ⟨derivation⟩, shallow, ends⟩ := atoms.sound ran
          exact ⟨⟨.minus, column⟩ :: lexemes, rfl, ⟨.signed column derivation⟩, shallow, ends⟩
    · obtain ⟨lexemes, rfl, ⟨derivation⟩, shallow, ends⟩ := atoms.sound done
      exact ⟨lexemes, rfl, ⟨.unsigned derivation⟩, shallow, ends⟩
  complete {lexemes e rest} derivation ends shallow := by
    cases derivation with
    | unsigned operand =>
      rw [signed_run_of_unsigned atom (operand.unsigned_atom.append rest)]
      exact atoms.complete operand ends shallow
    | signed column operand =>
      have ran := atoms.complete operand ends shallow
      simp only [List.cons_append, signed,
        (operand.unsigned_atom.append rest).leastMagnitude?_eq_none, ran]
    | leastSigned magnitude column magnitudeColumn least =>
      simp only [List.cons_append, List.nil_append, signed,
        leastMagnitude?_eq_some_iff.mpr ⟨magnitude, least, rfl⟩]
  refuses {lexemes e rest} derivation ends deep := by
    cases derivation with
    | unsigned operand =>
      rw [signed_run_of_unsigned atom (operand.unsigned_atom.append rest)]
      exact atoms.refuses operand ends deep
    | signed column operand =>
      obtain ⟨tooDeep, ran⟩ := atoms.refuses operand ends deep
      refine ⟨tooDeep, ?_⟩
      simp only [List.cons_append, signed,
        (operand.unsigned_atom.append rest).leastMagnitude?_eq_none, ran]
    | leastSigned magnitude column magnitudeColumn least => cases deep

/-! ### Chains -/

theorem links_cons_of_error {tier : Tier} {rule : Rule} {op : Operator} {column : Nat}
    {input : List Lexeme} {error : ParseError} (ofTier : op.tier = tier)
    (ran : rule.run input = .error error) :
    links tier rule (⟨.operator op, column⟩ :: input) = .error error := by
  rw [links]
  dsimp only [Token.operator?]
  rw [if_pos ofTier]
  split
  · rename_i other failed
    cases ran.symm.trans failed
    rfl
  · rename_i right rest done
    cases ran.symm.trans done

theorem links_cons_of_ok {tier : Tier} {rule : Rule} {op : Operator} {column : Nat}
    {input rest : List Lexeme} {right : Expr} (ofTier : op.tier = tier)
    (ran : rule.run input = .ok (right, rest)) :
    links tier rule (⟨.operator op, column⟩ :: input) =
      match links tier rule rest with
      | .error error => .error error
      | .ok (more, rest) => .ok (⟨op, right, column⟩ :: more, rest) := by
  rw [links]
  dsimp only [Token.operator?]
  rw [if_pos ofTier]
  split
  · rename_i error failed
    cases ran.symm.trans failed
  · rename_i other behind done
    cases ran.symm.trans done
    rfl

theorem links_of_ends {tier : Tier} (rule : Rule) {rest : List Lexeme}
    (ends : Ends (tier.rank + 1) rest) : links tier rule rest = .ok ([], rest) := by
  rcases rest with _ | ⟨⟨token, column⟩, rest⟩
  · rw [links]
  · rw [links]
    split
    · rename_i op found
      obtain rfl := Token.operator?_eq_some_iff.mp found
      refine if_neg ?_
      rintro rfl
      exact absurd (ends op column rest rfl) (Nat.not_succ_le_self _)
    · rfl

section Links

variable {tier : Tier} {rule : Rule} (operands : Recognizes rule room (.operand tier))

include operands

theorem links_sound {input rest : List Lexeme} {more : List (Link Expr)}
    (done : links tier rule input = .ok (more, rest)) (ends : Ends tier.rank input) :
    ∃ lexemes, input = lexemes ++ rest ∧ Nonempty (LinksDerivation tier lexemes more) ∧
      Token.nesting (tokensOf lexemes) ≤ room ∧ Ends (tier.rank + 1) rest := by
  fun_induction links tier rule input generalizing more rest with
  | case1 =>
    cases done
    exact ⟨[], rfl, ⟨.nil⟩, Nat.zero_le _, ends_nil _⟩
  | case2 => cases done
  | case3 => cases done
  | case4 token column input op found ofTier right middle ran shorter more' rest' read ih =>
    cases done
    obtain rfl := Token.operator?_eq_some_iff.mp found
    obtain ⟨lexemes, rfl, ⟨derivation⟩, shallow, endsMiddle⟩ := operands.sound ran
    rw [Symbol.reach_operand] at endsMiddle
    obtain ⟨later, rfl, ⟨next⟩, shallowLater, endsRest⟩ := ih read endsMiddle
    refine ⟨⟨.operator op, column⟩ :: (lexemes ++ later), ?_,
      ⟨.cons op column ofTier derivation next⟩, ?_, endsRest⟩
    · rw [List.cons_append, List.append_assoc]
    · rw [nesting_operator, derivation.nesting_append]
      exact Nat.max_le.mpr ⟨shallow, shallowLater⟩
  | case5 token column input op found other =>
    cases done
    obtain rfl := Token.operator?_eq_some_iff.mp found
    refine ⟨[], rfl, ⟨.nil⟩, Nat.zero_le _, ?_⟩
    intro op' column' more same
    have le := ends op' column' more same
    cases same
    have differ : op.tier.rank ≠ tier.rank := fun equal => other (Tier.rank_injective equal)
    omega
  | case6 token column input none =>
    cases done
    refine ⟨[], rfl, ⟨.nil⟩, Nat.zero_le _, ?_⟩
    intro op _ _ same
    cases same
    cases none

theorem links_complete {lexemes rest : List Lexeme} {more : List (Link Expr)} :
    LinksDerivation tier lexemes more → Ends (tier.rank + 1) rest →
      Token.nesting (tokensOf lexemes) ≤ room → links tier rule (lexemes ++ rest) = .ok (more, rest)
  | .nil, ends, _ => links_of_ends rule ends
  | @LinksDerivation.cons _ lexemes later e later' op column ofTier operand next, ends, shallow => by
    rw [nesting_operator, operand.nesting_append] at shallow
    obtain ⟨shallowOperand, shallowLater⟩ := Nat.max_le.mp shallow
    have ran := operands.complete operand
      (by rw [Symbol.reach_operand]; exact next.ends ends) shallowOperand
    have read := links_complete next ends shallowLater
    rw [List.cons_append, List.append_assoc, links_cons_of_ok ofTier ran, read]

theorem links_refuses {lexemes rest : List Lexeme} {more : List (Link Expr)} :
    LinksDerivation tier lexemes more → Ends (tier.rank + 1) rest →
      room < Token.nesting (tokensOf lexemes) →
        ∃ column, links tier rule (lexemes ++ rest) = .error (.nestingTooDeep column)
  | .nil, _, deep => nomatch deep
  | @LinksDerivation.cons _ lexemes later e later' op column ofTier operand next, ends, deep => by
    rw [nesting_operator, operand.nesting_append] at deep
    have follows : Ends (Symbol.operand tier).reach (later ++ rest) := by
      rw [Symbol.reach_operand]
      exact next.ends ends
    rw [List.cons_append, List.append_assoc]
    by_cases shallow : Token.nesting (tokensOf lexemes) ≤ room
    · have ran := operands.complete operand follows shallow
      obtain ⟨tooDeep, read⟩ := links_refuses next ends (by omega)
      exact ⟨tooDeep, by rw [links_cons_of_ok ofTier ran, read]⟩
    · obtain ⟨tooDeep, ran⟩ := operands.refuses operand follows (Nat.lt_of_not_le shallow)
      exact ⟨tooDeep, links_cons_of_error ofTier ran⟩

end Links

theorem recognizes_chained {tier : Tier} {position : Position} {first next : Rule}
    (heads : Recognizes first room (.head tier position))
    (operands : Recognizes next room (.operand tier)) :
    Recognizes (chained tier first next) room (.chain tier position) where
  sound {input e rest} done := by
    unfold chained at done
    dsimp only at done
    split at done
    · cases done
    · rename_i head middle ran
      split at done
      · cases done
      · rename_i more rest' read
        cases done
        obtain ⟨lexemes, rfl, ⟨derivation⟩, shallow, endsMiddle⟩ := heads.sound ran
        rw [Symbol.reach_head] at endsMiddle
        obtain ⟨later, rfl, ⟨links⟩, shallowLater, endsRest⟩ := links_sound operands read endsMiddle
        refine ⟨lexemes ++ later, (List.append_assoc ..).symm, derives_ofLinks derivation links, ?_,
          endsRest⟩
        rw [derivation.nesting_append]
        exact Nat.max_le.mpr ⟨shallow, shallowLater⟩
  complete {lexemes e rest} derivation ends shallow := by
    obtain ⟨before, behind, head, links', rfl, rfl, ⟨first⟩, ⟨next⟩⟩ := derivation.exists_links
    rw [first.nesting_append] at shallow
    obtain ⟨shallowFirst, shallowNext⟩ := Nat.max_le.mp shallow
    have ran := heads.complete first (by rw [Symbol.reach_head]; exact next.ends ends) shallowFirst
    have read := links_complete operands next ends shallowNext
    simp only [List.append_assoc, chained, ran, read]
  refuses {lexemes e rest} derivation ends deep := by
    obtain ⟨before, behind, head, links', rfl, rfl, ⟨first⟩, ⟨next⟩⟩ := derivation.exists_links
    rw [first.nesting_append] at deep
    have follows : Ends (Symbol.head tier position).reach (behind ++ rest) := by
      rw [Symbol.reach_head]
      exact next.ends ends
    rw [List.append_assoc]
    unfold chained
    by_cases shallow : Token.nesting (tokensOf before) ≤ room
    · have ran := heads.complete first follows shallow
      obtain ⟨tooDeep, read⟩ := links_refuses operands next ends (by omega)
      exact ⟨tooDeep, by simp only [ran, read]⟩
    · obtain ⟨tooDeep, ran⟩ := heads.refuses first follows (Nat.lt_of_not_le shallow)
      exact ⟨tooDeep, by simp only [ran]⟩

/-! ### Factors -/

theorem Recognizes.base {rule : Rule} (powers : Recognizes rule room (.chain .power .leading)) :
    Recognizes rule room (.factor .leading) where
  sound done := by
    obtain ⟨lexemes, same, ⟨derivation⟩, rest⟩ := powers.sound done
    exact ⟨lexemes, same, ⟨.base derivation⟩, rest⟩
  complete derivation ends shallow := by
    cases derivation with
    | base power => exact powers.complete power ends shallow
  refuses derivation ends deep := by
    cases derivation with
    | base power => exact powers.refuses power ends deep

theorem powerFollows_eq_false {rest : List Lexeme} (ends : Ends (Tier.power.rank + 1) rest) :
    powerFollows rest = false := by
  unfold powerFollows
  split
  · rename_i op column more
    have le := ends op column more rfl
    cases op <;> first | rfl | exact absurd le (by decide)
  · rfl

theorem ends_of_powerFollows {rest : List Lexeme} (none : powerFollows rest = false) :
    Ends (Tier.power.rank + 1) rest := by
  intro op column more same
  rw [same] at none
  cases op with
  | pow => cases none
  | add => decide
  | sub => decide
  | mul => decide
  | div => decide
  | mod => decide

theorem negatedPower_run_of_unsigned (atom : Rule) {input : List Lexeme}
    (unsigned : Unsigned input) : (negatedPower atom).run input = (power atom atom).run input := by
  obtain ⟨⟨token, column⟩, more, rfl, notMinus, -⟩ := unsigned
  unfold negatedPower
  dsimp only
  split
  · rename_i same
    cases same
    exact absurd rfl notMinus
  · rfl

theorem recognizes_negatedPower {atom : Rule}
    (powers : Recognizes (power atom atom) room (.chain .power .following)) :
    Recognizes (negatedPower atom) room (.factor .following) where
  sound {input e rest} done := by
    unfold negatedPower at done
    dsimp only at done
    split at done
    · rename_i column input
      split at done
      · rename_i magnitudeColumn rest' found
        obtain ⟨magnitude, least, rfl⟩ := leastMagnitude?_eq_some_iff.mp found
        split at done
        · cases done
        · rename_i notPower
          cases done
          exact ⟨[_, _], rfl, ⟨.leastFactor magnitude column magnitudeColumn least⟩, Nat.zero_le _,
            ends_of_powerFollows (Bool.eq_false_iff.mpr notPower)⟩
      · split at done
        · cases done
        · rename_i operand rest' ran
          cases done
          obtain ⟨lexemes, rfl, ⟨derivation⟩, shallow, ends⟩ := powers.sound ran
          exact ⟨⟨.minus, column⟩ :: lexemes, rfl, ⟨.negated column derivation⟩, shallow, ends⟩
    · obtain ⟨lexemes, rfl, ⟨derivation⟩, shallow, ends⟩ := powers.sound done
      exact ⟨lexemes, rfl, ⟨.plain derivation⟩, shallow, ends⟩
  complete {lexemes e rest} derivation ends shallow := by
    cases derivation with
    | plain power =>
      rw [negatedPower_run_of_unsigned atom (power.unsigned_power.append rest)]
      exact powers.complete power ends shallow
    | negated column power =>
      have ran := powers.complete power ends shallow
      simp only [List.cons_append, negatedPower,
        (power.unsigned_power.append rest).leastMagnitude?_eq_none, ran]
    | leastFactor magnitude column magnitudeColumn least =>
      simp only [List.cons_append, List.nil_append, negatedPower,
        leastMagnitude?_eq_some_iff.mpr ⟨magnitude, least, rfl⟩, powerFollows_eq_false ends]
      rfl
  refuses {lexemes e rest} derivation ends deep := by
    cases derivation with
    | plain power =>
      rw [negatedPower_run_of_unsigned atom (power.unsigned_power.append rest)]
      exact powers.refuses power ends deep
    | negated column power =>
      obtain ⟨tooDeep, ran⟩ := powers.refuses power ends deep
      refine ⟨tooDeep, ?_⟩
      simp only [List.cons_append, negatedPower,
        (power.unsigned_power.append rest).leastMagnitude?_eq_none, ran]
    | leastFactor magnitude column magnitudeColumn least => cases deep

/-! ### Every nonterminal -/

/-- The rule for a nonterminal, given that for atoms. -/
def Symbol.rule (atom : Rule) : Symbol → Rule
  | .atom => atom
  | .signed => Grammar.signed atom
  | .factor position => Grammar.factor atom position
  | .chain .power .leading => power atom (Grammar.signed atom)
  | .chain .power .following => power atom atom
  | .chain .product position => product atom position
  | .chain .sum position => sum atom position

/-- **Every rule recognizes its nonterminal**, if the rule of atoms does. -/
theorem recognizes_rule {atom : Rule} (atoms : Recognizes atom room .atom) (symbol : Symbol) :
    Recognizes (symbol.rule atom) room symbol := by
  have signs := recognizes_signed atoms
  have signedPowers : Recognizes (power atom (signed atom)) room (.chain .power .leading) :=
    recognizes_chained signs signs
  have powers : Recognizes (power atom atom) room (.chain .power .following) :=
    recognizes_chained atoms signs
  have following := recognizes_negatedPower powers
  have factors : ∀ position, Recognizes (factor atom position) room (.factor position)
    | .leading => signedPowers.base
    | .following => following
  have products : ∀ position, Recognizes (product atom position) room (.chain .product position) :=
    fun position => recognizes_chained (factors position) following
  cases symbol with
  | atom => exact atoms
  | signed => exact signs
  | factor position => exact factors position
  | chain tier position =>
    cases tier with
    | power =>
      cases position with
      | leading => exact signedPowers
      | following => exact powers
    | product => exact products position
    | sum => exact recognizes_chained (products position) (products .following)

/-- **The rule of expressions recognizes expressions**, with any room. -/
theorem recognizes_expression (endColumn room : Nat) :
    Recognizes (expression endColumn room) room .expression := by
  induction room with
  | zero =>
    rw [expression_eq]
    refine recognizes_rule (recognizes_atom ?_) .expression
    intro less same
    exact absurd same.symm (Nat.succ_ne_zero less)
  | succ room ih =>
    rw [expression_eq]
    refine recognizes_rule (recognizes_atom ?_) .expression
    intro less same
    cases same
    exact ih

end Abacus.Grammar

/-
**Where the grammar refuses tokens.**

A rule that fails is stopped by a token: the tokens before it can go on as the rule requires
(`Grammar.Viable`), and the rule fails in the same way whatever comes behind that token. Only the
magnitude `2^63` behind a sign that negates a power is refused for what comes behind it, an operator
of powers; and a rule whose tokens end too early has read nothing but tokens that can go on.

* `Grammar.Refusal`: how a reader of tokens fails;
* `Grammar.Refusal.lift`: a reader that is built around another one fails where the other one does;
* `Grammar.locates_rule`: every rule fails in this way if the rule of atoms does;
* `refusal_of_parseLexemes`: so does the reading of a list of tokens as an expression.
-/

import Abacus.Proofs.Rendering

namespace Abacus

/-- The error is about the token, and says what is wrong with it. -/
inductive ParseError.About : ParseError → Lexeme → Prop
  | unexpected (lexeme : Lexeme) :
      About (.unexpectedToken lexeme.token.text lexeme.column) lexeme
  | inGroup (lexeme : Lexeme) :
      About (.unexpectedToken ("expected ')', found " ++ lexeme.token.text) lexeme.column) lexeme
  | trailing (lexeme : Lexeme) :
      About (.trailingTokens lexeme.token.text lexeme.column) lexeme
  | tooLarge (magnitude : UInt64) (column : Nat) (large : leastMagnitude ≤ magnitude.toNat) :
      About (.literalTooLarge column) ⟨.integer magnitude, column⟩
  | tooDeep (column : Nat) : About (.nestingTooDeep column) ⟨.leftParen, column⟩

namespace Grammar

/-- Some tokens behind these make them acceptable. -/
def Viable (accepts : List Lexeme → Prop) (lexemes : List Lexeme) : Prop :=
  ∃ more, accepts (lexemes ++ more)

theorem Viable.lift {accepts accepts' : List Lexeme → Prop} {lexemes : List Lexeme}
    (viable : Viable accepts lexemes) (before after : List Lexeme)
    (takes : ∀ lexemes, accepts lexemes → accepts' (before ++ lexemes ++ after)) :
    Viable accepts' (before ++ lexemes) := by
  obtain ⟨more, accepted⟩ := viable
  refine ⟨more ++ after, ?_⟩
  have whole := takes _ accepted
  simpa only [List.append_assoc] using whole

/-- **How a reader fails**: at a token that the tokens before it cannot have next, at the base of a
power that is negated, or at the end of tokens that could go on. -/
inductive Refusal {α : Type} (endColumn : Nat) (accepts negates : List Lexeme → Prop)
    (run : List Lexeme → Except ParseError α) : List Lexeme → ParseError → Prop
  | token (before : List Lexeme) {lexeme : Lexeme} {rest : List Lexeme} {error : ParseError}
      (about : error.About lexeme) (viable : Viable accepts before)
      (fails : ∀ rest, run (before ++ lexeme :: rest) = .error error) :
      Refusal endColumn accepts negates run (before ++ lexeme :: rest) error
  | base (before : List Lexeme) {magnitude : UInt64} {column opColumn : Nat} {rest : List Lexeme}
      (least : magnitude.toNat = leastMagnitude) (negated : negates before)
      (viable : Viable accepts before)
      (fails : ∀ opColumn rest, run (before ++
        ⟨.integer magnitude, column⟩ :: ⟨.operator .pow, opColumn⟩ :: rest) =
          .error (.literalTooLarge column)) :
      Refusal endColumn accepts negates run
        (before ++ ⟨.integer magnitude, column⟩ :: ⟨.operator .pow, opColumn⟩ :: rest)
        (.literalTooLarge column)
  | ended {input : List Lexeme} (viable : Viable accepts input) :
      Refusal endColumn accepts negates run input (.unexpectedEnd endColumn)
  | unclosed (before : List Lexeme) {lexemes : List Lexeme} {inner : Expr} {column : Nat}
      (inside : Derives .expression lexemes inner)
      (viable : Viable accepts (before ++ ⟨.leftParen, column⟩ :: lexemes)) :
      Refusal endColumn accepts negates run (before ++ ⟨.leftParen, column⟩ :: lexemes)
        (.unclosedGroup column)

theorem head?_append_cons {α : Type} (before : List α) (a : α) (rest rest' : List α) :
    (before ++ a :: rest).head? = (before ++ a :: rest').head? := by
  cases before <;> rfl

/-- **A reader built around another one fails where that one does**, if it reads some tokens first
and then leaves the input to the other, which may depend on the token that comes next. -/
theorem Refusal.lift {α β : Type} {endColumn : Nat} {accepts accepts' : List Lexeme → Prop}
    {negates negates' : List Lexeme → Prop} {run : List Lexeme → Except ParseError α}
    {run' : List Lexeme → Except ParseError β} {input : List Lexeme} {error : ParseError}
    (refusal : Refusal endColumn accepts negates run input error) (before after : List Lexeme)
    (fails : ∀ input' error, input'.head? = input.head? → run input' = .error error →
      run' (before ++ input') = .error error)
    (takes : ∀ lexemes, accepts lexemes → accepts' (before ++ lexemes ++ after))
    (signs : ∀ lexemes, negates lexemes → negates' (before ++ lexemes)) :
    Refusal endColumn accepts' negates' run' (before ++ input) error := by
  cases refusal with
  | token start about viable failsHere =>
    rw [← List.append_assoc]
    refine .token _ about (viable.lift before after takes) fun rest => ?_
    rw [List.append_assoc]
    exact fails _ _ (head?_append_cons ..) (failsHere rest)
  | base start least negated viable failsHere =>
    rw [← List.append_assoc]
    refine .base _ least (signs _ negated) (viable.lift before after takes) fun opColumn rest => ?_
    rw [List.append_assoc]
    exact fails _ _ (head?_append_cons ..) (failsHere opColumn rest)
  | ended viable => exact .ended (viable.lift before after takes)
  | unclosed start inside viable =>
    have whole := viable.lift before after takes
    rw [← List.append_assoc] at whole ⊢
    exact .unclosed _ inside whole

section Behind

variable {α β : Type} {endColumn : Nat} {accepts accepts' negates negates' : List Lexeme → Prop}
  {run : List Lexeme → Except ParseError α} {run' : List Lexeme → Except ParseError β}
  {input : List Lexeme} {error : ParseError}

/-- The same of a reader that accepts nothing behind what the other one accepts. -/
theorem Refusal.behind (refusal : Refusal endColumn accepts negates run input error)
    (before : List Lexeme)
    (fails : ∀ input' error, input'.head? = input.head? → run input' = .error error →
      run' (before ++ input') = .error error)
    (takes : ∀ lexemes, accepts lexemes → accepts' (before ++ lexemes))
    (signs : ∀ lexemes, negates lexemes → negates' (before ++ lexemes)) :
    Refusal endColumn accepts' negates' run' (before ++ input) error := by
  refine refusal.lift before [] fails (fun lexemes accepted => ?_) signs
  rw [List.append_nil]
  exact takes lexemes accepted

/-- The same of a reader that leaves the input to the other one at once. -/
theorem Refusal.imp (refusal : Refusal endColumn accepts negates run input error)
    (fails : ∀ input' error, input'.head? = input.head? → run input' = .error error →
      run' input' = .error error)
    (takes : ∀ lexemes, accepts lexemes → accepts' lexemes)
    (signs : ∀ lexemes, negates lexemes → negates' lexemes) :
    Refusal endColumn accepts' negates' run' input error :=
  refusal.behind [] fails takes signs

end Behind

/-! ### Tokens that go on -/

/-- The tokens are derived from the nonterminal and fit into the room. -/
def Derivable (symbol : Symbol) (room : Nat) (lexemes : List Lexeme) : Prop :=
  ∃ e, Derives symbol lexemes e ∧ Token.nesting (tokensOf lexemes) ≤ room

/-- The same of links. -/
def LinksDerivable (tier : Tier) (room : Nat) (lexemes : List Lexeme) : Prop :=
  ∃ links, Nonempty (LinksDerivation tier lexemes links) ∧
    Token.nesting (tokensOf lexemes) ≤ room

section Derivable

variable {symbol : Symbol} {tier : Tier} {room : Nat} {lexemes more : List Lexeme}

theorem Derivable.group (inside : Derivable .expression room lexemes) (opening closing : Nat) :
    Derivable .atom (room + 1) (⟨.leftParen, opening⟩ :: (lexemes ++ [⟨.rightParen, closing⟩])) := by
  obtain ⟨inner, ⟨derivation⟩, shallow⟩ := inside
  refine ⟨_, ⟨.group opening closing derivation⟩, ?_⟩
  rw [derivation.nesting_group]
  exact Nat.succ_le_succ shallow

/-- A rule that passes an expression on. -/
theorem Derivable.imp {symbol' : Symbol} (derivable : Derivable symbol room lexemes)
    (rule : ∀ {lexemes e}, Derivation symbol lexemes e → Derivation symbol' lexemes e) :
    Derivable symbol' room lexemes := by
  obtain ⟨e, ⟨derivation⟩, shallow⟩ := derivable
  exact ⟨e, ⟨rule derivation⟩, shallow⟩

/-- A rule that negates an expression. -/
theorem Derivable.negate {symbol' : Symbol} (derivable : Derivable symbol room lexemes)
    (rule : ∀ {lexemes e} (column : Nat), Derivation symbol lexemes e →
      Derivation symbol' (⟨.minus, column⟩ :: lexemes) (.negate e column)) (column : Nat) :
    Derivable symbol' room (⟨.minus, column⟩ :: lexemes) := by
  obtain ⟨e, ⟨derivation⟩, shallow⟩ := derivable
  exact ⟨_, ⟨rule column derivation⟩, shallow⟩

theorem linksDerivable_nil (tier : Tier) (room : Nat) : LinksDerivable tier room [] :=
  ⟨[], ⟨.nil⟩, Nat.zero_le room⟩

theorem LinksDerivable.cons {op : Operator} (next : LinksDerivable tier room more)
    (ofTier : op.tier = tier) (operand : Derivable (.operand tier) room lexemes) (column : Nat) :
    LinksDerivable tier room (⟨.operator op, column⟩ :: (lexemes ++ more)) := by
  obtain ⟨links, ⟨linksDerivation⟩, shallowMore⟩ := next
  obtain ⟨e, ⟨derivation⟩, shallow⟩ := operand
  refine ⟨_, ⟨.cons op column ofTier derivation linksDerivation⟩, ?_⟩
  rw [nesting_operator, derivation.nesting_append]
  exact Nat.max_le.mpr ⟨shallow, shallowMore⟩

theorem Derivable.chain {position : Position} (head : Derivable (.head tier position) room lexemes)
    (links : LinksDerivable tier room more) :
    Derivable (.chain tier position) room (lexemes ++ more) := by
  obtain ⟨e, ⟨derivation⟩, shallow⟩ := head
  obtain ⟨next, ⟨linksDerivation⟩, shallowMore⟩ := links
  refine ⟨_, derives_ofLinks derivation linksDerivation, ?_⟩
  rw [derivation.nesting_append]
  exact Nat.max_le.mpr ⟨shallow, shallowMore⟩

/-- Whatever is due, an integer will do. -/
theorem derivable_integer (symbol : Symbol) (room column : Nat) :
    Derivable symbol room [⟨.integer 0, column⟩] := by
  have zero : Reads .atom [.integer 0] _ := reads_integer (by decide)
  obtain ⟨e, derives, -⟩ := zero.ofAtom symbol [⟨.integer 0, column⟩] rfl
  exact ⟨e, derives, Nat.zero_le room⟩

theorem viable_nil (symbol : Symbol) (room : Nat) : Viable (Derivable symbol room) [] :=
  ⟨_, derivable_integer symbol room 0⟩

end Derivable

/-! ### Signs that negate a power -/

/-- The tokens end with a minus sign behind an operator other than that of powers, which negates the
power that follows. -/
def NegatesPower (lexemes : List Lexeme) : Prop :=
  ∃ before op opColumn column, op ≠ .pow ∧
    lexemes = before ++ [⟨.operator op, opColumn⟩, ⟨.minus, column⟩]

theorem NegatesPower.append {lexemes : List Lexeme} (negates : NegatesPower lexemes)
    (before : List Lexeme) : NegatesPower (before ++ lexemes) := by
  obtain ⟨start, op, opColumn, column, notPow, rfl⟩ := negates
  exact ⟨before ++ start, op, opColumn, column, notPow, (List.append_assoc ..).symm⟩

/-- The nonterminal is due behind operators other than that of powers, and may have a sign. -/
def Symbol.follows : Symbol → Bool
  | atom | signed | chain .power _ => false
  | factor position | chain .product position | chain .sum position => position == .following

/-- The tokens, with which the nonterminal starts, end with a minus sign that negates a power. -/
def Symbol.Negates (symbol : Symbol) (lexemes : List Lexeme) : Prop :=
  NegatesPower lexemes ∨ symbol.follows = true ∧ ∃ column, lexemes = [⟨.minus, column⟩]

theorem Symbol.Negates.append {symbol : Symbol} {lexemes : List Lexeme}
    (negates : symbol.Negates lexemes) (notFollows : symbol.follows = false) (symbol' : Symbol)
    (before : List Lexeme) : symbol'.Negates (before ++ lexemes) := by
  rcases negates with negates | ⟨follows, -⟩
  · exact .inl (negates.append before)
  · cases notFollows.symm.trans follows

/-- What a chain starts with may have its sign. -/
theorem Symbol.Negates.chain {tier : Tier} {position : Position} {lexemes : List Lexeme}
    (negates : (Symbol.head tier position).Negates lexemes) :
    (Symbol.chain tier position).Negates lexemes := by
  refine negates.imp_right (And.imp_left fun follows => ?_)
  cases tier with
  | power => cases position <;> cases follows
  | product => exact follows
  | sum => exact follows

/-- So may what follows an operator. -/
theorem Symbol.Negates.operator {op : Operator} {lexemes : List Lexeme}
    (negates : (Symbol.operand op.tier).Negates lexemes) (column : Nat) :
    NegatesPower (⟨.operator op, column⟩ :: lexemes) := by
  rcases negates with negates | ⟨follows, minus, rfl⟩
  · exact negates.append [_]
  · refine ⟨[], op, column, minus, ?_, rfl⟩
    rintro rfl
    cases follows

/-! ### What a rule looks at -/

section Head

variable {input input' : List Lexeme}

/-- What may follow depends on the next token only. -/
theorem Ends.of_head {reach : Nat} (ends : Ends reach input)
    (sameHead : input'.head? = input.head?) : Ends reach input' := by
  rintro op column more rfl
  obtain ⟨rest, same⟩ := List.head?_eq_some_iff.mp sameHead.symm
  exact ends op column rest same

theorem leastMagnitude?_of_least {magnitude : UInt64} (least : magnitude.toNat = leastMagnitude)
    (column : Nat) (rest : List Lexeme) :
    leastMagnitude? (⟨.integer magnitude, column⟩ :: rest) = some (column, rest) := if_pos least

theorem leastMagnitude?_eq_none_of_head (none : leastMagnitude? input = none)
    (sameHead : input'.head? = input.head?) : leastMagnitude? input' = .none := by
  rw [Option.eq_none_iff_forall_ne_some]
  rintro ⟨column, rest⟩ found
  obtain ⟨magnitude, least, rfl⟩ := leastMagnitude?_eq_some_iff.mp found
  obtain ⟨rest', rfl⟩ := List.head?_eq_some_iff.mp sameHead.symm
  cases none.symm.trans (leastMagnitude?_eq_some_iff.mpr ⟨magnitude, least, rfl⟩)

/-- The tokens do not start with a minus sign. -/
def NotMinus (input : List Lexeme) : Prop := ∀ column rest, input ≠ ⟨.minus, column⟩ :: rest

theorem NotMinus.of_head (notMinus : NotMinus input) (sameHead : input'.head? = input.head?) :
    NotMinus input' := by
  rintro column rest rfl
  obtain ⟨rest', same⟩ := List.head?_eq_some_iff.mp sameHead.symm
  exact notMinus column rest' same

theorem NotMinus.signed_run (notMinus : NotMinus input) (atom : Rule) :
    (signed atom).run input = atom.run input := by
  unfold signed
  dsimp only
  split
  · rename_i column rest
    exact absurd rfl (notMinus column rest)
  · rfl

theorem NotMinus.negatedPower_run (notMinus : NotMinus input) (atom : Rule) :
    (negatedPower atom).run input = (power atom atom).run input := by
  unfold negatedPower
  dsimp only
  split
  · rename_i column rest
    exact absurd rfl (notMinus column rest)
  · rfl

/-- Behind a minus sign the rule of atoms decides, but for the magnitude `2^63`. -/
theorem signed_run_minus_eq_error_iff (atom : Rule) (none : leastMagnitude? input = none)
    (column : Nat) (error : ParseError) :
    (signed atom).run (⟨.minus, column⟩ :: input) = .error error ↔
      atom.run input = .error error := by
  simp only [signed, none]
  cases atom.run input <;> simp

theorem negatedPower_run_minus_eq_error_iff (atom : Rule) (none : leastMagnitude? input = none)
    (column : Nat) (error : ParseError) :
    (negatedPower atom).run (⟨.minus, column⟩ :: input) = .error error ↔
      (power atom atom).run input = .error error := by
  simp only [negatedPower, none]
  cases (power atom atom).run input <;> simp

end Head

/-! ### The rules -/

/-- The rule fails where the tokens of the nonterminal cannot go on. -/
def Locates (endColumn : Nat) (rule : Rule) (room : Nat) (symbol : Symbol) : Prop :=
  ∀ ⦃input error⦄, rule.run input = .error error →
    Refusal endColumn (Derivable symbol room) symbol.Negates rule.run input error

variable {endColumn room : Nat}

/-- A group fails where its inside fails, or behind its inside, where no closing parenthesis is. -/
theorem refusal_of_group {rule : Rule} (recognizes : Recognizes rule room .expression)
    (inside : Locates endColumn rule room .expression) {column : Nat} {input : List Lexeme}
    {error : ParseError}
    (failed : atomRun endColumn (some rule) (⟨.leftParen, column⟩ :: input) = .error error) :
    Refusal endColumn (Derivable .atom (room + 1)) Symbol.atom.Negates
      (atomRun endColumn (some rule)) (⟨.leftParen, column⟩ :: input) error := by
  have takes (lexemes) (inside : Derivable .expression room lexemes) : Derivable .atom (room + 1)
      ([⟨.leftParen, column⟩] ++ lexemes ++ [⟨.rightParen, 0⟩]) := inside.group column 0
  have goesOn {lexemes e} (derives : Derives .expression lexemes e)
      (shallow : Token.nesting (tokensOf lexemes) ≤ room) :
      Viable (Derivable .atom (room + 1)) (⟨.leftParen, column⟩ :: lexemes) :=
    ⟨_, takes lexemes ⟨e, derives, shallow⟩⟩
  simp only [atomRun] at failed
  split at failed
  · rename_i ran
    cases failed
    refine (inside ran).lift [⟨.leftParen, column⟩] [⟨.rightParen, 0⟩] ?_ takes
      fun lexemes negates => negates.append rfl .atom _
    intro input' error _ ran'
    simp only [List.singleton_append, atomRun, ran']
  · rename_i inner ran
    cases failed
    obtain ⟨lexemes, rfl, derives, shallow, -⟩ := recognizes.sound ran
    rw [List.append_nil]
    exact .unclosed [] derives (goesOn derives shallow)
  · cases failed
  · rename_i inner token tokenColumn rest notClosing ran
    cases failed
    obtain ⟨lexemes, rfl, ⟨derivation⟩, shallow, ends⟩ := recognizes.sound ran
    rw [← List.cons_append]
    refine .token _ (.inGroup ⟨token, tokenColumn⟩) (goesOn ⟨derivation⟩ shallow) fun rest => ?_
    have ends : Ends _ (⟨token, tokenColumn⟩ :: rest) := ends.of_head rfl
    have ran := recognizes.complete derivation ends shallow
    simp only [List.cons_append, atomRun, ran]

theorem locates_atom
    (inside : ∀ less, room = less + 1 → Locates endColumn (expression endColumn less) less
      .expression) :
    Locates endColumn (atom endColumn (inside? endColumn room)) room .atom := by
  intro input error failed
  change atomRun endColumn (inside? endColumn room) input = _ at failed
  have start := viable_nil .atom room
  rcases input with _ | ⟨⟨token, column⟩, rest⟩
  · cases failed
    exact .ended start
  · cases token with
    | integer magnitude =>
      have large : ¬ magnitude.toNat < leastMagnitude := by
        intro small
        rw [atomRun, if_pos small] at failed
        cases failed
      rw [atomRun, if_neg large] at failed
      cases failed
      exact .token [] (.tooLarge magnitude column (Nat.le_of_not_lt large)) start
        fun rest => if_neg large
    | leftParen =>
      cases room with
      | zero =>
        cases failed
        exact .token [] (.tooDeep column) start fun rest => rfl
      | succ less =>
        exact refusal_of_group (recognizes_expression endColumn less) (inside less rfl) failed
    | rightParen | operator | blank =>
      cases failed
      exact .token [] (.unexpected ⟨_, column⟩) start fun rest => rfl

/-- A rule that may have a minus sign before what another rule reads fails where that one does,
but for the magnitude `2^63` behind the sign. -/
theorem locates_sign {inner rule : Rule} {symbol symbol' : Symbol}
    (inners : Locates endColumn inner room symbol) (notFollows : symbol.follows = false)
    (unsigned : ∀ {input}, NotMinus input → rule.run input = inner.run input)
    (behind : ∀ {input}, leastMagnitude? input = none → ∀ column error,
      rule.run (⟨.minus, column⟩ :: input) = .error error ↔ inner.run input = .error error)
    (least : ∀ {magnitude : UInt64}, magnitude.toNat = leastMagnitude →
      ∀ {column magnitudeColumn rest error},
        rule.run (⟨.minus, column⟩ :: ⟨.integer magnitude, magnitudeColumn⟩ :: rest) =
          .error error →
        Refusal endColumn (Derivable symbol' room) symbol'.Negates rule.run
          (⟨.minus, column⟩ :: ⟨.integer magnitude, magnitudeColumn⟩ :: rest) error)
    (pass : ∀ {lexemes e}, Derivation symbol lexemes e → Derivation symbol' lexemes e)
    (negate : ∀ {lexemes e} (column : Nat), Derivation symbol lexemes e →
      Derivation symbol' (⟨.minus, column⟩ :: lexemes) (.negate e column)) :
    Locates endColumn rule room symbol' := by
  intro input error failed
  by_cases minus : ∃ column rest, input = ⟨.minus, column⟩ :: rest
  · obtain ⟨column, rest, rfl⟩ := minus
    cases found : leastMagnitude? rest with
    | some magnitude =>
      obtain ⟨_, isLeast, rfl⟩ := leastMagnitude?_eq_some_iff.mp found
      exact least isLeast failed
    | none =>
      refine (inners ((behind found column error).mp failed)).behind [⟨.minus, column⟩] ?_
        (fun lexemes derivable => derivable.negate negate column)
        (fun lexemes negates => negates.append notFollows symbol' _)
      intro input' error sameHead ran
      exact (behind (leastMagnitude?_eq_none_of_head found sameHead) column error).mpr ran
  · have notMinus : NotMinus input := fun column rest same => minus ⟨column, rest, same⟩
    rw [unsigned notMinus] at failed
    refine (inners failed).imp ?_ (fun lexemes derivable => derivable.imp pass)
      (fun lexemes negates => negates.append notFollows symbol' [])
    intro input' error sameHead ran
    rwa [unsigned (notMinus.of_head sameHead)]

theorem locates_signed {atom : Rule} (atoms : Locates endColumn atom room .atom) :
    Locates endColumn (signed atom) room .signed := by
  refine locates_sign atoms rfl (fun notMinus => notMinus.signed_run atom)
    (signed_run_minus_eq_error_iff atom) ?_ .unsigned .signed
  intro magnitude least column magnitudeColumn rest error failed
  simp only [signed, leastMagnitude?_of_least least] at failed
  cases failed

/-- Links fail where an operand fails: the first, or one behind operands that are read. -/
theorem locates_links {tier : Tier} {rule : Rule}
    (recognizes : Recognizes rule room (.operand tier))
    (operands : Locates endColumn rule room (.operand tier)) {input : List Lexeme}
    {error : ParseError} (failed : links tier rule input = .error error) :
    Refusal endColumn (LinksDerivable tier room) NegatesPower (links tier rule) input error := by
  fun_induction links tier rule input generalizing error with
  | case1 => cases failed
  | case2 token column input op found ofTier error' ran =>
    cases failed
    obtain rfl := Token.operator?_eq_some_iff.mp found
    refine (operands ran).lift [⟨.operator op, column⟩] []
      (fun input' error _ ran' => links_cons_of_error ofTier ran')
      (fun lexemes derivable => (linksDerivable_nil tier room).cons ofTier derivable column) ?_
    intro lexemes negates
    rw [← ofTier] at negates
    exact negates.operator column
  | case3 token column input op found ofTier right rest ran shorter error' read ih =>
    cases failed
    obtain rfl := Token.operator?_eq_some_iff.mp found
    obtain ⟨lexemes, rfl, ⟨derivation⟩, shallow, ends⟩ := recognizes.sound ran
    refine (ih read).behind (⟨.operator op, column⟩ :: lexemes) ?_
      (fun more derivable => derivable.cons ofTier ⟨right, ⟨derivation⟩, shallow⟩ column)
      (fun more negates => negates.append _)
    intro input' error sameHead read'
    have ran' := recognizes.complete derivation (ends.of_head sameHead) shallow
    rw [List.cons_append, links_cons_of_ok ofTier ran', read']
  | case4 => cases failed
  | case5 => cases failed
  | case6 => cases failed

theorem locates_chained {tier : Tier} {position : Position} {first next : Rule}
    (recognizesHead : Recognizes first room (.head tier position))
    (recognizes : Recognizes next room (.operand tier))
    (heads : Locates endColumn first room (.head tier position))
    (operands : Locates endColumn next room (.operand tier)) :
    Locates endColumn (chained tier first next) room (.chain tier position) := by
  intro input error failed
  simp only [chained] at failed
  split at failed
  · rename_i ran
    cases failed
    refine (heads ran).imp ?_ ?_ (fun lexemes negates => negates.chain)
    · intro input' error _ ran'
      simp only [chained, ran']
    · intro lexemes derivable
      have alone := derivable.chain (linksDerivable_nil tier room)
      rwa [List.append_nil] at alone
  · rename_i head rest ran
    split at failed
    · rename_i read
      cases failed
      obtain ⟨lexemes, rfl, ⟨derivation⟩, shallow, ends⟩ := recognizesHead.sound ran
      refine (locates_links recognizes operands read).behind lexemes ?_
        (fun more derivable => Derivable.chain ⟨head, ⟨derivation⟩, shallow⟩ derivable)
        (fun more negates => .inl (negates.append lexemes))
      intro input' error sameHead read'
      have ran' := recognizesHead.complete derivation (ends.of_head sameHead) shallow
      simp only [chained, ran', read']
    · cases failed

theorem exists_of_powerFollows {rest : List Lexeme} (follows : powerFollows rest = true) :
    ∃ column more, rest = ⟨.operator .pow, column⟩ :: more := by
  unfold powerFollows at follows
  split at follows
  · rename_i op column more
    rw [eq_of_beq follows]
    exact ⟨column, more, rfl⟩
  · cases follows

/-- Behind a sign that negates a power, the magnitude `2^63` is refused as the base of the power. -/
theorem locates_negatedPower {atom : Rule}
    (powers : Locates endColumn (power atom atom) room (.chain .power .following)) :
    Locates endColumn (negatedPower atom) room (.factor .following) := by
  refine locates_sign powers rfl (fun notMinus => notMinus.negatedPower_run atom)
    (negatedPower_run_minus_eq_error_iff atom) ?_ .plain .negated
  intro magnitude least column magnitudeColumn rest error failed
  simp only [negatedPower, leastMagnitude?_of_least least] at failed
  split at failed
  · rename_i follows
    obtain ⟨opColumn, rest, rfl⟩ := exists_of_powerFollows follows
    cases failed
    have number := derivable_integer (.chain .power .following) room 0
    refine .base [⟨.minus, column⟩] least (.inr ⟨rfl, column, rfl⟩)
      ⟨_, number.negate .negated column⟩ fun opColumn rest => ?_
    simp only [List.singleton_append, negatedPower, leastMagnitude?_of_least least]
    rfl
  · cases failed

/-- **Every rule fails where its nonterminal cannot go on**, if the rule of atoms does. -/
theorem locates_rule {atom : Rule} (recognizes : Recognizes atom room .atom)
    (atoms : Locates endColumn atom room .atom) (symbol : Symbol) :
    Locates endColumn (symbol.rule atom) room symbol := by
  have recognizesRule := recognizes_rule recognizes
  have signs := locates_signed atoms
  have signedPowers : Locates endColumn (power atom (signed atom)) room (.chain .power .leading) :=
    locates_chained (recognizesRule .signed) (recognizesRule .signed) signs signs
  have powers : Locates endColumn (power atom atom) room (.chain .power .following) :=
    locates_chained recognizes (recognizesRule .signed) atoms signs
  have following := locates_negatedPower powers
  have factors : ∀ position, Locates endColumn (factor atom position) room (.factor position)
    | .leading => fun _ _ failed => (signedPowers failed).imp (fun _ _ _ ran => ran)
        (fun lexemes derivable => derivable.imp .base)
        (fun lexemes negates => negates.append rfl _ [])
    | .following => following
  have products (position) :
      Locates endColumn (product atom position) room (.chain .product position) :=
    locates_chained (recognizesRule (.factor position)) (recognizesRule (.factor .following))
      (factors position) following
  cases symbol with
  | atom => exact atoms
  | signed => exact signs
  | factor position => exact factors position
  | chain tier position =>
    cases tier with
    | power =>
      cases position with
      | leading => exact signedPowers
      | following => exact powers
    | product => exact products position
    | sum =>
      exact locates_chained (recognizesRule (.chain .product position))
        (recognizesRule (.chain .product .following)) (products position) (products .following)

/-- **The rule of expressions fails where an expression cannot go on**, with any room. -/
theorem locates_expression (endColumn room : Nat) :
    Locates endColumn (expression endColumn room) room .expression := by
  induction room with
  | zero =>
    rw [expression_eq]
    refine locates_rule (recognizes_atoms endColumn 0) (locates_atom ?_) .expression
    intro less same
    exact absurd same.symm (Nat.succ_ne_zero less)
  | succ room ih =>
    rw [expression_eq]
    refine locates_rule (recognizes_atoms endColumn (room + 1)) (locates_atom ?_) .expression
    intro less same
    cases same
    exact ih

end Grammar

open Grammar

/-- The tokens are an expression; where a missing token would be reported plays no part in it. -/
def Accepted (lexemes : List Lexeme) : Prop :=
  ∀ endColumn, ∃ e, parseLexemes lexemes endColumn = .ok e

theorem accepted_iff_derivable {lexemes : List Lexeme} :
    Accepted lexemes ↔ Derivable .expression maxNesting lexemes := by
  constructor
  · intro accepted
    obtain ⟨e, parsed⟩ := accepted 0
    exact ⟨e, derivation_of_parseLexemes parsed⟩
  · rintro ⟨e, ⟨derivation⟩, shallow⟩ endColumn
    exact ⟨e, parseLexemes_of_derivation derivation shallow endColumn⟩

/-- **A list of tokens is refused where it cannot go on as an expression.** -/
theorem refusal_of_parseLexemes {lexemes : List Lexeme} {endColumn : Nat} {error : ParseError}
    (nonempty : lexemes ≠ []) (refused : parseLexemes lexemes endColumn = .error error) :
    Refusal endColumn Accepted NegatesPower (parseLexemes · endColumn) lexemes error := by
  have ofRun {input : List Lexeme} (nonempty : input ≠ []) := parseLexemes_eq_run nonempty endColumn
  have takes (lexemes) (derivable : Derivable .expression maxNesting lexemes) : Accepted lexemes :=
    accepted_iff_derivable.mpr derivable
  rw [ofRun nonempty] at refused
  split at refused
  · rename_i ran
    cases refused
    refine (locates_expression endColumn maxNesting ran).imp ?_ takes
      fun before negates => negates.resolve_right nofun
    intro input error sameHead ran'
    have nonempty' : input ≠ [] := by
      rintro rfl
      exact nonempty (List.head?_eq_none_iff.mp sameHead.symm)
    simp only [ofRun nonempty', ran']
  · cases refused
  · rename_i e token column rest ran
    cases refused
    have recognizes := recognizes_expression endColumn maxNesting
    obtain ⟨before, rfl, ⟨derivation⟩, shallow, ends⟩ := recognizes.sound ran
    have accepted := takes before ⟨e, ⟨derivation⟩, shallow⟩
    refine .token before (.trailing ⟨token, column⟩)
      ⟨[], by rwa [List.append_nil]⟩ fun rest => ?_
    have ends : Ends _ (⟨token, column⟩ :: rest) := ends.of_head rfl
    have ran := recognizes.complete derivation ends shallow
    simp only [ofRun (List.append_ne_nil_of_right_ne_nil _ (List.cons_ne_nil _ _)), ran]

/-- The error of a computation that fails. -/
def failure? {ε α : Type} : Except ε α → Option ε
  | .error error => some error
  | .ok _ => none

theorem eq_error_of_failure? {ε α : Type} {outcome : Except ε α} {error : ε}
    (found : failure? outcome = some error) : outcome = .error error := by
  cases outcome with
  | ok value => cases found
  | error other => exact congrArg Except.error (Option.some.inj found)

end Abacus

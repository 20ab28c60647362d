/-
**What spacing does to a text.**

Spacing keeps the characters that are not blank and replaces blanks next to binary operators only.
Whether an operator is binary depends on the closest character before it that is not blank, and
spacing keeps this character; so the spaced text has the binary operators of the text, and spacing
it again changes nothing.

* `gap_induction`: a text is a run of blanks, or one with a character and a text behind it;
* `respaceFrom_blanks`, `respaceFrom_gap`: what spacing does to one run of blanks;
* `spacing_spacing`: spacing is idempotent;
* `writeSpaced`, `spacing_eq_writeSpaced`: spacing in one pass that takes back blanks it has
  written;
* `IsBinary`, `IsGap`: the binary operators of a text and its runs of blanks;
* `spacing_exact`: what is kept, what is replaced, and by what.
-/

import Abacus.Proofs.Respacing
import Mathlib.Data.List.DropRight

namespace Abacus

/-! ### One run of blanks -/

/-- **Induction along the runs of blanks of a text.** -/
@[elab_as_elim]
theorem gap_induction {motive : List Char → Prop}
    (blanks : ∀ blanks, (∀ b ∈ blanks, isBlank b = true) → motive blanks)
    (gap : ∀ blanks c text, (∀ b ∈ blanks, isBlank b = true) → isBlank c = false →
      motive text → motive (blanks ++ c :: text)) (text : List Char) : motive text := by
  suffices behind : ∀ before, (∀ b ∈ before, isBlank b = true) → motive (before ++ text) from
    behind [] (List.forall_mem_nil _)
  induction text with
  | nil =>
    intro before blank
    rw [List.append_nil]
    exact blanks before blank
  | cons c text ih =>
    intro before blank
    cases isBlankC : isBlank c with
    | false => exact gap before c text blank isBlankC (ih [] (List.forall_mem_nil _))
    | true =>
      rw [List.append_cons]
      exact ih (before ++ [c])
        (List.forall_mem_append.mpr ⟨blank, List.forall_mem_singleton.mpr isBlankC⟩)

section Gap

variable {blanks : List Char} (blank : ∀ b ∈ blanks, isBlank b = true)

include blank

theorem ofChars_blanks : Layout.ofChars blanks = ⟨[], blanks⟩ := by
  induction blanks with
  | nil => rfl
  | cons b blanks ih =>
    obtain ⟨isBlankB, later⟩ := List.forall_mem_cons.mp blank
    rw [Layout.ofChars_cons_of_blank isBlankB, ih later, Layout.prependBlank]

theorem ofChars_gap {c : Char} (notBlank : isBlank c = false) (text : List Char) :
    Layout.ofChars (blanks ++ c :: text) =
      ⟨⟨blanks, c⟩ :: (Layout.ofChars text).pieces, (Layout.ofChars text).tail⟩ := by
  induction blanks with
  | nil => exact Layout.ofChars_cons_of_not_blank notBlank text
  | cons b blanks ih =>
    obtain ⟨isBlankB, later⟩ := List.forall_mem_cons.mp blank
    rw [List.cons_append, Layout.ofChars_cons_of_blank isBlankB, ih later, Layout.prependBlank]

/-- Blanks at the end of a text are kept, but not behind a binary operator. -/
theorem respaceFrom_blanks (before : Before) :
    respaceFrom before blanks = if before = .binary then [] else blanks := by
  rw [respaceFrom, ofChars_blanks blank, respacePieces, Layout.toChars]
  rfl

/-- **Blanks before a character are kept**, but for those next to a binary operator, where one space
takes their place. -/
theorem respaceFrom_gap {c : Char} (notBlank : isBlank c = false) (before : Before)
    (text : List Char) :
    respaceFrom before (blanks ++ c :: text) =
      (if before = .binary ∨ before.next c = .binary then [' '] else blanks) ++
        c :: respaceFrom (before.next c) text := by
  rw [respaceFrom, ofChars_gap blank notBlank, respacePieces, Piece.respace]
  split <;> simp [respaceFrom, Layout.toChars]

end Gap

theorem isBlank_space : ∀ b ∈ [' '], isBlank b = true :=
  List.forall_mem_singleton.mpr rfl

/-! ### Spacing again -/

theorem respaceFrom_respaceFrom (before : Before) (text : List Char) :
    respaceFrom before (respaceFrom before text) = respaceFrom before text := by
  induction text using gap_induction generalizing before with
  | blanks blanks blank =>
    rw [respaceFrom_blanks blank]
    split
    · exact respaceFrom_nil before
    · rename_i notBinary
      rw [respaceFrom_blanks blank, if_neg notBinary]
  | gap blanks c text blank notBlank ih =>
    rw [respaceFrom_gap blank notBlank]
    split
    · rename_i nextToBinary
      rw [respaceFrom_gap isBlank_space notBlank, if_pos nextToBinary, ih]
    · rename_i notNext
      rw [respaceFrom_gap blank notBlank, if_neg notNext, ih]

/-- **Spacing is idempotent.** -/
theorem spacing_spacing (text : String) : spacing (spacing text) = spacing text := by
  simp only [spacing_eq_respaceFrom, String.toList_ofList, respaceFrom_respaceFrom]

/-! ### What stands before a character -/

/-- The characters of a text that are not blank. -/
abbrev nonBlank (text : List Char) : List Char := text.filter fun c => !isBlank c

/-- A text without blanks at its end. -/
def IsTrimmed (text : List Char) : Prop := ∀ c ∈ text.getLast?, isBlank c = false

instance (text : List Char) : Decidable (IsTrimmed text) :=
  decidable_of_iff (text.getLast?.all (!isBlank ·) = true) <| by
    simp [IsTrimmed, Option.all_eq_true]

/-- What the last character of a text that is not blank is, if such a text follows `before`. -/
def Before.after (before : Before) (text : List Char) : Before :=
  (nonBlank text).foldl Before.next before

/-- The closest character that is not blank is a digit or a closing parenthesis. -/
def FollowsOperand (before : List Char) : Prop :=
  ∃ c ∈ (nonBlank before).getLast?, c.isDigit ∨ c = ')'

instance (before : List Char) : Decidable (FollowsOperand before) :=
  decidable_of_iff ((nonBlank before).getLast?.any (fun c => c.isDigit || c = ')') = true) <| by
    simp [FollowsOperand, Option.any_eq_true]

/-- Behind such a text the character is a binary operator. -/
def IsBinary (before : List Char) (op : Char) : Prop :=
  op ∈ spacedOperators ∧ FollowsOperand before

instance (before : List Char) (op : Char) : Decidable (IsBinary before op) :=
  inferInstanceAs (Decidable (_ ∧ _))

section Characters

variable {c : Char} {text : List Char}

theorem nonBlank_blanks {blanks : List Char} (blank : ∀ b ∈ blanks, isBlank b = true) :
    nonBlank blanks = [] :=
  List.filter_eq_nil_iff.mpr fun b member => by simp [blank b member]

theorem nonBlank_append (before more : List Char) :
    nonBlank (before ++ more) = nonBlank before ++ nonBlank more := List.filter_append ..

theorem nonBlank_cons (notBlank : isBlank c = false) : nonBlank (c :: text) = c :: nonBlank text :=
  List.filter_cons_of_pos (by simp [notBlank])

theorem nonBlank_append_cons (before : List Char) (notBlank : isBlank c = false) :
    nonBlank (before ++ c :: text) = nonBlank before ++ c :: nonBlank text := by
  rw [nonBlank_append, nonBlank_cons notBlank]

theorem nonBlank_append_blanks {blanks : List Char} (before : List Char)
    (blank : ∀ b ∈ blanks, isBlank b = true) :
    nonBlank (before ++ blanks) = nonBlank before := by
  rw [nonBlank_append, nonBlank_blanks blank, List.append_nil]

theorem isTrimmed_nil : IsTrimmed [] := nofun

theorem isTrimmed_concat (before : List Char) (notBlank : isBlank c = false) :
    IsTrimmed (before ++ [c]) := by
  simp [IsTrimmed, notBlank]

theorem not_mem_spacedOperators (ends : c.isDigit ∨ c = ')') : c ∉ spacedOperators := by
  have noEnd : spacedOperators.all (fun op => !(op.isDigit || op == ')')) = true := by decide
  intro member
  have notEnd := List.all_eq_true.mp noEnd c member
  simp only [Bool.not_eq_true', Bool.or_eq_false_iff, beq_eq_false_iff_ne] at notEnd
  rcases ends with digit | rfl
  · exact Bool.false_ne_true (notEnd.1.symm.trans digit)
  · exact notEnd.2 rfl

theorem isBlank_of_mem_spacedOperators (member : c ∈ spacedOperators) : isBlank c = false := by
  have noBlank : spacedOperators.all (fun op => !isBlank op) = true := by decide
  simpa using List.all_eq_true.mp noBlank c member

theorem next_eq_operand_iff {before : Before} :
    before.next c = .operand ↔ c.isDigit ∨ c = ')' := by
  unfold Before.next
  split
  · rename_i binary
    exact ⟨nofun, fun ends => absurd binary.1 (not_mem_spacedOperators ends)⟩
  · split <;> simp [*]

theorem next_eq_binary_iff {before : Before} :
    before.next c = .binary ↔ c ∈ spacedOperators ∧ before = .operand := by
  unfold Before.next
  split
  · simp [*]
  · split <;> simp [*]

theorem after_append_blanks {blanks : List Char} (before : Before)
    (blank : ∀ b ∈ blanks, isBlank b = true) :
    before.after (text ++ blanks) = before.after text := by
  rw [Before.after, nonBlank_append_blanks text blank, Before.after]

theorem after_concat (before : Before) (notBlank : isBlank c = false) :
    before.after (text ++ [c]) = (before.after text).next c := by
  rw [Before.after, nonBlank_append_cons text notBlank, List.foldl_append]
  rfl

/-- The scan stands behind an operand exactly if the closest character says so. -/
theorem after_eq_operand_iff : Before.other.after text = .operand ↔ FollowsOperand text := by
  rw [Before.after, FollowsOperand]
  rcases List.eq_nil_or_concat (nonBlank text) with none | ⟨front, last, same⟩
  · simp [none]
  · rw [same, List.concat_eq_append, List.foldl_append, List.foldl_cons, List.foldl_nil,
      next_eq_operand_iff]
    simp

theorem next_after_eq_binary_iff :
    (Before.other.after text).next c = .binary ↔ IsBinary text c := by
  rw [next_eq_binary_iff, after_eq_operand_iff, IsBinary]

theorem isTrimmed_append_cons (before : List Char) (notBlank : isBlank c = false) :
    IsTrimmed (before ++ c :: text) ↔ IsTrimmed text := by
  cases text with
  | nil => exact ⟨fun _ => isTrimmed_nil, fun _ => isTrimmed_concat before notBlank⟩
  | cons d text => simp [IsTrimmed, List.getLast?_append, List.getLast?_cons]

theorem after_gap {blanks : List Char} (blank : ∀ b ∈ blanks, isBlank b = true)
    (notBlank : isBlank c = false) (before : Before) :
    before.after (blanks ++ c :: text) = (before.next c).after text := by
  rw [Before.after, nonBlank_append_cons blanks notBlank, nonBlank_blanks blank]
  rfl

/-- A text without blanks at its end behind which the scan finds a binary operator ends in one. -/
theorem exists_binary_of_after (trimmed : IsTrimmed text)
    (binary : Before.other.after text = .binary) :
    ∃ op ∈ text.getLast?, IsBinary text.dropLast op := by
  rcases List.eq_nil_or_concat text with rfl | ⟨front, op, rfl⟩
  · cases binary
  · rw [List.concat_eq_append] at trimmed binary ⊢
    have notBlank : isBlank op = false := trimmed op List.getLast?_concat
    rw [after_concat _ notBlank, next_after_eq_binary_iff] at binary
    exact ⟨op, List.getLast?_concat, List.dropLast_concat.symm ▸ binary⟩

/-- Every text is one without blanks at its end, and blanks. -/
theorem exists_trimmed (text : List Char) :
    ∃ front blanks, text = front ++ blanks ∧ IsTrimmed front ∧ ∀ b ∈ blanks, isBlank b = true := by
  induction text using gap_induction with
  | blanks blanks blank => exact ⟨[], blanks, rfl, isTrimmed_nil, blank⟩
  | gap blanks c text blank notBlank ih =>
    obtain ⟨front, more, rfl, trimmed, blankMore⟩ := ih
    exact ⟨blanks ++ c :: front, more, by simp, (isTrimmed_append_cons blanks notBlank).mpr trimmed,
      blankMore⟩

/-- Two splits of a text at characters that are not blank, behind as many such characters, are one
split. -/
theorem append_cons_inj {before before' after after' : List Char} {c c' : Char}
    (notBlank : isBlank c = false) (notBlank' : isBlank c' = false)
    (same : before ++ c :: after = before' ++ c' :: after')
    (sameBefore : nonBlank before = nonBlank before') :
    before = before' ∧ c = c' ∧ after = after' := by
  have empty {front more : List Char} {d : Char} (notBlankD : isBlank d = false)
      (nothing : nonBlank front = nonBlank (front ++ d :: more)) : False := by
    rw [nonBlank_append_cons front notBlankD] at nothing
    simpa using congrArg List.length nothing
  rcases List.append_eq_append_iff.mp same with ⟨more, rfl, rest⟩ | ⟨more, rfl, rest⟩
  · cases more with
    | nil => simpa using rest
    | cons d more =>
      obtain ⟨rfl, -⟩ := List.cons.inj rest
      exact (empty notBlank sameBefore).elim
  · cases more with
    | nil => simpa [eq_comm] using rest
    | cons d more =>
      obtain ⟨rfl, -⟩ := List.cons.inj rest
      exact (empty notBlank' sameBefore.symm).elim

end Characters

/-! ### Spacing part by part -/

/-- What is spaced after a text without blanks at its end depends on how the scan stands there. -/
theorem respaceFrom_append {front : List Char} (trimmed : IsTrimmed front) (before : Before)
    (text : List Char) :
    respaceFrom before (front ++ text) =
      respaceFrom before front ++ respaceFrom (before.after front) text := by
  induction front using gap_induction generalizing before with
  | blanks blanks blank =>
    have none : blanks = [] := by
      rw [← List.getLast?_eq_none_iff, Option.eq_none_iff_forall_ne_some]
      intro c last
      exact Bool.false_ne_true ((trimmed c last).symm.trans (blank c (List.mem_of_getLast? last)))
    rw [none, respaceFrom_nil]
    rfl
  | gap blanks c front blank notBlank ih =>
    rw [isTrimmed_append_cons blanks notBlank] at trimmed
    rw [List.append_assoc, List.cons_append, respaceFrom_gap blank notBlank,
      respaceFrom_gap blank notBlank, after_gap blank notBlank, ih trimmed, List.append_assoc,
      List.cons_append]

/-- **Spacing keeps the characters that are not blank.** -/
theorem nonBlank_respaceFrom (before : Before) (text : List Char) :
    nonBlank (respaceFrom before text) = nonBlank text := by
  induction text using gap_induction generalizing before with
  | blanks blanks blank =>
    rw [respaceFrom_blanks blank, nonBlank_blanks blank]
    split
    · rfl
    · exact nonBlank_blanks blank
  | gap blanks c text blank notBlank ih =>
    rw [respaceFrom_gap blank notBlank, nonBlank_append_cons _ notBlank,
      nonBlank_append_cons _ notBlank, ih, nonBlank_blanks blank]
    split
    · rw [nonBlank_blanks isBlank_space]
    · rw [nonBlank_blanks blank]

theorem IsTrimmed.respaceFrom {text : List Char} (trimmed : IsTrimmed text) (before : Before) :
    IsTrimmed (respaceFrom before text) := by
  induction text using gap_induction generalizing before with
  | blanks blanks blank =>
    rw [respaceFrom_blanks blank]
    split
    · exact isTrimmed_nil
    · exact trimmed
  | gap blanks c text blank notBlank ih =>
    rw [isTrimmed_append_cons blanks notBlank] at trimmed
    rw [respaceFrom_gap blank notBlank, isTrimmed_append_cons _ notBlank]
    exact ih trimmed _

/-- One space and no more stands between a character and an operator, and between the operator and
what follows it. -/
def IsSetOff (before after : List Char) : Prop :=
  (∃ front c, before = front ++ [c, ' '] ∧ isBlank c = false) ∧
    (after = [] ∨ ∃ c rest, after = ' ' :: c :: rest ∧ isBlank c = false)

/-- What follows a binary operator is set off from it. -/
theorem respaceFrom_binary (text : List Char) :
    respaceFrom .binary text = [] ∨
      ∃ c rest, respaceFrom .binary text = ' ' :: c :: rest ∧ isBlank c = false := by
  cases text using gap_induction with
  | blanks blanks blank => exact .inl (by rw [respaceFrom_blanks blank, if_pos rfl])
  | gap blanks c text blank notBlank _ =>
    exact .inr ⟨c, _, by rw [respaceFrom_gap blank notBlank, if_pos (.inl rfl)]; rfl, notBlank⟩

/-- **Every binary operator of a text is set off.** What is written before it ends in its
operand. -/
theorem exists_setOff {before : List Char} {op : Char} (binary : IsBinary before op)
    (after : List Char) :
    ∃ before' after', respaceFrom .other (before ++ op :: after) = before' ++ op :: after' ∧
      nonBlank before' = nonBlank before ∧ IsSetOff before' after' := by
  obtain ⟨front, blanks, rfl, trimmed, blank⟩ := exists_trimmed before
  have sameFront := nonBlank_append_blanks front blank
  have notBlank := isBlank_of_mem_spacedOperators binary.1
  have binaryFront : IsBinary front op := by
    rwa [IsBinary, FollowsOperand, sameFront] at binary
  have stands := next_after_eq_binary_iff.mpr binaryFront
  have kept := nonBlank_respaceFrom .other front
  have writtenTrimmed := trimmed.respaceFrom .other
  obtain ⟨-, last, found, -⟩ := binaryFront
  rcases List.eq_nil_or_concat (respaceFrom .other front) with none | ⟨written, c, same⟩
  · rw [none] at kept
    rw [← kept] at found
    cases found
  · rw [List.concat_eq_append] at same
    rw [same] at writtenTrimmed kept
    have notBlankC := writtenTrimmed c List.getLast?_concat
    refine ⟨written ++ [c, ' '], respaceFrom .binary after, ?_, ?_,
      ⟨written, c, rfl, notBlankC⟩, respaceFrom_binary after⟩
    · rw [List.append_assoc, respaceFrom_append trimmed, same, respaceFrom_gap blank notBlank,
        if_pos (.inr stands), stands]
      simp
    · rw [sameFront, ← kept, List.append_cons, nonBlank_append_blanks _ isBlank_space]

/-- A run of blanks, as long as it can be, with what stands before and behind it. There is one,
though it may be empty, before and behind every character that is not blank. -/
structure IsGap (text before blanks after : List Char) : Prop where
  whole : text = before ++ (blanks ++ after)
  blank : ∀ b ∈ blanks, isBlank b = true
  trimmed : IsTrimmed before
  starts : ∀ c ∈ after.head?, isBlank c = false

instance (text before blanks after : List Char) : Decidable (IsGap text before blanks after) :=
  decidable_of_iff (text = before ++ (blanks ++ after) ∧ blanks.all isBlank = true ∧
      IsTrimmed before ∧ after.head?.all (!isBlank ·) = true) <| by
    simp only [List.all_eq_true, Option.all_eq_true, Bool.not_eq_true']
    exact ⟨fun ⟨whole, blank, trimmed, starts⟩ => ⟨whole, blank, trimmed, starts⟩,
      fun ⟨whole, blank, trimmed, starts⟩ => ⟨whole, blank, trimmed, starts⟩⟩

/-- A binary operator stands at the end of what is before, or at the start of what is behind. -/
def NextToBinary (before after : List Char) : Prop :=
  (∃ op ∈ before.getLast?, IsBinary before.dropLast op) ∨ ∃ op ∈ after.head?, IsBinary before op

instance (before after : List Char) : Decidable (NextToBinary before after) :=
  decidable_of_iff
    ((before.getLast?.any (IsBinary before.dropLast ·) || after.head?.any (IsBinary before ·)) = true)
    (by simp [NextToBinary, Option.any_eq_true])

/-- **Blanks that are not next to a binary operator are kept.** -/
theorem IsGap.kept {text before blanks after : List Char} (gap : IsGap text before blanks after)
    (apart : ¬ NextToBinary before after) :
    ∃ before' after', IsGap (respaceFrom .other text) before' blanks after' ∧
      nonBlank before' = nonBlank before ∧ nonBlank after' = nonBlank after := by
  obtain ⟨rfl, blank, trimmed, starts⟩ := gap
  have notBehind : Before.other.after before ≠ .binary := fun binary =>
    apart (.inl (exists_binary_of_after trimmed binary))
  have writtenTrimmed := trimmed.respaceFrom .other
  rw [respaceFrom_append trimmed]
  cases after with
  | nil =>
    refine ⟨respaceFrom .other before, [], ⟨?_, blank, writtenTrimmed, nofun⟩,
      nonBlank_respaceFrom _ _, rfl⟩
    rw [List.append_nil, respaceFrom_blanks blank, if_neg notBehind]
  | cons c rest =>
    have notBlank := starts c rfl
    have notBefore : (Before.other.after before).next c ≠ .binary := fun binary =>
      apart (.inr ⟨c, rfl, next_after_eq_binary_iff.mp binary⟩)
    rw [respaceFrom_gap blank notBlank, if_neg (not_or.mpr ⟨notBehind, notBefore⟩)]
    refine ⟨_, _, ⟨rfl, blank, writtenTrimmed, ?_⟩, nonBlank_respaceFrom _ _, ?_⟩
    · rintro d ⟨⟩
      exact notBlank
    · rw [nonBlank_cons notBlank, nonBlank_cons notBlank, nonBlank_respaceFrom]

/-! ### Spacing in one pass -/

/-- The space that sets off a text from what stands before it. -/
def spaceBefore : List Char → List Char
  | [] => []
  | _ :: _ => [' ']

/-- A text written behind another, with what is written so far read instead of the text: before a
binary operator the blanks written last are taken back, and behind it those of the text are left
out. -/
def writeSpaced (written : List Char) : List Char → List Char
  | [] => written
  | c :: text =>
    if c ∈ spacedOperators ∧ FollowsOperand written then
      writeSpaced (written.rdropWhile isBlank ++ [' ', c] ++ spaceBefore (text.dropWhile isBlank))
        (text.dropWhile isBlank)
    else writeSpaced (written ++ [c]) text
termination_by text => text.length
decreasing_by
  · have := (List.dropWhile_sublist isBlank (l := text)).length_le
    simp only [List.length_cons]
    omega
  · simp

theorem isBlank_spaceBefore (text : List Char) : ∀ b ∈ spaceBefore text, isBlank b = true := by
  cases text with
  | nil => exact List.forall_mem_nil _
  | cons c text => exact isBlank_space

/-- Blanks in the text behind a binary operator come out as the space that is written for them. -/
theorem respaceFrom_binary_dropWhile (text : List Char) :
    respaceFrom .binary (spaceBefore (text.dropWhile isBlank) ++ text.dropWhile isBlank) =
      respaceFrom .binary text := by
  cases text using gap_induction with
  | blanks blanks blank =>
    rw [List.dropWhile_eq_nil_iff.mpr blank, spaceBefore, List.append_nil, respaceFrom_nil,
      respaceFrom_blanks blank, if_pos rfl]
  | gap blanks c text blank notBlank _ =>
    have dropped : (blanks ++ c :: text).dropWhile isBlank = c :: text := by
      rw [List.dropWhile_append_of_pos blank, List.dropWhile_cons_of_neg (by simp [notBlank])]
    rw [dropped, spaceBefore, respaceFrom_gap isBlank_space notBlank,
      respaceFrom_gap blank notBlank, if_pos (.inl rfl), if_pos (.inl rfl)]

theorem rdropWhile_append_blanks {front blanks : List Char} (trimmed : IsTrimmed front)
    (blank : ∀ b ∈ blanks, isBlank b = true) : (front ++ blanks).rdropWhile isBlank = front := by
  have dropped : (front ++ blanks).rdropWhile isBlank = front.rdropWhile isBlank := by
    rw [List.rdropWhile, List.reverse_append,
      List.dropWhile_append_of_pos fun b member => blank b (List.mem_reverse.mp member),
      List.rdropWhile]
  rw [dropped, List.rdropWhile_eq_self_iff]
  intro nonempty
  simp [trimmed _ (List.getLast?_eq_some_getLast nonempty)]

/-- **What is written so far and the text that is left come out as if they were spaced together.**
What is written is a text without blanks at its end, and blanks; behind a binary operator these are
the space that sets off the text. A binary operator takes back the blanks before it, and those
behind it are skipped; blanks that would be replaced elsewhere are one space already. -/
theorem writeSpaced_append {front blanks text : List Char} (trimmed : IsTrimmed front)
    (blank : ∀ b ∈ blanks, isBlank b = true)
    (ahead : Before.other.after front = .binary →
      blanks = spaceBefore text ∧ ∀ c ∈ text.head?, isBlank c = false) :
    writeSpaced (front ++ blanks) text =
      front ++ respaceFrom (Before.other.after front) (blanks ++ text) := by
  induction same : front ++ blanks, text using writeSpaced.induct generalizing front blanks with
  | case1 written =>
    rw [writeSpaced, List.append_nil, respaceFrom_blanks blank, ← same]
    split
    · rename_i binary
      rw [(ahead binary).1, spaceBefore]
    · rfl
  | case2 written c text binary ih =>
    subst same
    have notBlank := isBlank_of_mem_spacedOperators binary.1
    have stands : (Before.other.after front).next c = .binary := by
      rwa [← after_append_blanks _ blank, next_after_eq_binary_iff]
    have standsBehind : Before.other.after (front ++ [' ', c]) = .binary := by
      rw [List.append_cons, after_concat _ notBlank, after_append_blanks _ isBlank_space, stands]
    have trimmed' : IsTrimmed (front ++ [' ', c]) := by
      rw [List.append_cons]
      exact isTrimmed_concat _ notBlank
    have first : ∀ d ∈ (text.dropWhile isBlank).head?, isBlank d = false := by
      intro d found
      simpa [Option.mem_def.mp found] using List.head?_dropWhile_not isBlank text
    have written := ih trimmed' (isBlank_spaceBefore _) (fun _ => ⟨rfl, first⟩)
      (by rw [rdropWhile_append_blanks trimmed blank])
    rw [standsBehind, respaceFrom_binary_dropWhile] at written
    rw [writeSpaced, if_pos binary]
    refine written.trans ?_
    rw [respaceFrom_gap blank notBlank, stands, if_pos (.inr rfl), List.append_assoc]
    rfl
  | case3 written c text notBinary ih =>
    subst same
    rw [writeSpaced, if_neg notBinary]
    rw [← IsBinary, ← next_after_eq_binary_iff, after_append_blanks _ blank] at notBinary
    by_cases isBlankC : isBlank c = true
    · have notBehind : Before.other.after front ≠ .binary := fun binary =>
        Bool.false_ne_true (((ahead binary).2 c rfl).symm.trans isBlankC)
      rw [List.append_cons blanks c text]
      refine ih trimmed (List.forall_mem_append.mpr
        ⟨blank, List.forall_mem_singleton.mpr isBlankC⟩) (fun binary => absurd binary notBehind) ?_
      rw [List.append_assoc]
    · have notBlank : isBlank c = false := Bool.eq_false_iff.mpr isBlankC
      have stands : Before.other.after (front ++ blanks ++ [c]) =
          (Before.other.after front).next c := by
        rw [after_concat _ notBlank, after_append_blanks _ blank]
      have written := ih (isTrimmed_concat _ notBlank) (List.forall_mem_nil _)
        (fun binary => absurd (stands.symm.trans binary) notBinary) (List.append_nil _)
      have sameGap : (if Before.other.after front = .binary ∨
          (Before.other.after front).next c = .binary then [' '] else blanks) = blanks := by
        split
        · rename_i either
          exact (ahead (either.resolve_right notBinary)).1.symm
        · rfl
      rw [written, stands, respaceFrom_gap blank notBlank, sameGap, List.append_assoc,
        List.append_assoc]
      rfl

/-- **Spacing can be done in one pass**, though the pass looks at what it has written. -/
theorem spacing_eq_writeSpaced (text : String) :
    spacing text = String.ofList (writeSpaced [] text.toList) := by
  have written : writeSpaced ([] ++ []) text.toList = _ :=
    writeSpaced_append isTrimmed_nil (List.forall_mem_nil _) nofun
  rw [spacing_eq_respaceFrom]
  exact congrArg String.ofList written.symm

/-! ### Texts -/

/-- **What spacing does to a text.** It keeps the characters that are not blank, in their order.
Every binary operator of the text is one of the spaced text, behind the same characters that are not
blank, and every binary operator of the spaced text is set off from what stands next to it: spacing
again would do so, and changes nothing. The other runs of blanks are kept, between the same
characters. -/
theorem spacing_exact (text : String) :
    nonBlank (spacing text).toList = nonBlank text.toList ∧
      compact (spacing text) = compact text ∧
      (∀ before op after, text.toList = before ++ op :: after → IsBinary before op →
        ∃ before' after', (spacing text).toList = before' ++ op :: after' ∧
          nonBlank before' = nonBlank before ∧ IsBinary before' op) ∧
      (∀ before op after, (spacing text).toList = before ++ op :: after → IsBinary before op →
        IsSetOff before after) ∧
      ∀ before blanks after, IsGap text.toList before blanks after → ¬ NextToBinary before after →
        ∃ before' after', IsGap (spacing text).toList before' blanks after' ∧
          nonBlank before' = nonBlank before ∧ nonBlank after' = nonBlank after := by
  have spaced : (spacing text).toList = respaceFrom .other text.toList := by
    rw [spacing_eq_respaceFrom, String.toList_ofList]
  have kept : nonBlank (spacing text).toList = nonBlank text.toList := by
    rw [spaced, nonBlank_respaceFrom]
  refine ⟨kept, congrArg String.ofList kept, ?_, ?_, ?_⟩
  · intro before op after same binary
    obtain ⟨before', after', written, sameBefore, -⟩ := exists_setOff binary after
    rw [← same, ← spaced] at written
    refine ⟨before', after', written, sameBefore, binary.1, ?_⟩
    rw [FollowsOperand, sameBefore]
    exact binary.2
  · intro before op after same binary
    have notBlank := isBlank_of_mem_spacedOperators binary.1
    obtain ⟨before', after', written, sameBefore, setOff⟩ := exists_setOff binary after
    rw [← same, spaced, respaceFrom_respaceFrom, ← spaced, same] at written
    obtain ⟨rfl, -, rfl⟩ := append_cons_inj notBlank notBlank written sameBefore.symm
    exact setOff
  · intro before blanks after gap apart
    rw [spaced]
    exact gap.kept apart

/-- In this text the first sign and the asterisk are binary operators. The tab is next to one of
them, and the two blanks before the digit `2` are not. -/
theorem spacing_exact_of_two_signs :
    spacing " 3 -\t-  2)* " = " 3 - -  2) *" ∧
      IsBinary " 3 - -  2) ".toList '*' ∧ IsSetOff " 3 - -  2) ".toList [] ∧
      IsGap " 3 -\t-  2)* ".toList " 3 -\t-".toList "  ".toList "2)* ".toList ∧
      ∃ before after, IsGap " 3 - -  2) *".toList before "  ".toList after ∧
        nonBlank before = "3--".toList ∧ nonBlank after = "2)*".toList := by
  have spaced : spacing " 3 -\t-  2)* " = " 3 - -  2) *" := by decide +kernel
  have binary : IsBinary " 3 - -  2) ".toList '*' := by decide +kernel
  have gap : IsGap " 3 -\t-  2)* ".toList " 3 -\t-".toList "  ".toList "2)* ".toList := by
    decide +kernel
  obtain ⟨-, -, -, setOff, kept⟩ := spacing_exact " 3 -\t-  2)* "
  rw [spaced] at setOff kept
  exact ⟨spaced, binary, setOff _ _ _ (by decide +kernel) binary, gap,
    kept _ _ _ gap (by decide +kernel)⟩

end Abacus

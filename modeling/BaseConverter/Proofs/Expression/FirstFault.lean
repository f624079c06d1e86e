import BaseConverter.Proofs.Expression.Printed
import BaseConverter.Proofs.Expression.Refused

/-!
# `BaseConverter.Proofs.Expression.FirstFault`: which token a chain is refused for

A chain is a minus or nothing, an operand, and operators with an operand behind
each. Followed from left to right it is always in one of three states: at its
start, behind an operator, or behind an operand (`Expression.Due`). A token
fits the state or stops the chain there with an error of its own
(`Expression.Fits`, `Expression.Stops`). `Expression.FaultAt` puts the fault at
the first token that does not fit. None of these speaks of the reader, which
takes an operator and its operand in one step and hands on the error that it
meets behind them.

An operand never meets the state behind an operand, because the cut into tokens
leaves no two operands next to each other (`Token.Separated`). For this one pair
there is no error in `Stops`.

* `Expression.refuses_cons_iff`: what the reader does with one token.
* `Expression.refuses_iff_exists_faultAt`: what it does with a row of tokens.
* `Expression.readRadix_eq_error_iff_faultAt` is the main statement.
-/

set_option autoImplicit false

namespace BaseConverter

/-- `text` is the row `digits` of digits of a base, with at most one mark in
front where the base has marks. The row may stand for any number. -/
structure Base.WritesDigits (base : Base) (digits text : Text) : Prop where
  marked : base.Marked digits text
  nonempty : digits ≠ []
  allDigits : ∀ c ∈ digits, base.isDigit c = true

namespace Expression

/-- What a chain has to go on with. -/
inductive Due where
  /-- Nothing has been read: an operand is due, or a minus in front of it. -/
  | start
  /-- An operand is due behind the operator `op`. -/
  | operand (op : Operator)
  /-- An operator is due, or the end of the line. -/
  | operator

/-- A token fits what is due, and `next` is due behind it. -/
inductive Fits (base : Base) : (due : Due) → (token : Token) → (next : Due) → Prop
  | minus : Fits base .start (.operator .subtract) (.operand .subtract)
  | operand {due : Due} {text : Text} {operand : Operand} (operand_due : due ≠ .operator)
      (spelled : Operand.Spelled base text operand) : Fits base due (.operand text) .operator
  | operator (op : Operator) : Fits base .operator (.operator op) (.operand op)

/-- Tokens fit one after another, and `last` is due behind them. -/
inductive Alternates (base : Base) : (due : Due) → List Token → (last : Due) → Prop
  | nil (due : Due) : Alternates base due [] due
  | cons {due next last : Due} {token : Token} {tokens : List Token}
      (fits : Fits base due token next) (rest : Alternates base next tokens last) :
      Alternates base due (token :: tokens) last

/-- A token that does not fit what is due, or the end of the line in the place
of an operand, and the error for it. -/
inductive Stops (base : Base) : (due : Due) → Option Token → ParseError → Prop
  | unexpectedOperator {due : Due} {op : Operator} (operand_due : due ≠ .operator)
      (no_minus : ¬ (due = .start ∧ op = .subtract)) :
      Stops base due (some (.operator op)) (.unexpectedOperator op)
  | invalidOperand {due : Due} {text : Text} (operand_due : due ≠ .operator)
      (not_digits : ¬ ∃ digits, base.WritesDigits digits text) :
      Stops base due (some (.operand text)) (.invalidOperand text base)
  | operandTooLarge {due : Due} {text digits : Text} (operand_due : due ≠ .operator)
      (written : base.WritesDigits digits text)
      (large : base.operandLimit ≤ base.placeValue digits) :
      Stops base due (some (.operand text)) .operandTooLarge
  | missingOperand (op : Operator) : Stops base (.operand op) none (.missingOperand op)

/-- The tokens in front of the one with the number `i` fit, and this one, or the
end of the tokens, does not. -/
structure FaultAt (base : Base) (due : Due) (tokens : List Token) (i : Nat) (error : ParseError) :
    Prop where
  le_length : i ≤ tokens.length
  exists_due : ∃ next, Alternates base due (tokens.take i) next ∧ Stops base next tokens[i]? error

/-- The lines that are read as chains, whether or not they are one: there is an
operator in them, it is no complement, and they are not cut at a shift. -/
structure IsChainLine (base : Base) (line : Text) : Prop where
  operator : (Text.trim line).hasOperator = true
  no_complement : (Text.trim line).head? ≠ some '~'
  no_shift : shiftSides? base (Text.trim line) = none

/-- The reader of chains refuses the tokens where `due` is due. The operator in
front of an operand is read together with it. -/
def Refuses (base : Base) (error : ParseError) (due : Due) (tokens : List Token) : Prop :=
  match due with
  | .start => readChain base tokens = .error error
  | .operand op => readLinks base (.operator op :: tokens) = .error error
  | .operator => readLinks base tokens = .error error

variable {base : Base} {error : ParseError} {due next : Due} {token : Token} {tokens : List Token}

/-! ### One token -/

/-- What is built from the result of a calculation has no part in its
failure. -/
theorem bind_pure_eq_error_iff {ε α β : Type} (x : Except ε α) (f : α → β) (e : ε) :
    (do let a ← x; return f a) = .error e ↔ x = .error e := by
  rw [bind_eq_error_iff]
  refine ⟨?_, .inl⟩
  rintro (h | ⟨a, -, h⟩)
  · exact h
  · cases h

/-- An operand fits where one is due, if the reader takes it. -/
theorem fits_operand_iff {text : Text} (hdue : due ≠ .operator) :
    Fits base due (.operand text) next
      ↔ next = .operator ∧ ∃ operand, Operand.read base text = .ok operand := by
  constructor
  · intro h
    cases h with
    | operand _ hspelled => exact ⟨rfl, _, (Operand.read_eq_ok_iff base text _).mpr hspelled⟩
  · rintro ⟨rfl, operand, hread⟩
    exact .operand hdue ((Operand.read_eq_ok_iff base text operand).mp hread)

/-- The reader takes the digits of an operand that is written with digits. -/
theorem operandDigits_of_writesDigits {text digits : Text} (htrim : Text.trim text = text)
    (h : base.WritesDigits digits text) : base.operandDigits text = digits := by
  have hmarked := h.marked
  rw [← htrim] at hmarked
  exact hmarked.operandDigits_eq h.allDigits

/-- The reader's test for an operand asks for digits. -/
theorem isOperandText_iff_writesDigits {text : Text} (htrim : Text.trim text = text) :
    base.isOperandText text = true ↔ ∃ digits, base.WritesDigits digits text := by
  constructor
  · intro h
    have hmarked := base.marked_operandDigits text
    rw [htrim] at hmarked
    simp only [Base.isOperandText, Bool.and_eq_true, Bool.not_eq_true',
      List.isEmpty_eq_false_iff, List.all_eq_true] at h
    exact ⟨base.operandDigits text, hmarked, h.1, h.2⟩
  · rintro ⟨digits, h⟩
    rw [Base.isOperandText, operandDigits_of_writesDigits htrim h]
    simpa [h.nonempty] using h.allDigits

/-- An operand stops a chain where one is due, if the reader refuses it. -/
theorem stops_operand_iff {text : Text} (htrim : Text.trim text = text) (hdue : due ≠ .operator) :
    Stops base due (some (.operand text)) error ↔ Operand.read base text = .error error := by
  have hdigits : base.isOperandText text = true ↔ ∃ digits, base.WritesDigits digits text :=
    isOperandText_iff_writesDigits htrim
  constructor
  · intro h
    cases h with
    | invalidOperand _ hnot =>
        rw [Operand.read, if_neg (mt hdigits.mp hnot), htrim]
    | operandTooLarge _ hwritten hlarge =>
        rw [Operand.read, if_pos (hdigits.mpr ⟨_, hwritten⟩)]
        rw [← operandDigits_of_writesDigits htrim hwritten] at hlarge
        exact if_neg (Nat.not_lt.mpr hlarge)
  · intro h
    unfold Operand.read at h
    split at h
    · rename_i htext
      obtain ⟨digits, hwritten⟩ := hdigits.mp htext
      simp only [operandDigits_of_writesDigits htrim hwritten] at h
      split at h
      · cases h
      · rename_i hlarge
        rw [← Except.error.inj h]
        exact .operandTooLarge hdue hwritten (Nat.not_lt.mp hlarge)
    · rename_i htext
      rw [← Except.error.inj h, htrim]
      exact .invalidOperand hdue (mt hdigits.mpr htext)

/-- An operator fits behind an operand, and a minus at the start as well. -/
theorem fits_operator_iff {op : Operator} :
    Fits base due (.operator op) next
      ↔ (due = .operator ∨ due = .start ∧ op = .subtract) ∧ next = .operand op := by
  constructor
  · intro h
    cases h with
    | minus => exact ⟨.inr ⟨rfl, rfl⟩, rfl⟩
    | operator => exact ⟨.inl rfl, rfl⟩
  · rintro ⟨rfl | ⟨rfl, rfl⟩, rfl⟩
    · exact .operator op
    · exact .minus

/-- Anywhere else it stops the chain. -/
theorem stops_operator_iff {op : Operator} :
    Stops base due (some (.operator op)) error
      ↔ ¬ (due = .operator ∨ due = .start ∧ op = .subtract)
        ∧ error = .unexpectedOperator op := by
  constructor
  · intro h
    cases h with
    | unexpectedOperator hdue hminus => exact ⟨not_or.mpr ⟨hdue, hminus⟩, rfl⟩
  · rintro ⟨hplace, rfl⟩
    exact .unexpectedOperator (not_or.mp hplace).1 (not_or.mp hplace).2

/-- Where an operand is due the reader takes it and goes on with the links
behind it. -/
theorem refuses_operand_iff (hdue : due ≠ .operator) (text : Text) :
    Refuses base error due (.operand text :: tokens)
      ↔ Operand.read base text = .error error
        ∨ ∃ operand, Operand.read base text = .ok operand
          ∧ Refuses base error .operator tokens := by
  cases due with
  | start =>
      show readFrom base false text tokens = .error error ↔ _
      rw [readFrom, bind_eq_error_iff]
      simp only [bind_pure_eq_error_iff, Refuses]
  | operand op =>
      show readLinks base (.operator op :: .operand text :: tokens) = .error error ↔ _
      rw [readLinks, bind_eq_error_iff]
      simp only [bind_pure_eq_error_iff, Refuses]
  | operator => exact absurd rfl hdue

/-- Behind an operator in its place an operand is due, whether the operator is
the sign of the chain or the one of a link. -/
theorem refuses_operator_in_place_iff {op : Operator}
    (hplace : due = .operator ∨ due = .start ∧ op = .subtract) :
    Refuses base error due (.operator op :: tokens) ↔ Refuses base error (.operand op) tokens := by
  rcases hplace with rfl | ⟨rfl, rfl⟩
  · rfl
  · show readChain base (.operator .subtract :: tokens) = .error error
      ↔ readLinks base (.operator .subtract :: tokens) = .error error
    -- What is built behind a sign and behind a link differs, but not the ways to fail.
    cases tokens with
    | nil => rw [readChain, readLinks, Except.error.injEq, Except.error.injEq]
    | cons token rest =>
        cases token with
        | operator op => rw [readChain, readLinks, Except.error.injEq, Except.error.injEq]
        | operand text =>
            rw [readChain, readFrom, readLinks, bind_eq_error_iff, bind_eq_error_iff]
            simp only [bind_pure_eq_error_iff]

/-- An operator in the place of an operand is refused as such. -/
theorem refuses_operator_out_of_place_iff {op : Operator}
    (hplace : ¬ (due = .operator ∨ due = .start ∧ op = .subtract)) :
    Refuses base error due (.operator op :: tokens) ↔ error = .unexpectedOperator op := by
  have hread : ∀ {α : Type} {x : Except ParseError α}, x = .error (.unexpectedOperator op) →
      (x = .error error ↔ error = .unexpectedOperator op) := by
    rintro α x rfl
    rw [Except.error.injEq, eq_comm]
  cases due with
  | start =>
      -- Every operator but the minus has the same row in the reader.
      refine hread ?_
      cases op with
      | subtract => exact absurd (.inr ⟨rfl, rfl⟩) hplace
      | _ => rfl
  | operand _ => exact hread rfl
  | operator => exact absurd (.inl rfl) hplace

/-- A row of tokens is refused for its first token, or this one fits and the
others are refused. -/
theorem refuses_cons_iff (htrim : ∀ text, token = .operand text → Text.trim text = text)
    (hplace : due = .operator → token.symbol? ≠ none) :
    Refuses base error due (token :: tokens)
      ↔ Stops base due (some token) error
        ∨ ∃ next, Fits base due token next ∧ Refuses base error next tokens := by
  cases token with
  | operand text =>
      have hdue : due ≠ .operator := fun heq => hplace heq rfl
      rw [refuses_operand_iff hdue, stops_operand_iff (htrim text rfl) hdue]
      simp [fits_operand_iff hdue]
  | operator op =>
      by_cases hop : due = .operator ∨ due = .start ∧ op = .subtract
      · rw [refuses_operator_in_place_iff hop]
        simp [fits_operator_iff, stops_operator_iff, hop]
      · rw [refuses_operator_out_of_place_iff hop]
        simp [fits_operator_iff, stops_operator_iff, hop]

/-- At the end of the line only an operand can be missing. -/
theorem refuses_nil_iff (hstart : due ≠ .start) :
    Refuses base error due [] ↔ Stops base due none error := by
  cases due with
  | start => exact absurd rfl hstart
  | operand op =>
      show Except.error _ = Except.error _ ↔ _
      rw [Except.error.injEq]
      constructor
      · rintro rfl
        exact .missingOperand op
      · rintro ⟨⟩
        rfl
  | operator =>
      constructor
      · intro h
        cases h
      · intro h
        cases h

/-! ### A row of tokens -/

/-- There is a fault at the first token, or it fits and there is one behind
it. -/
theorem exists_faultAt_cons_iff :
    (∃ i, FaultAt base due (token :: tokens) i error)
      ↔ Stops base due (some token) error
        ∨ ∃ next, Fits base due token next ∧ ∃ i, FaultAt base next tokens i error := by
  constructor
  · rintro ⟨i, hle, next, halternates, hstops⟩
    cases i with
    | zero =>
        cases halternates
        exact .inl hstops
    | succ i =>
        rw [List.take_succ_cons] at halternates
        obtain - | ⟨hfits, hrest⟩ := halternates
        exact .inr ⟨_, hfits, i, Nat.le_of_succ_le_succ hle, next, hrest, hstops⟩
  · rintro (hstops | ⟨next, hfits, i, hle, last, hrest, hstops⟩)
    · exact ⟨0, Nat.zero_le _, due, .nil due, hstops⟩
    · exact ⟨i + 1, Nat.succ_le_succ hle, last, .cons hfits hrest, hstops⟩

/-- Without tokens there can be a fault only at their end. -/
theorem exists_faultAt_nil_iff :
    (∃ i, FaultAt base due [] i error) ↔ Stops base due none error := by
  constructor
  · rintro ⟨i, -, next, halternates, hstops⟩
    rw [List.take_nil] at halternates
    cases halternates
    exact hstops
  · exact fun hstops => ⟨0, Nat.le_refl 0, due, .nil due, hstops⟩

/-- An operator is due behind an operand only. -/
theorem Fits.symbol?_eq_none (h : Fits base due token .operator) : token.symbol? = none := by
  cases h
  rfl

/-- Behind a token the chain is not at its start any more. -/
theorem Fits.ne_start (h : Fits base due token next) : next ≠ .start := by
  cases h <;> exact Due.noConfusion

/-- The reader of chains refuses a row of separated tokens for its first fault.
The induction on the tokens carries the two facts that the row does not show
any more once its first tokens are gone: no operand follows where an operator
is due, and the start is left behind. -/
theorem refuses_iff_exists_faultAt (hseparated : Token.Separated tokens)
    (hplace : due = .operator → ∀ token ∈ tokens.head?, token.symbol? ≠ none)
    (hstart : due = .start → tokens ≠ []) :
    Refuses base error due tokens ↔ ∃ i, FaultAt base due tokens i error := by
  induction tokens generalizing due with
  | nil =>
      have hdue : due ≠ .start := fun heq => hstart heq rfl
      rw [refuses_nil_iff hdue, exists_faultAt_nil_iff]
  | cons token tokens ih =>
      -- The reader trims an operand once more, which leaves it as it is.
      have htrim : ∀ text, token = .operand text → Text.trim text = text := by
        rintro text rfl
        exact Text.trim_eq_self (hseparated.operands text List.mem_cons_self).trimmed
      have hapart := (List.isChain_cons.mp hseparated.apart).1
      rw [refuses_cons_iff htrim fun heq => hplace heq token rfl, exists_faultAt_cons_iff]
      refine or_congr_right (exists_congr fun next => and_congr_right fun hfits => ?_)
      -- Behind an operand an operator is due, and no second operand stands there.
      refine ih hseparated.tail ?_ fun heq => absurd heq hfits.ne_start
      rintro rfl second hsecond
      exact (hapart second hsecond).resolve_left (not_not_intro hfits.symbol?_eq_none)

/-- Tokens that alternate end with one that fits, unless there are none. -/
theorem Alternates.exists_last {last : Due} (h : Alternates base due tokens last) :
    (tokens = [] ∧ due = last)
      ∨ ∃ before token, tokens.getLast? = some token ∧ Fits base before token last := by
  induction h with
  | nil due => exact .inl ⟨rfl, rfl⟩
  | @cons due _ _ token _ hfits _ ih =>
      rcases ih with ⟨rfl, rfl⟩ | ⟨before, final, hfinal, hlast⟩
      · exact .inr ⟨due, token, rfl, hfits⟩
      · refine .inr ⟨before, final, ?_, hlast⟩
        rw [List.getLast?_cons, hfinal]
        rfl

/-- Separated tokens have no operand where an operator is due. -/
theorem not_operand_of_alternates (hseparated : Token.Separated tokens) {i : Nat}
    (h : Alternates base .start (tokens.take i) .operator) (text : Text) :
    tokens[i]? ≠ some (.operand text) := by
  intro htoken
  have hapart := hseparated.apart
  rw [← List.take_append_drop i tokens, List.isChain_append] at hapart
  obtain ⟨-, -, hboundary⟩ := hapart
  have hhead : Token.operand text ∈ (tokens.drop i).head? := by
    rw [List.head?_drop, htoken]
    rfl
  rcases h.exists_last with ⟨-, hdue⟩ | ⟨before, token, htaken, hfits⟩
  · cases hdue
  · rcases hboundary token htaken _ hhead with hfirst | hsecond
    · exact hfirst hfits.symbol?_eq_none
    · exact hsecond rfl

/-- Where an operand is missing, the last token is the operator that it is
missing behind. -/
theorem FaultAt.getLast?_eq {i : Nat} {op : Operator}
    (h : FaultAt base .start tokens i (.missingOperand op)) :
    i = tokens.length ∧ tokens.getLast? = some (.operator op) := by
  obtain ⟨hle, next, halternates, hstops⟩ := h
  generalize htoken : tokens[i]? = token? at hstops
  cases hstops
  have hlength : i = tokens.length := Nat.le_antisymm hle (List.getElem?_eq_none_iff.mp htoken)
  rw [hlength, List.take_length] at halternates
  refine ⟨hlength, ?_⟩
  rcases halternates.exists_last with ⟨-, hdue⟩ | ⟨before, token, hlast, hfits⟩
  · cases hdue
  · cases hfits <;> exact hlast

/-! ### The line -/

/-- A line that is neither a complement nor a shift goes to the reader of
chains. -/
theorem IsChainLine.readRadix_eq {line : Text} (h : IsChainLine base line) :
    readRadix base.radix line = readChain base (Token.ofText (Text.trim line)) := by
  rw [readRadix, Base.ofRadix?_radix]
  show readTrimmed base (Text.trim line) = _
  rw [readTrimmed, h.operator, if_neg (by decide), if_neg h.no_complement, h.no_shift]

theorem IsChainLine.ofText_ne_nil {line : Text} (h : IsChainLine base line) :
    Token.ofText (Text.trim line) ≠ [] := by
  obtain ⟨c, hc, hop⟩ := List.any_eq_true.mp h.operator
  exact Token.ofText_ne_nil hc (not_white_of_isOperatorChar hop)

/-- A chain is refused for its first fault, and only then: some first tokens of
the line alternate as they should, and the error is the one of the token behind
them, or of the end of the line behind an operator. The absence of an operator
is never the reason, and the tokens of no line have an operand where an operator
is due. -/
theorem readRadix_eq_error_iff_faultAt (base : Base) (line : Text) (h : IsChainLine base line) :
    let tokens := Token.ofText (Text.trim line)
    (∀ error, readRadix base.radix line = .error error
      ↔ ∃ i, FaultAt base .start tokens i error)
    ∧ (∀ i op, FaultAt base .start tokens i (.missingOperand op) →
        i = tokens.length ∧ tokens.getLast? = some (.operator op))
    ∧ readRadix base.radix line ≠ .error .noOperator
    ∧ ∀ i text, Alternates base .start (tokens.take i) .operator →
        tokens[i]? ≠ some (.operand text) := by
  intro tokens
  have hseparated : Token.Separated tokens := Token.separated_ofText (Text.trim line)
  have hfault : ∀ error, readRadix base.radix line = .error error
      ↔ ∃ i, FaultAt base .start tokens i error := by
    intro error
    rw [h.readRadix_eq]
    show Refuses base error .start tokens ↔ _
    refine refuses_iff_exists_faultAt hseparated ?_ fun _ => h.ofText_ne_nil
    intro hdue
    cases hdue
  refine ⟨hfault, fun i op => FaultAt.getLast?_eq, ?_, ?_⟩
  · rw [Ne, hfault]
    rintro ⟨i, -, next, -, hstops⟩
    generalize tokens[i]? = token? at hstops
    cases hstops
  · exact fun i text halternates => not_operand_of_alternates hseparated halternates text

/-- A hexadecimal operand that is too large is reported, and neither the two
operators in a row behind it nor the last operand. -/
theorem readRadix_eq_error_iff_faultAt_too_large :
    let line : Text := " -1 + 0x10000000000000000 * / g".toList
    IsChainLine .hex line
    ∧ readRadix 16 line = .error .operandTooLarge
    ∧ ∃ i, FaultAt .hex .start (Token.ofText (Text.trim line)) i .operandTooLarge := by
  intro line
  have hchain : IsChainLine .hex line := ⟨by decide, by decide, by decide⟩
  have hread : readRadix 16 line = .error .operandTooLarge := by rfl
  exact ⟨hchain, hread, ((readRadix_eq_error_iff_faultAt .hex line hchain).1 _).mp hread⟩

end Expression

end BaseConverter

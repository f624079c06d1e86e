import BaseConverter.Proofs.Expression.Grammar

/-!
# `BaseConverter.Proofs.Expression.Refused`: why a line with an operator is refused

A text without an operator is refused for that reason, and for that reason
alone (`Expression.read_eq_noOperator_iff`). Once there is an operator, the
line is refused for something that stands in it: an operand that is no row
of digits or is too large, an operator with no operand behind it, or one in
the place of an operand. `ParseError.InLine` lists these faults. The base
that they name is the base that the line is read in.

The reader of links hands on the fault of an operand and finds the other
faults itself, so the induction over the tokens
(`Expression.inLine_of_readLinks`) carries the statement from the operands
to the whole line.
-/

set_option autoImplicit false

namespace BaseConverter

/-- What can be wrong with a line that has an operator. -/
inductive ParseError.InLine (base : Base) : ParseError → Prop
  | invalidOperand (text : Text) : InLine base (.invalidOperand text base)
  | operandTooLarge : InLine base .operandTooLarge
  | missingOperand (op : Operator) : InLine base (.missingOperand op)
  | unexpectedOperator (op : Operator) : InLine base (.unexpectedOperator op)

/-- An operand is not digits, or is too large. -/
theorem Operand.inLine_of_read {base : Base} {text : Text} {error : ParseError}
    (h : Operand.read base text = .error error) : error.InLine base := by
  unfold Operand.read at h
  split at h
  · simp only at h
    split at h
    · cases h
    · rw [← Except.error.inj h]
      exact .operandTooLarge
  · rw [← Except.error.inj h]
    exact .invalidOperand _

/-- A character that is no white space makes a token. -/
theorem Token.ofText_ne_nil {line : Text} {c : Char} (hmem : c ∈ line)
    (hc : Text.isWhite c = false) : ofText line ≠ [] := by
  intro hnil
  rw [ofText_eq, List.append_eq_nil_iff] at hnil
  obtain ⟨hfirst, hpieces⟩ := hnil
  -- Without an operator the line is one piece, and this piece is white space.
  have hcut : (split line).2 = [] := by
    cases hsplit : (split line).2 with
    | nil => rfl
    | cons piece pieces =>
        rw [hsplit] at hpieces
        cases hpieces
  have hline : line = (split line).1 := by
    have hall := eq_append_flatten_split line
    rwa [hcut, List.map_nil, List.flatten_nil, List.append_nil] at hall
  rw [Option.toList_eq_nil_iff, operand?_eq_none_iff, ← hline] at hfirst
  rw [List.all_eq_true.mp hfirst c hmem] at hc
  cases hc

namespace Expression

variable {base : Base} {error : ParseError}

theorem inLine_of_readLinks {tokens : List Token} (h : readLinks base tokens = .error error) :
    error.InLine base := by
  induction tokens using readLinks.induct with
  | case1 => cases h
  | case2 text rest =>
      rw [← Except.error.inj h]
      exact .invalidOperand text
  | case3 op =>
      rw [← Except.error.inj h]
      exact .missingOperand op
  | case4 op next rest =>
      rw [← Except.error.inj h]
      exact .unexpectedOperator next
  | case5 op text rest ih =>
      rw [readLinks] at h
      rcases (bind_eq_error_iff _ _ _).mp h with hoperand | ⟨operand, -, h⟩
      · exact Operand.inLine_of_read hoperand
      · rcases (bind_eq_error_iff _ _ _).mp h with hlinks | ⟨links, -, h⟩
        · exact ih hlinks
        · cases h

theorem inLine_of_readFrom {negated : Bool} {first : Text} {rest : List Token}
    (h : readFrom base negated first rest = .error error) : error.InLine base := by
  rw [readFrom] at h
  rcases (bind_eq_error_iff _ _ _).mp h with hoperand | ⟨operand, -, h⟩
  · exact Operand.inLine_of_read hoperand
  · rcases (bind_eq_error_iff _ _ _).mp h with hlinks | ⟨links, -, h⟩
    · exact inLine_of_readLinks hlinks
    · cases h

theorem inLine_of_readChain {tokens : List Token} (hne : tokens ≠ [])
    (h : readChain base tokens = .error error) : error.InLine base := by
  unfold readChain at h
  split at h
  · contradiction
  · exact inLine_of_readFrom h
  · exact inLine_of_readFrom h
  all_goals rw [← Except.error.inj h]
  · exact .unexpectedOperator _
  · exact .missingOperand _
  · exact .unexpectedOperator _

/-- A line with an operator that is refused has one of the faults in it. -/
theorem inLine_of_readTrimmed {line : Text} (hop : line.hasOperator = true)
    (h : readTrimmed base line = .error error) : error.InLine base := by
  unfold readTrimmed at h
  rw [hop] at h
  simp only [Bool.not_true, Bool.false_eq_true, if_false] at h
  split at h
  · cases hoperand : Operand.read base line.tail with
    | ok operand =>
        rw [hoperand] at h
        cases h
    | error first =>
        rw [hoperand] at h
        rw [← Except.error.inj h]
        exact Operand.inLine_of_read hoperand
  · split at h
    · rcases (bind_eq_error_iff _ _ _).mp h with hleft | ⟨left, -, h⟩
      · exact Operand.inLine_of_read hleft
      · rcases (bind_eq_error_iff _ _ _).mp h with hright | ⟨right, -, h⟩
        · exact Operand.inLine_of_read hright
        · cases h
    · obtain ⟨c, hc, hoperator⟩ := List.any_eq_true.mp hop
      exact inLine_of_readChain (Token.ofText_ne_nil hc (not_white_of_isOperatorChar hoperator)) h

/-- A line is refused for want of an operator exactly when it has none. -/
theorem read_eq_noOperator_iff (base : Base) (line : Text) :
    read base line = .error .noOperator ↔ (Text.trim line).hasOperator = false := by
  constructor
  · intro h
    rw [Bool.eq_false_iff]
    intro hop
    cases inLine_of_readTrimmed hop h
  · intro hop
    rw [read, readTrimmed, hop]
    rfl

end Expression

end BaseConverter

import BaseConverter.Proofs.Expression.Grammar
import BaseConverter.Proofs.Text.Stretch
import Mathlib.Data.List.Chain

/-!
# `BaseConverter.Proofs.Expression.Printed`: the texts that tokens are printed in

Tokens can be printed with any white space in front of them, between them and
behind them. `Token.Printed tokens text` says that `text` is `tokens` printed in
one of these ways, and speaks of no cut.

Not every list of tokens comes back. Two operands next to each other run into
one, and an operand that is empty, begins or ends with white space or holds an
operator is cut otherwise. `Token.Separated` rules these lists out, and no
others: the tokens of every line are separated, and separated tokens come back
however they are printed.

* `Token.operator_induction` follows a line from operator to operator.
* `Token.printed_ofText` and `Token.separated_ofText`: what the cut finds.
* `Token.ofText_of_printed`: what comes back.
* `Token.ofText_eq_iff_printed` is the main statement.
-/

set_option autoImplicit false

namespace BaseConverter

/-- The characters that the operators of a chain are written with. -/
def Operator.symbols : Text := "+-*/%&|^".toList

theorem Operator.symbol_mem_symbols (op : Operator) : op.symbol ∈ symbols := by
  cases op <;> decide

theorem Operator.ofSymbol?_eq_none_iff (c : Char) : ofSymbol? c = none ↔ c ∉ symbols := by
  have hsome : symbols.all (fun d => (ofSymbol? d).isSome) = true := by decide
  constructor
  · intro hnone hmem
    have hop := List.all_eq_true.mp hsome c hmem
    rw [hnone] at hop
    cases hop
  · intro hmem
    cases hop : ofSymbol? c with
    | none => rfl
    | some op =>
        rw [← symbol_of_ofSymbol? hop] at hmem
        exact absurd op.symbol_mem_symbols hmem

namespace Token

/-- The characters that a token is printed with. -/
def written : Token → Text
  | operand text => text
  | operator op => [op.symbol]

/-- The character of an operator. An operand has none. -/
def symbol? : Token → Option Char
  | operand _ => none
  | operator op => some op.symbol

/-- A text that can be an operand of a line, whatever base the line is read
in. -/
structure IsOperandText (text : Text) : Prop where
  nonempty : text ≠ []
  trimmed : Text.Trimmed text
  no_symbol : ∀ c ∈ text, c ∉ Operator.symbols

/-- Tokens that can be told apart when they are printed. -/
structure Separated (tokens : List Token) : Prop where
  operands : ∀ text, operand text ∈ tokens → IsOperandText text
  /-- Of two neighbours one is an operator. -/
  apart : tokens.IsChain fun first second => first.symbol? ≠ none ∨ second.symbol? ≠ none

/-- `text` is the tokens in order, with white space around each of them. -/
inductive Printed : List Token → Text → Prop
  | nil {white : Text} (white_space : Text.allWhite white = true) : Printed [] white
  | cons {white : Text} (white_space : Text.allWhite white = true) (token : Token)
      {tokens : List Token} {rest : Text} (tail : Printed tokens rest) :
      Printed (token :: tokens) (white ++ token.written ++ rest)

/-! ### Following a line from operator to operator -/

/-- What holds of lines without an operator, and of a line that is cut at its
first operator when it holds of what stands behind the operator, holds of all
lines. -/
@[elab_as_elim]
theorem operator_induction {motive : Text → Prop}
    (run : ∀ text, (∀ c ∈ text, Operator.ofSymbol? c = none) → motive text)
    (cut : ∀ before op after, (∀ c ∈ before, Operator.ofSymbol? c = none) → motive after →
      motive (before ++ Operator.symbol op :: after)) (text : Text) : motive text := by
  induction text using Text.cut_induction fun c => (Operator.ofSymbol? c).isNone with
  | run text hrun => exact run text fun c hc => Option.isNone_iff_eq_none.mp (hrun c hc)
  | cut before c after hbefore hc ih =>
      obtain ⟨op, hop⟩ := Option.isSome_iff_exists.mp (Option.isNone_eq_false_iff.mp hc)
      rw [← Operator.symbol_of_ofSymbol? hop]
      exact cut before op after (fun d hd => Option.isNone_iff_eq_none.mp (hbefore d hd)) ih

/-- There is no operator in white space. -/
theorem ofSymbol?_of_allWhite {white : Text} (h : Text.allWhite white = true) :
    ∀ c ∈ white, Operator.ofSymbol? c = none := by
  intro c hc
  refine Operator.ofSymbol?_eq_none ?_
  rw [← Bool.not_eq_true]
  intro hop
  have hwhite := List.all_eq_true.mp h c hc
  rw [not_white_of_isOperatorChar hop] at hwhite
  cases hwhite

/-- In front of an operator white space makes no token. -/
theorem ofText_white_append_cons {white : Text} (h : Text.allWhite white = true) (op : Operator)
    (after : Text) : ofText (white ++ op.symbol :: after) = operator op :: ofText after := by
  rw [ofText_append_cons (ofSymbol?_of_allWhite h), (operand?_eq_none_iff white).mpr h]
  rfl

/-! ### The tokens of a line -/

/-- White space in front of printed tokens does not matter. -/
theorem Printed.white_append {white : Text} (hwhite : Text.allWhite white = true)
    {tokens : List Token} {text : Text} (h : Printed tokens text) :
    Printed tokens (white ++ text) := by
  have happend : ∀ {front : Text}, Text.allWhite front = true →
      Text.allWhite (white ++ front) = true := by
    intro front hfront
    rw [Text.allWhite_append, hwhite, hfront]
    rfl
  cases h with
  | nil hfront => exact .nil (happend hfront)
  | cons hfront token tail =>
      rw [← List.append_assoc, ← List.append_assoc]
      exact .cons (happend hfront) token tail

/-- A piece in front of printed tokens prints its operand, if it has one. -/
theorem Printed.piece_append (piece : Text) {tokens : List Token} {rest : Text}
    (h : Printed tokens rest) : Printed ((operand? piece).toList ++ tokens) (piece ++ rest) := by
  cases hpiece : operand? piece with
  | none => exact h.white_append ((operand?_eq_none_iff piece).mp hpiece)
  | some token =>
      -- The white space behind the operand is left to what follows.
      obtain ⟨before, after, hbefore, hafter, htext⟩ := Text.padded_trim piece
      obtain rfl := eq_of_operand?_eq_some hpiece
      have hprinted := Printed.cons hbefore (operand (Text.trim piece)) (h.white_append hafter)
      rw [written, ← List.append_assoc, ← htext] at hprinted
      exact hprinted

/-- A line is its tokens, printed. -/
theorem printed_ofText (text : Text) : Printed (ofText text) text := by
  induction text using operator_induction with
  | run text hrun =>
      have hprinted := Printed.piece_append text (@Printed.nil [] rfl)
      rwa [List.append_nil, List.append_nil, ← ofText_of_forall hrun] at hprinted
  | cut before op after hbefore ih =>
      rw [ofText_append_cons hbefore]
      exact Printed.piece_append before (@Printed.cons [] rfl (operator op) _ _ ih)

/-- A piece without an operator, trimmed, can be an operand. -/
theorem isOperandText_of_operand? {piece text : Text}
    (hpiece : ∀ c ∈ piece, Operator.ofSymbol? c = none)
    (h : operand? piece = some (operand text)) : IsOperandText text := by
  obtain rfl : text = Text.trim piece := Token.operand.inj (eq_of_operand?_eq_some h)
  obtain ⟨before, after, -, -, htext⟩ := Text.padded_trim piece
  refine ⟨?_, Text.trimmed_trim piece, ?_⟩
  · intro hnil
    rw [(operand?_eq_none_iff piece).mpr ((Text.trim_eq_nil_iff piece).mp hnil)] at h
    cases h
  · intro c hc
    rw [← Operator.ofSymbol?_eq_none_iff]
    refine hpiece c ?_
    rw [htext]
    exact List.mem_append_left after (List.mem_append_right before hc)

theorem separated_nil : Separated [] :=
  ⟨fun _ hmem => absurd hmem List.not_mem_nil, .nil⟩

theorem Separated.operator_cons (op : Operator) {tokens : List Token} (h : Separated tokens) :
    Separated (operator op :: tokens) := by
  refine ⟨fun text hmem => ?_, h.apart.cons fun _ _ => .inl (Option.some_ne_none _)⟩
  exact h.operands text ((List.mem_cons.mp hmem).resolve_left Token.noConfusion)

/-- Separated tokens that begin with an operator stay so behind a piece without
one. -/
theorem Separated.piece_append {piece : Text} (hpiece : ∀ c ∈ piece, Operator.ofSymbol? c = none)
    {tokens : List Token} (hhead : ∀ token ∈ tokens.head?, token.symbol? ≠ none)
    (h : Separated tokens) : Separated ((operand? piece).toList ++ tokens) := by
  cases htoken : operand? piece with
  | none => exact h
  | some token =>
      refine ⟨fun text hmem => ?_, h.apart.cons fun next hnext => .inr (hhead next hnext)⟩
      rcases List.mem_cons.mp hmem with rfl | hmem
      · exact isOperandText_of_operand? hpiece htoken
      · exact h.operands text hmem

/-- The tokens of a line can be told apart: between two operands the line was
cut at an operator. -/
theorem separated_ofText (text : Text) : Separated (ofText text) := by
  induction text using operator_induction with
  | run text hrun =>
      rw [ofText_of_forall hrun, ← List.append_nil (Option.toList _)]
      exact Separated.piece_append hrun (by simp) separated_nil
  | cut before op after hbefore ih =>
      rw [ofText_append_cons hbefore]
      refine Separated.piece_append hbefore ?_ (ih.operator_cons op)
      intro token htoken
      rw [← Option.some.inj htoken]
      exact Option.some_ne_none _

/-- The operators of a line keep their order, and none is lost. -/
theorem filterMap_symbol?_ofText (text : Text) :
    (ofText text).filterMap symbol? = text.filter (· ∈ Operator.symbols) := by
  -- Neither a piece without an operator nor its token has a symbol.
  have hpiece : ∀ piece : Text, (operand? piece).toList.filterMap symbol? = [] := by
    intro piece
    cases htoken : operand? piece with
    | none => rfl
    | some token =>
        rw [eq_of_operand?_eq_some htoken]
        rfl
  have hfilter : ∀ piece : Text, (∀ c ∈ piece, Operator.ofSymbol? c = none) →
      piece.filter (· ∈ Operator.symbols) = [] := by
    intro piece h
    rw [List.filter_eq_nil_iff]
    intro c hc
    rw [decide_eq_true_eq, ← Operator.ofSymbol?_eq_none_iff]
    exact h c hc
  induction text using operator_induction with
  | run text hrun => rw [ofText_of_forall hrun, hpiece, hfilter text hrun]
  | cut before op after hbefore ih =>
      have hop : (op.symbol :: after).filter (· ∈ Operator.symbols)
          = op.symbol :: after.filter (· ∈ Operator.symbols) :=
        List.filter_cons_of_pos (decide_eq_true op.symbol_mem_symbols)
      rw [ofText_append_cons hbefore, List.filterMap_append, hpiece, List.filter_append,
        hfilter before hbefore, hop, ← ih]
      rfl

/-! ### Tokens that come back -/

/-- An operand is found in white space. -/
theorem operand?_of_padded {core text : Text} (hcore : IsOperandText core)
    (h : Text.Padded core text) : operand? text = some (operand core) := by
  have htrim := Text.trim_of_padded hcore.trimmed h
  have hne : Text.trim text ≠ [] := by
    rw [htrim]
    exact hcore.nonempty
  rw [operand?_of_not_allWhite hne, htrim]

/-- There is no operator in an operand with white space around it. -/
theorem ofSymbol?_of_padded {core before after : Text} (hcore : IsOperandText core)
    (hbefore : Text.allWhite before = true) (hafter : Text.allWhite after = true) :
    ∀ c ∈ before ++ core ++ after, Operator.ofSymbol? c = none := by
  intro c hc
  rcases List.mem_append.mp hc with hc | hc
  · rcases List.mem_append.mp hc with hc | hc
    · exact ofSymbol?_of_allWhite hbefore c hc
    · exact (Operator.ofSymbol?_eq_none_iff c).mpr (hcore.no_symbol c hc)
  · exact ofSymbol?_of_allWhite hafter c hc

/-- The tokens behind the first one are separated as well. -/
theorem Separated.tail {token : Token} {tokens : List Token} (h : Separated (token :: tokens)) :
    Separated tokens :=
  ⟨fun text hmem => h.operands text (List.mem_cons_of_mem token hmem),
    (List.isChain_cons.mp h.apart).2⟩

/-- Separated tokens come back however they are printed. The induction is on
the printing. An operator is cut off at once, but an operand has no end of its
own: where it ends is seen from the token behind it. -/
theorem ofText_of_printed {tokens : List Token} {text : Text} (h : Printed tokens text)
    (hseparated : Separated tokens) : ofText text = tokens := by
  induction h with
  | nil hwhite =>
      rw [ofText_of_forall (ofSymbol?_of_allWhite hwhite), (operand?_eq_none_iff _).mpr hwhite]
      rfl
  | @cons white hwhite token tokens rest tail ih =>
      have hrest := ih hseparated.tail
      cases token with
      | operator op =>
          rw [written, List.append_assoc, List.singleton_append, ofText_white_append_cons hwhite,
            hrest]
      | operand core =>
          have hcore := hseparated.operands core List.mem_cons_self
          rw [written]
          cases tail with
          | nil hback =>
              rw [ofText_of_forall (ofSymbol?_of_padded hcore hwhite hback),
                operand?_of_padded hcore ⟨white, _, hwhite, hback, rfl⟩]
              rfl
          | @cons back hback next tokens rest tail =>
              cases next with
              | operand text =>
                  have hapart := (List.isChain_cons_cons.mp hseparated.apart).1
                  simp [symbol?] at hapart
              | operator op =>
                  have hline : white ++ core ++ (back ++ (operator op).written ++ rest)
                      = white ++ core ++ back ++ op.symbol :: rest := by
                    rw [written]
                    simp only [List.append_assoc, List.singleton_append]
                  rw [written, List.append_assoc, List.singleton_append,
                    ofText_white_append_cons hback, List.cons.injEq] at hrest
                  rw [hline, ofText_append_cons (ofSymbol?_of_padded hcore hwhite hback),
                    operand?_of_padded hcore ⟨white, back, hwhite, hback, rfl⟩, hrest.2]
                  rfl

/-- The tokens of a line are the separated tokens that it is printed from, and
there is one such list. Its operators are the characters of the line that stand
for one, in order. -/
theorem ofText_eq_iff_printed (text : Text) :
    (∀ tokens, ofText text = tokens ↔ Separated tokens ∧ Printed tokens text)
    ∧ (ofText text).filterMap symbol? = text.filter (· ∈ Operator.symbols) := by
  refine ⟨fun tokens => ⟨?_, ?_⟩, filterMap_symbol?_ofText text⟩
  · rintro rfl
    exact ⟨separated_ofText text, printed_ofText text⟩
  · rintro ⟨hseparated, hprinted⟩
    exact ofText_of_printed hprinted hseparated

/-- White space inside an operand is no cut, and neither is half a shift. -/
example : ofText " 1 2<< +\t+3 ".toList
    = [operand "1 2<<".toList, operator .add, operator .add, operand "3".toList] := by decide

end Token

end BaseConverter

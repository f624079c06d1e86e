import BaseConverter.Proofs.Expression.Operand
import BaseConverter.Proofs.Expression.Token
import Mathlib.Data.List.Forall2

/-!
# `BaseConverter.Proofs.Expression.Grammar`: the texts that are expressions

`Expression.Spelled base line e` is the grammar of lines. It has one
constructor for each of the three forms and speaks of no reader, token or
cut. Every text that an operand is written in may have white space around
it (`Operand.Spelled`).

The reader tries the three forms in order and falls through to the chain
when a shift lacks an operand, so that it accepts no text of a wrong form
is not to be seen from it. The two directions are proved apart:

* `Expression.readTrimmed_of_spelled`: what the grammar derives is read,
  as the expression that the grammar gives it. White space around the
  whole line does not matter here.
* `Expression.spelled_of_readTrimmed`: what is read is derived by the
  grammar, for a line that does not begin with white space. (A minus is
  the first character of its line; the reader alone would accept it
  behind white space.)

Both meet in `readRadix_eq_ok_iff_spelled`. One expression for a text
follows from the first direction, because the reader is a function.
-/

set_option autoImplicit false

namespace BaseConverter

/-! ### The grammar -/

/-- `text` is an operator of a chain and the operand behind it. -/
inductive Link.Spelled (base : Base) : Text → Link → Prop
  | intro (op : Operator) {text : Text} {operand : Operand}
      (spelled : Operand.Spelled base text operand) :
      Spelled base (op.symbol :: text) ⟨op, operand⟩

/-- `line` is the expression `e`, written in the base `base`. -/
inductive Expression.Spelled (base : Base) : Text → Expression → Prop
  | complement {text : Text} {operand : Operand}
      (spelled : Operand.Spelled base text operand) :
      Spelled base ('~' :: text) (.complement operand)
  | shift (direction : Shift) {before after : Text} {left right : Operand}
      (before_spelled : Operand.Spelled base before left)
      (after_spelled : Operand.Spelled base after right) :
      Spelled base (before ++ direction.symbol ++ after) (.shift left direction right)
  | chain (negated : Bool) {text : Text} {first : Operand} {pieces : List Text}
      {links : List Link}
      (first_spelled : Operand.Spelled base text first)
      (links_spelled : List.Forall₂ (Link.Spelled base) pieces links)
      (operator : negated = true ∨ links ≠ []) :
      Spelled base ((if negated then [Operator.subtract.symbol] else []) ++ text ++ pieces.flatten)
        (.chain negated first links)

/-! ### Operators in a line -/

theorem Operator.isOperatorChar_symbol (op : Operator) : isOperatorChar op.symbol = true := by
  cases op <;> rfl

theorem Operator.ofSymbol?_eq_none {c : Char} (h : isOperatorChar c = false) :
    Operator.ofSymbol? c = none := by
  simp only [isOperatorChar, Bool.or_eq_false_iff, Option.isSome_eq_false_iff] at h
  exact Option.isNone_iff_eq_none.mp h.1.1.1

theorem Text.hasOperator_of_mem {text : Text} {c : Char} (hmem : c ∈ text)
    (hc : isOperatorChar c = true) : text.hasOperator = true :=
  List.any_eq_true.mpr ⟨c, hmem, hc⟩

theorem Operand.Spelled.ofSymbol?_eq_none {base : Base} {text : Text} {operand : Operand}
    (h : Operand.Spelled base text operand) : ∀ c ∈ text, Operator.ofSymbol? c = none :=
  fun c hc => Operator.ofSymbol?_eq_none (h.not_operatorChar c hc)

theorem ne_of_not_operatorChar {c : Char} (h : isOperatorChar c = false) :
    c ≠ '~' ∧ c ≠ '<' ∧ c ≠ '>' := by
  refine ⟨?_, ?_, ?_⟩ <;> rintro rfl <;> cases h

/-- The characters of the links of a chain are none of those that belong
to a shift or to a complement. -/
theorem Link.ne_of_mem_flatten {base : Base} {pieces : List Text} {links : List Link}
    (h : List.Forall₂ (Link.Spelled base) pieces links) :
    ∀ c ∈ pieces.flatten, c ≠ '~' ∧ c ≠ '<' ∧ c ≠ '>' := by
  intro c hc
  induction h with
  | nil => cases hc
  | cons hlink _ ih =>
      obtain ⟨op, hoperand⟩ := hlink
      rw [List.flatten_cons, List.mem_append, List.mem_cons] at hc
      rcases hc with (rfl | hc) | hc
      · cases op <;> decide
      · exact ne_of_not_operatorChar (hoperand.not_operatorChar c hc)
      · exact ih hc

/-! ### From the grammar to the reader -/

namespace Expression

/-- A shift is found behind a text that holds neither `<` nor `>`. -/
theorem cutAtShift?_append {before : Text} (h : ∀ c ∈ before, c ≠ '<' ∧ c ≠ '>')
    (direction : Shift) (after : Text) :
    cutAtShift? (before ++ direction.symbol ++ after) = some (before, direction, after) := by
  induction before with
  | nil => cases direction <;> rfl
  | cons c before ih =>
      obtain ⟨hleft, hright⟩ := h c List.mem_cons_self
      have hrest := ih fun d hd => h d (List.mem_cons_of_mem c hd)
      rw [List.cons_append, List.cons_append, cutAtShift?, hrest]
      · rfl
      · exact fun rest hc => absurd hc hleft
      · exact fun rest hc => absurd hc hright

/-- A text that holds neither `<` nor `>` has no shift in it. -/
theorem cutAtShift?_eq_none {text : Text} (h : ∀ c ∈ text, c ≠ '<' ∧ c ≠ '>') :
    cutAtShift? text = none := by
  induction text with
  | nil => rfl
  | cons c rest ih =>
      obtain ⟨hleft, hright⟩ := h c List.mem_cons_self
      rw [cutAtShift?, ih fun d hd => h d (List.mem_cons_of_mem c hd)]
      · rfl
      · exact fun rest hc => absurd hc hleft
      · exact fun rest hc => absurd hc hright

/-- The tokens of a link. -/
def linkTokens (link : Link) : List Token :=
  [.operator link.operator, .operand link.operand.text]

theorem operand?_of_spelled {base : Base} {text : Text} {operand : Operand}
    (h : Operand.Spelled base text operand) :
    Token.operand? text = some (.operand operand.text) := by
  have htrim := h.text_eq
  have hread := (Operand.read_eq_ok_iff base text operand).mpr h
  rw [htrim]
  refine Token.operand?_of_not_allWhite fun hnil => ?_
  -- White space alone is no operand, because it has no digits.
  rw [← Operand.read_trim, hnil] at hread
  exact absurd rfl ((Operand.read_eq_ok_iff base [] operand).mp hread).ne_nil

/-- The tokens of the operands and operators of a chain, in order. -/
theorem ofText_chain {base : Base} {text : Text} {first : Operand} {pieces : List Text}
    {links : List Link} (hfirst : Operand.Spelled base text first)
    (hlinks : List.Forall₂ (Link.Spelled base) pieces links) :
    Token.ofText (text ++ pieces.flatten) = .operand first.text :: links.flatMap linkTokens := by
  induction hlinks generalizing text first with
  | nil =>
      rw [List.flatten_nil, List.append_nil, Token.ofText_of_forall hfirst.ofSymbol?_eq_none,
        operand?_of_spelled hfirst]
      rfl
  | cons hlink _ ih =>
      obtain ⟨op, hoperand⟩ := hlink
      rw [List.flatten_cons, List.cons_append,
        Token.ofText_append_cons hfirst.ofSymbol?_eq_none, operand?_of_spelled hfirst,
        ih hoperand]
      rfl

theorem read_text_of_spelled {base : Base} {text : Text} {operand : Operand}
    (h : Operand.Spelled base text operand) : Operand.read base operand.text = .ok operand := by
  rw [h.text_eq, Operand.read_trim]
  exact (Operand.read_eq_ok_iff base text operand).mpr h

theorem readLinks_of_spelled {base : Base} {pieces : List Text} {links : List Link}
    (h : List.Forall₂ (Link.Spelled base) pieces links) :
    readLinks base (links.flatMap linkTokens) = .ok links := by
  induction h with
  | nil => rfl
  | cons hlink _ ih =>
      obtain ⟨op, hoperand⟩ := hlink
      rw [List.flatMap_cons, linkTokens]
      simp only [List.cons_append, List.nil_append, readLinks, read_text_of_spelled hoperand, ih]
      rfl

/-- A chain has an operator in it: its sign, or the one of its first
link. -/
theorem hasOperator_chain {base : Base} (negated : Bool) (text : Text) {pieces : List Text}
    {links : List Link} (hlinks : List.Forall₂ (Link.Spelled base) pieces links)
    (hsome : negated = true ∨ links ≠ []) :
    Text.hasOperator
      ((if negated then [Operator.subtract.symbol] else []) ++ text ++ pieces.flatten) = true := by
  rcases hsome with rfl | hne
  · exact Text.hasOperator_of_mem (c := '-') (by simp [Operator.symbol]) rfl
  · cases hlinks with
    | nil => exact absurd rfl hne
    | cons hlink _ =>
        obtain ⟨op, -⟩ := hlink
        exact Text.hasOperator_of_mem (c := op.symbol) (by simp) op.isOperatorChar_symbol

/-- The chain is read from its tokens, with the sign in front. -/
theorem readChain_of_spelled {base : Base} (negated : Bool) {text : Text} {first : Operand}
    {pieces : List Text} {links : List Link} (hfirst : Operand.Spelled base text first)
    (hlinks : List.Forall₂ (Link.Spelled base) pieces links) :
    readChain base (Token.ofText
        ((if negated then [Operator.subtract.symbol] else []) ++ text ++ pieces.flatten))
      = .ok (chain negated first links) := by
  have htokens := ofText_chain hfirst hlinks
  have hread := read_text_of_spelled hfirst
  have hreadLinks := readLinks_of_spelled hlinks
  cases negated with
  | false =>
      rw [if_neg Bool.false_ne_true, List.nil_append, htokens]
      simp only [readChain, readFrom, hread, hreadLinks]
      rfl
  | true =>
      -- Nothing stands in front of the minus, so it is the first token.
      have hsign := Token.ofText_append_cons (List.forall_mem_nil _) .subtract
        (text ++ pieces.flatten)
      rw [List.nil_append, htokens] at hsign
      rw [if_pos rfl, List.append_assoc, List.singleton_append, hsign]
      simp only [Token.operand?, Text.trim, Text.trimStart, Text.trimEnd, List.dropWhile_nil,
        List.isEmpty_nil, if_true, Option.toList_none, List.nil_append, readChain, readFrom, hread,
        hreadLinks]
      rfl

/-- No character of a chain belongs to a shift or a complement. -/
theorem ne_of_mem_chain {base : Base} (negated : Bool) {text : Text} {first : Operand}
    {pieces : List Text} {links : List Link} (hfirst : Operand.Spelled base text first)
    (hlinks : List.Forall₂ (Link.Spelled base) pieces links) :
    ∀ c ∈ (if negated then [Operator.subtract.symbol] else []) ++ text ++ pieces.flatten,
      c ≠ '~' ∧ c ≠ '<' ∧ c ≠ '>' := by
  intro c hc
  rw [List.mem_append, List.mem_append] at hc
  rcases hc with (hc | hc) | hc
  · cases negated with
    | false => cases hc
    | true =>
        rw [List.mem_singleton.mp hc]
        decide
  · exact ne_of_not_operatorChar (hfirst.not_operatorChar c hc)
  · exact Link.ne_of_mem_flatten hlinks c hc

/-- A shift is read as such, because neither of its operands holds
another. -/
theorem readTrimmed_shift {base : Base} (direction : Shift) {before after : Text}
    {left right : Operand} (hbefore : Operand.Spelled base before left)
    (hafter : Operand.Spelled base after right) :
    readTrimmed base (before ++ direction.symbol ++ after) = .ok (shift left direction right) := by
  have hplain : ∀ c ∈ before, c ≠ '~' ∧ c ≠ '<' ∧ c ≠ '>' :=
    fun c hc => ne_of_not_operatorChar (hbefore.not_operatorChar c hc)
  have hop : Text.hasOperator (before ++ direction.symbol ++ after) = true := by
    cases direction
    · exact Text.hasOperator_of_mem (c := '<') (by simp [Shift.symbol]) rfl
    · exact Text.hasOperator_of_mem (c := '>') (by simp [Shift.symbol]) rfl
  -- The first character belongs to the left operand.
  have hhead : (before ++ direction.symbol ++ after).head? ≠ some '~' := by
    obtain ⟨c, rest, rfl⟩ := List.exists_cons_of_ne_nil hbefore.ne_nil
    intro heq
    exact (hplain c List.mem_cons_self).1 (Option.some.inj heq)
  have hsides : shiftSides? base (before ++ direction.symbol ++ after)
      = some (before, direction, after) := by
    rw [shiftSides?, cutAtShift?_append (fun c hc => (hplain c hc).2), Option.filter_some]
    simp [hbefore.isOperandText, hafter.isOperandText]
  simp only [readTrimmed, hop, Bool.not_true, Bool.false_eq_true, if_false, hhead, hsides,
    (Operand.read_eq_ok_iff base before left).mpr hbefore,
    (Operand.read_eq_ok_iff base after right).mpr hafter]
  rfl

/-- A chain gets past the two forms that are tried before it. -/
theorem readTrimmed_chain {base : Base} (negated : Bool) {text : Text} {first : Operand}
    {pieces : List Text} {links : List Link} (hfirst : Operand.Spelled base text first)
    (hlinks : List.Forall₂ (Link.Spelled base) pieces links)
    (hsome : negated = true ∨ links ≠ []) :
    readTrimmed base ((if negated then [Operator.subtract.symbol] else []) ++ text
      ++ pieces.flatten) = .ok (chain negated first links) := by
  have hread := readChain_of_spelled negated hfirst hlinks
  have hop := hasOperator_chain negated text hlinks hsome
  have hplain := ne_of_mem_chain negated hfirst hlinks
  generalize (if negated = true then [Operator.subtract.symbol] else []) ++ text
    ++ pieces.flatten = line at hread hop hplain ⊢
  have hhead : line.head? ≠ some '~' := by
    intro heq
    exact (hplain '~' (List.mem_of_mem_head? heq)).1 rfl
  have hsides : shiftSides? base line = none := by
    rw [shiftSides?, cutAtShift?_eq_none fun c hc => (hplain c hc).2]
    rfl
  simp only [readTrimmed, hop, Bool.not_true, Bool.false_eq_true, if_false, hhead, hsides, hread]

/-- What the grammar derives is read, as the expression that the grammar
gives it. -/
theorem readTrimmed_of_spelled {base : Base} {line : Text} {e : Expression}
    (h : Spelled base line e) : readTrimmed base line = .ok e := by
  cases h with
  | @complement text operand hoperand =>
      have hread := (Operand.read_eq_ok_iff base text operand).mpr hoperand
      have hop : Text.hasOperator ('~' :: text) = true :=
        Text.hasOperator_of_mem List.mem_cons_self rfl
      simp only [readTrimmed, hop, Bool.not_true, Bool.false_eq_true, if_false, List.head?_cons,
        if_true, List.tail_cons, hread]
      rfl
  | shift direction hbefore hafter => exact readTrimmed_shift direction hbefore hafter
  | chain negated hfirst hlinks hsome => exact readTrimmed_chain negated hfirst hlinks hsome

/-! ### From the reader to the grammar -/

/-- A calculation in two steps has a result when both steps have one. -/
theorem exists_of_bind_eq_ok {ε α β : Type} {x : Except ε α} {f : α → Except ε β} {b : β}
    (h : x >>= f = .ok b) : ∃ a, x = .ok a ∧ f a = .ok b := by
  cases x with
  | error err => cases h
  | ok a => exact ⟨a, rfl, h⟩

/-- A calculation in two steps fails in the first of them or in the second. -/
theorem bind_eq_error_iff {ε α β : Type} (x : Except ε α) (f : α → Except ε β) (e : ε) :
    x >>= f = .error e ↔ x = .error e ∨ ∃ a, x = .ok a ∧ f a = .error e := by
  constructor
  · intro h
    cases x with
    | error first => exact .inl (congrArg Except.error (Except.error.inj h))
    | ok a => exact .inr ⟨a, rfl, h⟩
  · rintro (rfl | ⟨a, rfl, h⟩)
    · rfl
    · exact h

/-- The links that are read are those of the pieces of the line. A piece
of white space is not passed over: the operators on its two sides would
be neighbours. -/
theorem spelled_of_readLinks {base : Base} {pieces : List (Operator × Text)} {links : List Link}
    (h : readLinks base (pieces.flatMap Token.ofPiece) = .ok links) :
    List.Forall₂ (Link.Spelled base) (pieces.map fun piece => piece.1.symbol :: piece.2)
      links := by
  induction pieces generalizing links with
  | nil =>
      cases h
      exact .nil
  | cons piece pieces ih =>
      obtain ⟨op, text⟩ := piece
      rw [List.flatMap_cons, Token.ofPiece] at h
      cases hoperand : Token.operand? text with
      | none =>
          -- The line ends here, or the next token is an operator: both are errors.
          rw [hoperand] at h
          cases pieces with
          | nil => cases h
          | cons next pieces => cases h
      | some token =>
          have hread : readLinks base (.operator op :: .operand (Text.trim text)
              :: pieces.flatMap Token.ofPiece) = .ok links := by
            rw [hoperand, Token.eq_of_operand?_eq_some hoperand] at h
            exact h
          rw [readLinks, Operand.read_trim] at hread
          obtain ⟨operand, hfirst, hread⟩ := exists_of_bind_eq_ok hread
          obtain ⟨others, hothers, hlinks⟩ := exists_of_bind_eq_ok hread
          cases hlinks
          exact .cons (.intro op ((Operand.read_eq_ok_iff base text operand).mp hfirst))
            (ih hothers)

/-- What `readFrom` reads is an operand and links. -/
theorem spelled_of_readFrom {base : Base} {negated : Bool} {text : Text}
    {pieces : List (Operator × Text)} {e : Expression}
    (h : readFrom base negated (Text.trim text) (pieces.flatMap Token.ofPiece) = .ok e) :
    ∃ first links, e = chain negated first links ∧ Operand.Spelled base text first
      ∧ List.Forall₂ (Link.Spelled base) (pieces.map fun piece => piece.1.symbol :: piece.2)
          links := by
  rw [readFrom, Operand.read_trim] at h
  obtain ⟨first, hfirst, h⟩ := exists_of_bind_eq_ok h
  obtain ⟨links, hlinks, h⟩ := exists_of_bind_eq_ok h
  cases h
  exact ⟨first, links, rfl, (Operand.read_eq_ok_iff base text first).mp hfirst,
    spelled_of_readLinks hlinks⟩

/-- A line with an operator is not a single operand. -/
theorem ne_nil_of_hasOperator {base : Base} {text : Text} {first : Operand} {pieces : List Text}
    {links : List Link} (hfirst : Operand.Spelled base text first)
    (hlinks : List.Forall₂ (Link.Spelled base) pieces links)
    (hop : Text.hasOperator (text ++ pieces.flatten) = true) : links ≠ [] := by
  rintro rfl
  rw [List.forall₂_nil_right_iff.mp hlinks, List.flatten_nil, List.append_nil] at hop
  obtain ⟨c, hc, hcop⟩ := List.any_eq_true.mp hop
  rw [hfirst.not_operatorChar c hc] at hcop
  cases hcop

/-- A line that does not begin with white space has none in front of its
first operator. -/
theorem eq_nil_of_allWhite {text rest : Text} (hwhite : Text.allWhite text = true)
    (hhead : ∀ c ∈ (text ++ rest).head?, Text.isWhite c = false) : text = [] := by
  cases text with
  | nil => rfl
  | cons c others =>
      have hc : Text.isWhite c = true := List.all_eq_true.mp hwhite c List.mem_cons_self
      rw [hhead c rfl] at hc
      cases hc

/-- A chain that is read is derived by the grammar, when its line has an
operator and does not begin with white space. -/
theorem spelled_of_readChain {base : Base} {line : Text} {e : Expression}
    (hop : line.hasOperator = true) (hhead : ∀ c ∈ line.head?, Text.isWhite c = false)
    (h : readChain base (Token.ofText line) = .ok e) : Spelled base line e := by
  have hline := Token.eq_append_flatten_split line
  rw [Token.ofText_eq] at h
  generalize (Token.split line).1 = text at h hline
  generalize (Token.split line).2 = pieces at h hline
  cases hfirst : Token.operand? text with
  | some token =>
      have hread : readFrom base false (Text.trim text) (pieces.flatMap Token.ofPiece) = .ok e := by
        rw [hfirst, Token.eq_of_operand?_eq_some hfirst] at h
        exact h
      obtain ⟨first, links, rfl, htext, hlinks⟩ := spelled_of_readFrom hread
      rw [hline] at hop ⊢
      exact .chain false htext hlinks (.inr (ne_nil_of_hasOperator htext hlinks hop))
  | none =>
      rw [hfirst] at h
      -- White space in front of the sign would be at the head of the line.
      rw [hline] at hhead
      have hnil := eq_nil_of_allWhite ((Token.operand?_eq_none_iff text).mp hfirst) hhead
      subst hnil
      cases pieces with
      | nil => cases h
      | cons piece pieces =>
          obtain ⟨op, after⟩ := piece
          rw [List.flatMap_cons, Token.ofPiece] at h
          cases hafter : Token.operand? after with
          | none =>
              -- No operand follows the first operator, whichever it is.
              rw [hafter] at h
              cases pieces <;> cases op <;> cases h
          | some token =>
              rw [hafter, Token.eq_of_operand?_eq_some hafter] at h
              -- Of the eight operators only the minus may stand in front.
              cases op
              case subtract =>
                obtain ⟨first, links, rfl, htext, hlinks⟩ := spelled_of_readFrom h
                rw [hline, List.map_cons, List.flatten_cons]
                exact .chain true htext hlinks (.inl rfl)
              all_goals cases h

/-- A text is cut at a shift without loss. -/
theorem eq_append_of_cutAtShift? {text before after : Text} {direction : Shift}
    (h : cutAtShift? text = some (before, direction, after)) :
    text = before ++ direction.symbol ++ after := by
  induction text using cutAtShift?.induct generalizing before with
  | case1 => cases h
  | case2 rest =>
      cases h
      rfl
  | case3 rest =>
      cases h
      rfl
  | case4 c rest hleft hright ih =>
      rw [cutAtShift?] at h
      · obtain ⟨⟨before', direction', after'⟩, hrest, heq⟩ := Option.map_eq_some_iff.mp h
        cases heq
        rw [ih hrest]
        rfl
      · exact hleft
      · exact hright

/-- What is read is derived by the grammar, for a line that does not begin
with white space. -/
theorem spelled_of_readTrimmed {base : Base} {line : Text} {e : Expression}
    (hhead : ∀ c ∈ line.head?, Text.isWhite c = false)
    (h : readTrimmed base line = .ok e) : Spelled base line e := by
  unfold readTrimmed at h
  split at h
  · cases h
  · rename_i hop
    simp only [Bool.not_eq_true', Bool.not_eq_false] at hop
    split at h
    · rename_i htilde
      obtain ⟨text, rfl⟩ : ∃ text, line = '~' :: text := by
        cases line with
        | nil => cases htilde
        | cons c text => exact ⟨text, by rw [Option.some.inj htilde]⟩
      rw [List.tail_cons] at h
      cases hread : Operand.read base text with
      | error err =>
          rw [hread] at h
          cases h
      | ok operand =>
          rw [hread] at h
          cases h
          exact .complement ((Operand.read_eq_ok_iff base text operand).mp hread)
    · split at h
      · rename_i before direction after hsides
        obtain ⟨hcut, -⟩ := Option.filter_eq_some_iff.mp hsides
        obtain ⟨left, hleft, h⟩ := exists_of_bind_eq_ok h
        obtain ⟨right, hright, h⟩ := exists_of_bind_eq_ok h
        cases h
        rw [eq_append_of_cutAtShift? hcut]
        exact .shift direction ((Operand.read_eq_ok_iff base before left).mp hleft)
          ((Operand.read_eq_ok_iff base after right).mp hright)
      · exact spelled_of_readChain hop hhead h

/-- A text is at most one expression of a base: it has at most one of the
three forms, and that form gives it one operator and one value after
another. -/
theorem Spelled.unique {base : Base} {line : Text} {e e' : Expression}
    (h : Spelled base line e) (h' : Spelled base line e') : e = e' :=
  Except.ok.inj ((readTrimmed_of_spelled h).symm.trans (readTrimmed_of_spelled h'))

theorem read_eq_ok_iff (base : Base) (line : Text) (e : Expression) :
    read base line = .ok e ↔ Spelled base (Text.trim line) e :=
  ⟨spelled_of_readTrimmed (Text.trimmed_trim line).head, readTrimmed_of_spelled⟩

/-- A line is read in the base with `radix` digits as the expression `e`
exactly when the line without the white space around it is `e` in the
grammar of that base. No text is two expressions of a base, whatever
their forms. Only the three bases are read, and every other number of
digits is answered as such, whatever the line. -/
theorem readRadix_eq_ok_iff_spelled (radix : Nat) (line : Text) :
    (∀ e, readRadix radix line = .ok e
      ↔ ∃ base : Base, base.radix = radix ∧ Spelled base (Text.trim line) e)
    ∧ (∀ (base : Base) (text : Text) (e e' : Expression),
        Spelled base text e → Spelled base text e' → e = e')
    ∧ (radix ∉ [2, 10, 16] → readRadix radix line = .error (.unsupportedRadix radix)) := by
  refine ⟨fun e => ?_, fun base text e e' => Spelled.unique, fun hradix => ?_⟩
  · unfold readRadix
    cases hbase : Base.ofRadix? radix with
    | none =>
        constructor
        · intro h
          cases h
        · rintro ⟨base, rfl, -⟩
          rw [Base.ofRadix?_radix] at hbase
          cases hbase
    | some base =>
        have hradix := Base.radix_of_ofRadix? hbase
        constructor
        · exact fun h => ⟨base, hradix, (read_eq_ok_iff base line e).mp h⟩
        · rintro ⟨other, rfl, h⟩
          rw [Base.ofRadix?_radix] at hbase
          cases hbase
          exact (read_eq_ok_iff base line e).mpr h
  · have hnone : Base.ofRadix? radix = none := by
      cases hbase : Base.ofRadix? radix with
      | none => rfl
      | some base =>
          have hsupported : ∀ other : Base, other.radix ∈ [2, 10, 16] := by
            intro other
            cases other <;> decide
          rw [← Base.radix_of_ofRadix? hbase] at hradix
          exact absurd (hsupported base) hradix
    rw [readRadix, hnone]

/-- The cut in front of a shift is given up when the text behind it is no
operand, and the chain then refuses the shift. -/
example : readRadix 10 "1 << 2 + 3".toList
    = .error (.invalidOperand "1 << 2".toList .decimal) := by rfl

end Expression

end BaseConverter

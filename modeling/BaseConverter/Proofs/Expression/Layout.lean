import BaseConverter.Group.Basic
import BaseConverter.Proofs.Expression.Padding
import BaseConverter.Proofs.Expression.Rendering
import BaseConverter.Proofs.Text.Stretch

/-!
# `BaseConverter.Proofs.Expression.Layout`: the operands in the text of a line

A line is cut twice: its reader cuts it at the operators that it knows,
and a pointer cuts it at every character that may belong to an operator or
is an equals sign. This module shows that the second cut finds the operands
of the expression again, in the text as it was typed and as it is rendered
in the other bases.

`Expression.laidOut` is the text of an expression with each operand spelled
in a way of the caller's choice. A line without white space is laid out
with the texts of its operands (`Spelled.eq_laidOut`), a rendered one with
the written forms of their values (`render_eq_laidOut`). One statement
covers both: `operandPieces_laidOut`, for a line with an equals sign and a result
behind it. A minus in front of an operand or of the result stands next to
an operator or to the equals sign, or at the head of the line, and makes
no piece of its own (`ShowsRun`).
-/

set_option autoImplicit false

namespace BaseConverter

/-- The pieces of a text between the characters that separate operands. -/
def Text.operandPieces (text : Text) : List Text :=
  text.pieces fun c => !separatesOperands c

/-- A text is a row of characters that separate no operands, behind others
that do. -/
structure Text.ShowsRun (text run : Text) : Prop where
  nonempty : run ≠ []
  inside : ∀ c ∈ run, separatesOperands c = false
  lead : ∃ lead, text = lead ++ run ∧ ∀ c ∈ lead, separatesOperands c = true

namespace Text

/-- Characters that separate operands make no piece at the head of a
text. -/
theorem operandPieces_append_lead {lead : Text} (h : ∀ c ∈ lead, separatesOperands c = true)
    (rest : Text) : operandPieces (lead ++ rest) = operandPieces rest := by
  induction lead with
  | nil => rfl
  | cons c lead ih =>
      have hc : (!separatesOperands c) = false := by rw [h c List.mem_cons_self]; rfl
      rw [List.cons_append, operandPieces, pieces_cons (lead ++ rest) hc]
      exact ih fun d hd => h d (List.mem_cons_of_mem c hd)

/-- A text that separates nothing is its own run. -/
theorem showsRun_self {text : Text} (hne : text ≠ [])
    (h : ∀ c ∈ text, separatesOperands c = false) : ShowsRun text text :=
  ⟨hne, h, [], rfl, List.forall_mem_nil _⟩

namespace ShowsRun

variable {text run : Text}

theorem not_separates (h : ShowsRun text run) : ∀ c ∈ run, (!separatesOperands c) = true := by
  intro c hc
  rw [h.inside c hc]
  rfl

/-- At the end of a line it is one piece. -/
theorem operandPieces_eq (h : ShowsRun text run) : operandPieces text = [run] := by
  obtain ⟨lead, rfl, hlead⟩ := h.lead
  rw [operandPieces_append_lead hlead]
  exact pieces_of_forall h.nonempty h.not_separates

/-- In front of a character that separates operands it is one piece. -/
theorem operandPieces_append_cons (h : ShowsRun text run) {c : Char}
    (hc : separatesOperands c = true) (after : Text) :
    operandPieces (text ++ c :: after) = run :: operandPieces after := by
  obtain ⟨lead, rfl, hlead⟩ := h.lead
  rw [List.append_assoc, operandPieces_append_lead hlead]
  exact pieces_append_cons after h.nonempty h.not_separates (by rw [hc]; rfl)

end ShowsRun

end Text

/-! ### Lines -/

namespace Expression

/-- The text of an expression with every operand spelled by `spell`. -/
def laidOut (spell : Operand → Text) : Expression → Text
  | complement operand => '~' :: spell operand
  | shift left direction right => spell left ++ direction.symbol ++ spell right
  | chain negated first links =>
    (if negated then [Operator.subtract.symbol] else []) ++ spell first
      ++ links.flatMap fun link => link.operator.symbol :: spell link.operand

theorem render_eq_laidOut (write : Word → Text) (e : Expression) :
    e.render write = e.laidOut fun operand => write operand.value := by
  cases e <;> rfl

theorem separates_of_isOperatorChar {c : Char} (h : isOperatorChar c = true) :
    separatesOperands c = true := by
  rw [separatesOperands, h]
  rfl

theorem separates_symbol (op : Operator) : separatesOperands op.symbol = true :=
  separates_of_isOperatorChar op.isOperatorChar_symbol

/-- The pieces of a chain from one operand on. -/
theorem operandPieces_links {spell run : Operand → Text} {result shown : Text} {links : List Link}
    (hlinks : ∀ link ∈ links, (spell link.operand).ShowsRun (run link.operand))
    (hresult : result.ShowsRun shown) :
    ∀ first : Operand, (spell first).ShowsRun (run first) →
      Text.operandPieces (spell first
          ++ ((links.flatMap fun link => link.operator.symbol :: spell link.operand)
            ++ '=' :: result))
        = run first :: (links.map fun link => run link.operand) ++ [shown] := by
  induction links with
  | nil =>
      intro first hfirst
      show Text.operandPieces (spell first ++ '=' :: result) = _
      rw [hfirst.operandPieces_append_cons (by decide), hresult.operandPieces_eq]
      rfl
  | cons link links ih =>
      intro first hfirst
      obtain ⟨hlink, hrest⟩ := List.forall_mem_cons.mp hlinks
      have hnext := ih hrest link.operand hlink
      rw [List.flatMap_cons, List.cons_append, List.cons_append,
        hfirst.operandPieces_append_cons (separates_symbol link.operator), List.append_assoc, hnext]
      rfl

/-- Both characters of a shift separate operands. -/
theorem operandPieces_shift (direction : Shift) {text run : Text} (h : text.ShowsRun run)
    (after : Text) :
    Text.operandPieces (text ++ (direction.symbol ++ after)) = run :: Text.operandPieces after := by
  obtain ⟨c, hsymbol, hc⟩ := direction.exists_symbol_eq
  have hseparates := separates_of_isOperatorChar hc
  -- The first of them ends the run, and the second makes no run of its own.
  rw [hsymbol]
  show Text.operandPieces (text ++ c :: ([c] ++ after)) = _
  rw [h.operandPieces_append_cons hseparates,
    Text.operandPieces_append_lead (List.forall_mem_singleton.mpr hseparates)]

/-- The pieces of a line with its result are the operands in order, and
the result. -/
theorem operandPieces_laidOut {spell run : Operand → Text} {result shown : Text} (e : Expression)
    (hoperands : ∀ operand ∈ e.operands, (spell operand).ShowsRun (run operand))
    (hresult : result.ShowsRun shown) :
    Text.operandPieces (e.laidOut spell ++ '=' :: result) = e.operands.map run ++ [shown] := by
  cases e with
  | complement operand =>
      have hoperand := hoperands operand (by simp [operands])
      show Text.operandPieces (['~'] ++ (spell operand ++ '=' :: result)) = _
      rw [Text.operandPieces_append_lead (List.forall_mem_singleton.mpr (by decide)),
        hoperand.operandPieces_append_cons (by decide), hresult.operandPieces_eq]
      rfl
  | shift left direction right =>
      have hleft := hoperands left (by simp [operands])
      have hright := hoperands right (by simp [operands])
      rw [laidOut, List.append_assoc, List.append_assoc, operandPieces_shift direction hleft,
        hright.operandPieces_append_cons (by decide), hresult.operandPieces_eq]
      rfl
  | chain negated first links =>
      have hfirst := hoperands first List.mem_cons_self
      have hlinks : ∀ link ∈ links, (spell link.operand).ShowsRun (run link.operand) := by
        intro link hlink
        exact hoperands link.operand (List.mem_cons_of_mem first (List.mem_map_of_mem hlink))
      have hsign : ∀ c ∈ (if negated then [Operator.subtract.symbol] else []),
          separatesOperands c = true := by
        cases negated with
        | false => exact List.forall_mem_nil _
        | true => exact List.forall_mem_singleton.mpr (separates_symbol .subtract)
      rw [laidOut, List.append_assoc, List.append_assoc, Text.operandPieces_append_lead hsign,
        operandPieces_links hlinks hresult first hfirst]
      simp [operands]

end Expression

/-! ### Operands as they are written and as they were typed -/

/-- A text without a minus at its head. -/
def Text.withoutMinus : Text → Text
  | '-' :: rest => rest
  | text => text

theorem Text.withoutMinus_eq_self {text : Text} (h : ∀ c ∈ text, separatesOperands c = false) :
    withoutMinus text = text := by
  unfold withoutMinus
  split
  · exact absurd (h '-' List.mem_cons_self) (by decide)
  · rfl

/-- The minus of a negative decimal number is the only character of a
written word that separates operands, and it stands at the head. -/
theorem Base.showsRun_write (base : Base) (word : Word) :
    (base.write word).ShowsRun (Text.withoutMinus (base.write word)) := by
  by_cases hsigned : base = .decimal ∧ word.toInt < 0
  · obtain ⟨rfl, hneg⟩ := hsigned
    have hwrite : decimal.write word = '-' :: decimal.shownDigits word := by
      rw [write_eq, lead, if_pos hneg]
      rfl
    have hdigits : ∀ c ∈ decimal.shownDigits word, separatesOperands c = false := by
      intro c hc
      exact not_separates_of_isDigit (decimal.isDigit_of_mem_shownDigits word c hc)
    rw [hwrite]
    exact ⟨decimal.shownDigits_ne_nil word, hdigits, ['-'], rfl,
      List.forall_mem_singleton.mpr (by decide)⟩
  · have hsign : base ≠ .decimal ∨ 0 ≤ word.toInt := by
      rw [← Int.not_lt]
      exact not_and_or.mp hsigned
    have hinside := not_separates_of_mem_write hsign
    rw [Text.withoutMinus_eq_self hinside]
    exact Text.showsRun_self (base.write_ne_nil word) hinside

/-- The text of an operand separates nothing. -/
theorem Operand.Spelled.showsRun {base : Base} {text : Text} {operand : Operand}
    (h : Operand.Spelled base text operand) : operand.text.ShowsRun operand.text := by
  have hne : operand.text ≠ [] := by
    rw [h.text_eq]
    exact (h.of_trim_eq (Text.trim_trim text)).ne_nil
  obtain ⟨-, hmarked, -, hall, -⟩ := h
  refine Text.showsRun_self hne ?_
  exact hmarked.forall_mem (p := fun c => separatesOperands c = false) (by decide)
    fun c hc => Base.not_separates_of_isDigit (hall c hc)

namespace Expression

variable {base : Base}

/-- Without white space an operand is spelled by its text. -/
theorem text_eq_of_not_white {text : Text} {operand : Operand}
    (h : Operand.Spelled base text operand) (hwhite : ∀ c ∈ text, Text.isWhite c = false) :
    text = operand.text := by
  rw [h.text_eq, Text.trim_eq_self_of_forall hwhite]

/-- The operand of every link is spelled in one of the pieces. -/
theorem exists_spelled_of_links {pieces : List Text} {links : List Link}
    (h : List.Forall₂ (Link.Spelled base) pieces links) :
    ∀ link ∈ links, ∃ text, Operand.Spelled base text link.operand := by
  induction h with
  | nil => exact List.forall_mem_nil _
  | cons hlink _ ih =>
      obtain ⟨op, hoperand⟩ := hlink
      exact List.forall_mem_cons.mpr ⟨⟨_, hoperand⟩, ih⟩

/-- Every operand of an expression in the grammar is spelled somewhere in
its line. -/
theorem Spelled.exists_spelled {line : Text} {e : Expression} (h : Spelled base line e) :
    ∀ operand ∈ e.operands, ∃ text, Operand.Spelled base text operand := by
  intro operand hmem
  cases h with
  | complement hoperand =>
      rw [List.mem_singleton.mp hmem]
      exact ⟨_, hoperand⟩
  | shift direction hbefore hafter =>
      rcases List.mem_cons.mp hmem with rfl | hmem
      · exact ⟨_, hbefore⟩
      · rw [List.mem_singleton.mp hmem]
        exact ⟨_, hafter⟩
  | chain negated hfirst hlinks _ =>
      rcases List.mem_cons.mp hmem with rfl | hmem
      · exact ⟨_, hfirst⟩
      · obtain ⟨link, hlink, rfl⟩ := List.mem_map.mp hmem
        exact exists_spelled_of_links hlinks link hlink

/-- Links without white space are laid out with the texts of their
operands. -/
theorem flatten_eq_of_not_white {pieces : List Text} {links : List Link}
    (h : List.Forall₂ (Link.Spelled base) pieces links)
    (hwhite : ∀ c ∈ pieces.flatten, Text.isWhite c = false) :
    pieces.flatten = links.flatMap fun link => link.operator.symbol :: link.operand.text := by
  induction h with
  | nil => rfl
  | cons hlink _ ih =>
      obtain ⟨op, hoperand⟩ := hlink
      rw [List.flatten_cons] at hwhite ⊢
      obtain ⟨hpiece, hrest⟩ := List.forall_mem_append.mp hwhite
      have htext := text_eq_of_not_white hoperand (List.forall_mem_cons.mp hpiece).2
      rw [ih hrest, htext]
      rfl

/-- A line without white space is laid out with the texts of its
operands. -/
theorem Spelled.eq_laidOut {line : Text} {e : Expression} (h : Spelled base line e)
    (hwhite : ∀ c ∈ line, Text.isWhite c = false) : line = e.laidOut Operand.text := by
  cases h with
  | complement hoperand =>
      rw [text_eq_of_not_white hoperand (List.forall_mem_cons.mp hwhite).2]
      rfl
  | shift direction hbefore hafter =>
      obtain ⟨hfront, hright⟩ := List.forall_mem_append.mp hwhite
      obtain ⟨hleft, -⟩ := List.forall_mem_append.mp hfront
      rw [text_eq_of_not_white hbefore hleft, text_eq_of_not_white hafter hright]
      rfl
  | chain negated hfirst hlinks _ =>
      obtain ⟨hfront, hback⟩ := List.forall_mem_append.mp hwhite
      obtain ⟨-, htext⟩ := List.forall_mem_append.mp hfront
      rw [text_eq_of_not_white hfirst htext, flatten_eq_of_not_white hlinks hback]
      rfl

end Expression

end BaseConverter

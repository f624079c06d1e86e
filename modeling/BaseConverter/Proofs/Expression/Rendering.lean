import BaseConverter.Expression.Value
import BaseConverter.Proofs.Expression.Grammar

/-!
# `BaseConverter.Proofs.Expression.Rendering`: one line in three bases

A line that was read in one base is rendered in the others, and the
rendered lines are read again: by a person who goes on typing in another
field, and by the pointer that looks for the operands. In hexadecimal and
binary an operand is a pattern of bits, so every rendered line is read as
the expression that it was rendered from. A decimal operand has no sign.
There the line is read as the same expression exactly when no operand of
it is negative.

The first half goes through the grammar: `Spelled.render` writes a
derivation for the rendered line, given that every written operand is an
operand (`spelled_write`).

For the second half the characters of operators are counted. The
expression alone tells how many a line of it has
(`Spelled.countP_isOperatorChar`); the minus of a negative operand is one
too many, wherever it stands (`countP_render`). So the five places where
a minus could stand need not be looked at one by one.

* `readRadix_render` is the main statement.
-/

set_option autoImplicit false

namespace BaseConverter

namespace Expression

/-- The expression with the texts of its operands replaced by the
written forms of their values. -/
def rewritten (write : Word → Text) : Expression → Expression
  | complement operand => complement ⟨write operand.value, operand.value⟩
  | shift left direction right =>
    shift ⟨write left.value, left.value⟩ direction ⟨write right.value, right.value⟩
  | chain negated first links =>
    chain negated ⟨write first.value, first.value⟩
      (links.map fun link => ⟨link.operator, ⟨write link.operand.value, link.operand.value⟩⟩)

/-- Two expressions agree when they have the same form, sign, operators
and values. The texts of the operands may differ. -/
def Agrees (e e' : Expression) : Prop :=
  e.rewritten (fun _ => []) = e'.rewritten fun _ => []

instance (e e' : Expression) : Decidable (Agrees e e') :=
  inferInstanceAs (Decidable (_ = _))

/-- The number of characters of operators in a line of an expression. -/
def operatorCount : Expression → Nat
  | complement _ => 1
  | shift .. => 2
  | chain negated _ links => (if negated then 1 else 0) + links.length

theorem rewritten_rewritten (write write' : Word → Text) (e : Expression) :
    (e.rewritten write).rewritten write' = e.rewritten write' := by
  cases e <;> simp [rewritten]

theorem agrees_rewritten (write : Word → Text) (e : Expression) : (e.rewritten write).Agrees e :=
  rewritten_rewritten write _ e

theorem operatorCount_rewritten (write : Word → Text) (e : Expression) :
    (e.rewritten write).operatorCount = e.operatorCount := by
  cases e <;> simp [rewritten, operatorCount]

/-- The texts of the operands have no part in the value. -/
theorem value_rewritten (write : Word → Text) (e : Expression) :
    (e.rewritten write).value = e.value := by
  -- Every link looks at the value before it, so the start has to be any.
  have hfollow : ∀ (links : List Link) (start : Word),
      follow start (links.map fun link =>
        ⟨link.operator, ⟨write link.operand.value, link.operand.value⟩⟩) = follow start links := by
    intro links
    induction links with
    | nil => exact fun start => rfl
    | cons link links ih =>
        intro start
        simp only [List.map_cons, follow]
        cases link.operator.apply start link.operand.value with
        | ok next => exact ih next
        | error err => rfl
  cases e with
  | complement operand => rfl
  | shift left direction right => rfl
  | chain negated first links =>
      cases negated with
      | false => exact hfollow links first.value
      | true =>
          simp only [rewritten, value]
          cases first.value.negate with
          | ok start => exact hfollow links start
          | error err => rfl

theorem Agrees.value_eq {e e' : Expression} (h : e.Agrees e') : e.value = e'.value := by
  rw [← value_rewritten (fun _ => []) e, h, value_rewritten]

theorem Agrees.operatorCount_eq {e e' : Expression} (h : e.Agrees e') :
    e.operatorCount = e'.operatorCount := by
  rw [← operatorCount_rewritten (fun _ => []) e, h, operatorCount_rewritten]

end Expression

/-! ### Written words as operands -/

namespace Base

/-- The numbers of a base are patterns of bits, or those of the words
that are not negative. -/
theorem magnitude_lt_operandLimit {base : Base} {word : Word}
    (h : base ≠ .decimal ∨ 0 ≤ word.toInt) : base.magnitude word < base.operandLimit := by
  cases base with
  | decimal =>
      have hsign : 0 ≤ word.toInt := h.resolve_left fun hne => hne rfl
      have hlt := BitVec.toInt_lt (x := word)
      simp only [magnitude, operandLimit, Word.positiveCount]
      omega
  | hex => exact word.isLt
  | binary => exact word.isLt

/-- A word is the word of its magnitude, unless it is written with a
sign. -/
theorem ofNat_magnitude {base : Base} {word : Word} (h : base ≠ .decimal ∨ 0 ≤ word.toInt) :
    BitVec.ofNat 64 (base.magnitude word) = word := by
  cases base with
  | decimal =>
      have hsign : 0 ≤ word.toInt := h.resolve_left fun hne => hne rfl
      rw [magnitude, ← BitVec.ofInt_natCast, Int.natAbs_of_nonneg hsign, BitVec.ofInt_toInt]
  | hex => simp [magnitude]
  | binary => simp [magnitude]

/-- The written form of a word is an operand, unless it begins with a
minus. -/
theorem spelled_write {base : Base} {word : Word} (h : base ≠ .decimal ∨ 0 ≤ word.toInt) :
    Operand.Spelled base (base.write word) ⟨base.write word, word⟩ := by
  have hmarked : base.Marked (base.shownDigits word) (base.write word) := by
    rw [write_eq]
    cases base with
    | decimal =>
        have hsign : ¬word.toInt < 0 := by
          have := h.resolve_left fun hne => hne rfl
          omega
        rw [lead, if_neg hsign]
        exact .bare _ _
    | hex => exact .small _
    | binary => exact .bare _ _
  have hspelled : Operand.Spelled base (base.write word)
      ⟨base.write word, BitVec.ofNat 64 (base.placeValue (base.shownDigits word))⟩ :=
    .intro ⟨[], [], rfl, rfl, by simp⟩ hmarked (base.shownDigits_ne_nil word)
      (base.isDigit_of_mem_shownDigits word)
      (by rw [placeValue_shownDigits]; exact magnitude_lt_operandLimit h)
  rwa [placeValue_shownDigits, ofNat_magnitude h] at hspelled

/-- The written form of a negative decimal number has a minus in it. -/
theorem exists_operatorChar_write {word : Word} (h : word.toInt < 0) :
    ∃ c ∈ decimal.write word, isOperatorChar c = true := by
  refine ⟨'-', ?_, rfl⟩
  rw [write_eq, lead, if_pos h]
  exact List.mem_cons_self

end Base

/-! ### Rendered lines -/

namespace Expression

/-- Rendered links are links, when every operand of them is one. -/
theorem forall₂_render {base : Base} {write : Word → Text} {links : List Link}
    (hwrite : ∀ link ∈ links, Operand.Spelled base (write link.operand.value)
      ⟨write link.operand.value, link.operand.value⟩) :
    List.Forall₂ (Link.Spelled base)
      (links.map fun link => link.operator.symbol :: write link.operand.value)
      (links.map fun link => ⟨link.operator, ⟨write link.operand.value, link.operand.value⟩⟩) := by
  induction links with
  | nil => exact .nil
  | cons link links ih =>
      obtain ⟨hfirst, hrest⟩ := List.forall_mem_cons.mp hwrite
      exact .cons (.intro link.operator hfirst) (ih hrest)

/-- A rendered line is the expression in the grammar of its base, when
every operand is. -/
theorem Spelled.render {base base' : Base} {line : Text} {e : Expression}
    (h : Spelled base line e) {write : Word → Text}
    (hwrite : ∀ operand ∈ e.operands,
      Operand.Spelled base' (write operand.value) ⟨write operand.value, operand.value⟩) :
    Spelled base' (e.render write) (e.rewritten write) := by
  cases h with
  | @complement text operand _ => exact .complement (hwrite operand (by simp [operands]))
  | @shift direction before after left right _ _ =>
      exact .shift direction (hwrite left (by simp [operands])) (hwrite right (by simp [operands]))
  | @chain negated text first pieces links _ _ hsome =>
      have hfirst := hwrite first List.mem_cons_self
      have hlinks : ∀ link ∈ links, Operand.Spelled base' (write link.operand.value)
          ⟨write link.operand.value, link.operand.value⟩ := by
        intro link hlink
        exact hwrite link.operand (List.mem_cons_of_mem first (List.mem_map_of_mem hlink))
      rw [Expression.render, List.flatMap_def]
      refine .chain negated hfirst (forall₂_render hlinks) ?_
      -- The sign and the number of links are those of the line that was read.
      simpa using hsome

/-! ### Counting the characters of operators -/

theorem countP_of_spelled {base : Base} {text : Text} {operand : Operand}
    (h : Operand.Spelled base text operand) : text.countP isOperatorChar = 0 := by
  rw [List.countP_eq_zero]
  intro c hc
  rw [h.not_operatorChar c hc]
  exact Bool.false_ne_true

/-- Each link has one operator, of one character. -/
theorem countP_flatten {base : Base} {pieces : List Text} {links : List Link}
    (h : List.Forall₂ (Link.Spelled base) pieces links) :
    pieces.flatten.countP isOperatorChar = links.length := by
  induction h with
  | nil => rfl
  | cons hlink _ ih =>
      obtain ⟨op, hoperand⟩ := hlink
      rw [List.flatten_cons, List.countP_append, List.countP_cons, countP_of_spelled hoperand,
        op.isOperatorChar_symbol, ih, List.length_cons]
      exact Nat.add_comm _ _

/-- The line of an expression has as many characters of operators as the
expression tells, in every base. -/
theorem Spelled.countP_isOperatorChar {base : Base} {line : Text} {e : Expression}
    (h : Spelled base line e) : line.countP isOperatorChar = e.operatorCount := by
  cases h with
  | complement hoperand =>
      rw [List.countP_cons, countP_of_spelled hoperand]
      rfl
  | shift direction hbefore hafter =>
      rw [List.countP_append, List.countP_append, countP_of_spelled hbefore,
        countP_of_spelled hafter]
      cases direction <;> rfl
  | chain negated hfirst hlinks _ =>
      rw [List.countP_append, List.countP_append, countP_of_spelled hfirst, countP_flatten hlinks]
      cases negated <;> rfl

/-- Rendered links have one operator each, and the characters of their
written operands. -/
theorem countP_flatMap_links (write : Word → Text) (links : List Link) :
    (links.flatMap fun link => link.operator.symbol :: write link.operand.value).countP
        isOperatorChar
      = links.length
        + (links.flatMap fun link => write link.operand.value).countP isOperatorChar := by
  induction links with
  | nil => rfl
  | cons link links ih =>
      simp only [List.flatMap_cons, List.countP_append, List.countP_cons, ih, List.length_cons,
        link.operator.isOperatorChar_symbol, if_true]
      omega

/-- A rendered line has the characters of operators that the expression
tells, and those of the written operands. -/
theorem countP_render (write : Word → Text) (e : Expression) :
    (e.render write).countP isOperatorChar = e.operatorCount
      + (e.operands.flatMap fun operand => write operand.value).countP isOperatorChar := by
  cases e with
  | complement operand =>
      have htilde : isOperatorChar '~' = true := rfl
      simp only [render, operands, operatorCount, List.flatMap_cons, List.flatMap_nil,
        List.append_nil, List.countP_cons, htilde, if_true]
      omega
  | shift left direction right =>
      have hsymbol : direction.symbol.countP isOperatorChar = 2 := by cases direction <;> rfl
      simp only [render, operands, operatorCount, List.flatMap_cons, List.flatMap_nil,
        List.append_nil, List.countP_append, hsymbol]
      omega
  | chain negated first links =>
      have hsign : (if negated then [Operator.subtract.symbol] else []).countP isOperatorChar
          = if negated then 1 else 0 := by
        cases negated <;> rfl
      simp only [render, operands, operatorCount, List.flatMap_cons, List.flatMap_map,
        List.countP_append, countP_flatMap_links, hsign]
      omega

/-- A character of a rendered chain is an operator, or stands in a written
operand. -/
theorem exists_of_mem_render_chain {write : Word → Text} {negated : Bool} {first : Operand}
    {links : List Link} {c : Char} (hc : c ∈ (chain negated first links).render write) :
    (∃ op : Operator, c = op.symbol) ∨ ∃ word, c ∈ write word := by
  rw [render, List.mem_append, List.mem_append] at hc
  rcases hc with (hc | hc) | hc
  · split at hc
    · exact .inl ⟨.subtract, List.mem_singleton.mp hc⟩
    · cases hc
  · exact .inr ⟨_, hc⟩
  · obtain ⟨link, -, hlink⟩ := List.mem_flatMap.mp hc
    rcases List.mem_cons.mp hlink with rfl | hlink
    · exact .inl ⟨_, rfl⟩
    · exact .inr ⟨_, hlink⟩

/-- What holds of the characters of operators and of those of every written
word holds of a rendered line. -/
theorem of_mem_render {write : Word → Text} {p : Char → Prop}
    (hop : ∀ c, isOperatorChar c = true → p c) (hwrite : ∀ word, ∀ c ∈ write word, p c)
    (e : Expression) : ∀ c ∈ e.render write, p c := by
  intro c hc
  cases e with
  | complement operand =>
      rcases List.mem_cons.mp hc with rfl | hc
      · exact hop '~' rfl
      · exact hwrite _ c hc
  | shift left direction right =>
      obtain ⟨d, hsymbol, hd⟩ := direction.exists_symbol_eq
      rw [render, hsymbol, List.mem_append, List.mem_append] at hc
      rcases hc with (hc | hc) | hc
      · exact hwrite _ c hc
      · have heq : c = d := by simpa using hc
        exact hop c (heq ▸ hd)
      · exact hwrite _ c hc
  | chain negated first links =>
      rcases exists_of_mem_render_chain hc with ⟨op, rfl⟩ | ⟨word, hword⟩
      · exact hop _ op.isOperatorChar_symbol
      · exact hwrite word c hword

/-- There is no white space in a rendered line. -/
theorem not_white_of_mem_render {write : Word → Text}
    (hwrite : ∀ word, ∀ c ∈ write word, Text.isWhite c = false) (e : Expression) :
    ∀ c ∈ e.render write, Text.isWhite c = false :=
  e.of_mem_render (fun _ => not_white_of_isOperatorChar) hwrite

/-- A rendered line is trimmed already, so it is read as it stands. -/
theorem read_render_iff (base : Base) (e e' : Expression) :
    read base (e.render base.write) = .ok e' ↔ Spelled base (e.render base.write) e' := by
  rw [read_eq_ok_iff,
    Text.trim_eq_self_of_forall (e.not_white_of_mem_render base.not_white_of_mem_write)]

/-- A line of an expression is rendered in another base and read again.
In hexadecimal and binary it is read as the expression that agrees with
the first, and so has the same value or the same error. In decimal it is
read as an expression that agrees exactly when no operand is negative. -/
theorem readRadix_render (radix : Nat) (line : Text) (e : Expression)
    (h : readRadix radix line = .ok e) :
    (∃ e', readRadix 16 (e.render Base.hex.write) = .ok e' ∧ e'.Agrees e ∧ e'.value = e.value)
    ∧ (∃ e', readRadix 2 (e.render Base.binary.write) = .ok e' ∧ e'.Agrees e
        ∧ e'.value = e.value)
    ∧ ((∃ e', readRadix 10 (e.render Base.decimal.write) = .ok e' ∧ e'.Agrees e)
        ↔ ∀ operand ∈ e.operands, 0 ≤ operand.value.toInt) := by
  obtain ⟨base, hspelled⟩ : ∃ base, Spelled base (Text.trim line) e := by
    unfold readRadix at h
    split at h
    · rename_i base _
      exact ⟨base, (read_eq_ok_iff base line e).mp h⟩
    · cases h
  -- Wherever all operands can be written, the rendered line is read as the same expression.
  have hread : ∀ base', (∀ operand ∈ e.operands, base' ≠ .decimal ∨ 0 ≤ operand.value.toInt) →
      ∃ e', read base' (e.render base'.write) = .ok e' ∧ e'.Agrees e ∧ e'.value = e.value := by
    intro base' hwrite
    have hrender := hspelled.render fun operand hmem => Base.spelled_write (hwrite operand hmem)
    have hagrees := agrees_rewritten base'.write e
    exact ⟨e.rewritten base'.write, (read_render_iff base' e _).mpr hrender, hagrees,
      hagrees.value_eq⟩
  refine ⟨hread .hex fun _ _ => .inl nofun, hread .binary fun _ _ => .inl nofun, ?_, ?_⟩
  · rintro ⟨e', hdecimal, hagrees⟩ operand hmem
    have hcount := ((read_render_iff .decimal e e').mp hdecimal).countP_isOperatorChar
    rw [countP_render, hagrees.operatorCount_eq] at hcount
    -- No character of an operator is left for the operands.
    have hnone : (e.operands.flatMap fun operand => Base.decimal.write operand.value).countP
        isOperatorChar = 0 := by
      omega
    by_contra hneg
    obtain ⟨c, hc, hop⟩ := Base.exists_operatorChar_write (Int.not_le.mp hneg)
    exact List.countP_eq_zero.mp hnone c (List.mem_flatMap.mpr ⟨operand, hmem, hc⟩) hop
  · intro hsign
    obtain ⟨e', hdecimal, hagrees, -⟩ := hread .decimal fun operand hmem =>
      .inr (hsign operand hmem)
    exact ⟨e', hdecimal, hagrees⟩

/-- The line `-FFFFFFFFFFFFFFFF*0x0a` negates minus one. Rendered in
decimal it has two operators in a row and does not come back. -/
theorem readRadix_render_minus_one :
    let e := chain true ⟨"FFFFFFFFFFFFFFFF".toList, -1⟩ [⟨.multiply, ⟨"0x0a".toList, 10⟩⟩]
    readRadix 16 "-FFFFFFFFFFFFFFFF*0x0a".toList = .ok e
    ∧ (∃ e', readRadix 16 (e.render Base.hex.write) = .ok e' ∧ e'.Agrees e ∧ e'.value = e.value)
    ∧ (∃ e', readRadix 2 (e.render Base.binary.write) = .ok e' ∧ e'.Agrees e
        ∧ e'.value = e.value)
    ∧ ¬ ∃ e', readRadix 10 (e.render Base.decimal.write) = .ok e' ∧ e'.Agrees e := by
  intro e
  have hread : readRadix 16 "-FFFFFFFFFFFFFFFF*0x0a".toList = .ok e := by rfl
  obtain ⟨hhex, hbinary, hdecimal⟩ := readRadix_render 16 _ e hread
  refine ⟨hread, hhex, hbinary, ?_⟩
  rw [hdecimal]
  decide

end Expression

end BaseConverter

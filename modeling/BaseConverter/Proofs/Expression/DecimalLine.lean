import BaseConverter.Proofs.Expression.Complete
import BaseConverter.Proofs.Expression.Layout

/-!
# `BaseConverter.Proofs.Expression.DecimalLine`: the lines that decimal can write

Operands have no sign, but a negative value is written with a minus in
decimal. A rendered line with such an operand is read as the same
expression only by chance, and mostly not at all. It may still be read with
the same value: a minus at the head of a chain negates its first operand,
so a chain that begins with a negative operand is read as the negation of
the opposite operand.

`Expression.HasDecimalLine` tells when this works:

* `Expression.Spelled.exists_read_of_hasDecimalLine`: then the rendered line
  is read, with the value of the expression.
* `Expression.hasDecimalLine_of_read_render`: no other rendered line is read.
  The characters of operators are counted for this. A line that is read has
  no more of them than operands, and the operands are those that were
  rendered (`Expression.texts_of_read_render`).
* `Expression.Spelled.read_render_ne`: the line is no single number, unless
  all of it is a minus and an operand. This one line is a single number
  (`Expression.exists_read_render_minus`).
-/

set_option autoImplicit false

namespace BaseConverter

/-! ### Written operands -/

theorem Base.withoutMinus_write_decimal (word : Word) :
    Text.withoutMinus (decimal.write word) = decimal.shownDigits word := by
  have hdigits : ∀ c ∈ decimal.shownDigits word, separatesOperands c = false := by
    intro c hc
    exact not_separates_of_isDigit (decimal.isDigit_of_mem_shownDigits word c hc)
  rw [write_eq, lead]
  split
  · rfl
  · rw [List.nil_append, Text.withoutMinus_eq_self hdigits]

/-- All words but the smallest have an opposite. -/
theorem Word.exists_opposite {word : Word} (h : -positiveCount < word.toInt) :
    ∃ opposite : Word, opposite.toInt = -word.toInt := by
  have hrange : InRange (-word.toInt) := by
    have hlo : -0x8000000000000000 < word.toInt := h
    have hhi := BitVec.toInt_lt (x := word)
    show -0x8000000000000000 ≤ -word.toInt ∧ -word.toInt < 0x8000000000000000
    omega
  exact ⟨BitVec.ofInt 64 (-word.toInt), toInt_of_ofInt? (if_pos hrange)⟩

/-- A negative number is written as a minus and its opposite. -/
theorem Base.write_decimal_of_opposite {word opposite : Word}
    (hopposite : opposite.toInt = -word.toInt) (hneg : word.toInt < 0) :
    decimal.write word = '-' :: decimal.write opposite := by
  have hnatAbs : opposite.toInt.natAbs = word.toInt.natAbs := by
    rw [hopposite, Int.natAbs_neg]
  rw [write, writeInt, if_pos hneg, write, writeInt, if_neg (by omega), hnatAbs]

theorem Word.negate_of_opposite {word opposite : Word} (h : opposite.toInt = -word.toInt) :
    opposite.negate = .ok word := by
  rw [negate, h, Int.neg_neg, checked, ofInt?_toInt]

/-- A decimal operand stays below the limit of the positive numbers. -/
theorem Operand.Spelled.placeValue_text_lt {text : Text} {operand : Operand}
    (h : Operand.Spelled .decimal text operand) :
    Base.decimal.placeValue operand.text < Word.positiveCount := by
  obtain ⟨-, hmarked, -, -, hfits⟩ := h
  cases hmarked
  exact hfits

/-- A decimal operand has no sign, so its value is the number of its
digits. -/
theorem Operand.Spelled.toInt_value {text : Text} {operand : Operand}
    (h : Operand.Spelled .decimal text operand) :
    operand.value.toInt = Base.decimal.placeValue operand.text := by
  obtain ⟨-, hmarked, hne, hdigits, hfits⟩ := h
  cases hmarked
  exact Base.toInt_of_readMagnitude
    ((Base.readMagnitude_eq_ok_iff false [] _ _).mpr ⟨hne, hdigits, hfits, rfl⟩)

namespace Expression

/-- Whether the rendered line of an expression in decimal stands for the same
value: no operand is negative, up to the first operand of a chain without a
sign. This one may be negative when its opposite is a word. -/
def HasDecimalLine : Expression → Prop
  | complement operand => 0 ≤ operand.value.toInt
  | shift left _ right => 0 ≤ left.value.toInt ∧ 0 ≤ right.value.toInt
  | chain negated first links =>
    (if negated then 0 ≤ first.value.toInt else -Word.positiveCount < first.value.toInt)
      ∧ ∀ link ∈ links, 0 ≤ link.operand.value.toInt

variable {base : Base} {line : Text} {e e' : Expression}

/-! ### What is read was rendered -/

/-- The operands that are read from a rendered line are those of the
expression, without a minus. -/
theorem texts_of_read_render (h : read base (e.render base.write) = .ok e') :
    e'.operands.map Operand.text
      = e.operands.map fun operand => Text.withoutMinus (base.write operand.value) := by
  have hspelled := (read_render_iff base e e').mp h
  have hline := hspelled.eq_laidOut (e.not_white_of_mem_render base.not_white_of_mem_write)
  have hresult : Text.ShowsRun ['0'] ['0'] :=
    Text.showsRun_self (List.cons_ne_nil _ _) (List.forall_mem_singleton.mpr rfl)
  have hread : ∀ operand ∈ e'.operands, operand.text.ShowsRun operand.text := by
    intro operand hmem
    obtain ⟨text, hoperand⟩ := hspelled.exists_spelled operand hmem
    exact hoperand.showsRun
  -- The same text is cut into the operands of both expressions.
  have hpieces := e'.operandPieces_laidOut hread hresult
  rw [← hline, render_eq_laidOut,
    e.operandPieces_laidOut (fun operand _ => base.showsRun_write operand.value) hresult] at hpieces
  exact (List.append_cancel_right hpieces).symm

theorem operatorCount_le_length (e : Expression) : e.operatorCount ≤ e.operands.length := by
  cases e with
  | complement operand => exact Nat.le_refl 1
  | shift left direction right => exact Nat.le_refl 2
  | chain negated first links =>
      simp only [operatorCount, operands, List.length_cons, List.length_map]
      split <;> omega

/-- With no characters of operators in the written operands, none of them is
negative. -/
theorem nonneg_of_countP_eq_zero {operands : List Operand}
    (h : (operands.flatMap fun operand => Base.decimal.write operand.value).countP isOperatorChar
      = 0) : ∀ operand ∈ operands, 0 ≤ operand.value.toInt := by
  intro operand hmem
  by_contra hneg
  obtain ⟨c, hc, hop⟩ := Base.exists_operatorChar_write (Int.not_le.mp hneg)
  exact List.countP_eq_zero.mp h c (List.mem_flatMap.mpr ⟨operand, hmem, hc⟩) hop

/-- The rendered line has a character for each operator of the expression and
for each minus of an operand. -/
theorem operatorCount_of_read_render (h : read .decimal (e.render Base.decimal.write) = .ok e') :
    e'.operatorCount = e.operatorCount
      + (e.operands.flatMap fun operand => Base.decimal.write operand.value).countP
          isOperatorChar := by
  rw [← ((read_render_iff .decimal e e').mp h).countP_isOperatorChar, countP_render]

theorem length_operands_of_read_render (h : read base (e.render base.write) = .ok e') :
    e'.operands.length = e.operands.length := by
  have hlength := congrArg List.length (texts_of_read_render h)
  rwa [List.length_map, List.length_map] at hlength

/-- A line that begins with an operand and has no shift in it is a chain
without a sign, with fewer operators than operands. -/
theorem Spelled.operatorCount_lt (h : Spelled base line e)
    (hhead : ∀ c ∈ line.head?, isOperatorChar c = false)
    (hshift : ∀ c ∈ line, c ≠ '<' ∧ c ≠ '>') : e.operatorCount < e.operands.length := by
  cases h with
  | complement hoperand => cases hhead '~' rfl
  | shift direction _ _ =>
      cases direction with
      | left => exact absurd rfl (hshift '<' (by simp [Shift.symbol])).1
      | right => exact absurd rfl (hshift '>' (by simp [Shift.symbol])).2
  | chain negated _ _ _ =>
      cases negated with
      | true => cases hhead '-' rfl
      | false => simp [operatorCount, operands]

/-- There is no shift in a rendered chain. -/
theorem not_shift_of_mem_render (negated : Bool) (first : Operand) (links : List Link) :
    ∀ c ∈ (chain negated first links).render Base.decimal.write, c ≠ '<' ∧ c ≠ '>' := by
  have hwrite : ∀ word, ∀ c ∈ Base.decimal.write word, c ≠ '<' ∧ c ≠ '>' := by
    intro word c hc
    have hlead : (Base.decimal.lead word).all (fun d => d != '<' && d != '>') = true := by
      rw [Base.lead]
      split <;> decide
    simpa using Base.of_mem_write hlead (by decide) c hc
  intro c hc
  rcases exists_of_mem_render_chain hc with ⟨op, rfl⟩ | ⟨word, hword⟩
  · cases op <;> decide
  · exact hwrite word c hword

/-- No operand of a rendered line that is read is the smallest word. -/
theorem neg_positiveCount_lt_of_read_render
    (h : read .decimal (e.render Base.decimal.write) = .ok e') :
    ∀ operand ∈ e.operands, -Word.positiveCount < operand.value.toInt := by
  intro operand hmem
  have htext : Text.withoutMinus (Base.decimal.write operand.value)
      ∈ e'.operands.map Operand.text := by
    rw [texts_of_read_render h]
    exact List.mem_map_of_mem hmem
  obtain ⟨other, hother, heq⟩ := List.mem_map.mp htext
  obtain ⟨text, hspelled⟩ := ((read_render_iff .decimal e e').mp h).exists_spelled other hother
  have hfits : Base.decimal.magnitude operand.value < Word.positiveCount := by
    rw [← Base.placeValue_shownDigits, ← Base.withoutMinus_write_decimal, ← heq]
    exact hspelled.placeValue_text_lt
  have hnatAbs : operand.value.toInt.natAbs < 0x8000000000000000 := hfits
  show -0x8000000000000000 < operand.value.toInt
  omega

/-- Unless a chain without a sign begins with a negative operand, no operand
of a rendered line that is read is negative. -/
theorem nonneg_of_read_render (h : read .decimal (e.render Base.decimal.write) = .ok e')
    (hsign : ∀ first links, e = chain false first links → 0 ≤ first.value.toInt) :
    ∀ operand ∈ e.operands, 0 ≤ operand.value.toInt := by
  have hcount := operatorCount_of_read_render h
  have hlength := length_operands_of_read_render h
  have hbound := e'.operatorCount_le_length
  refine nonneg_of_countP_eq_zero ?_
  cases e with
  | complement operand =>
      rw [show (complement operand).operatorCount = 1 from rfl] at hcount
      rw [show (complement operand).operands.length = 1 from rfl] at hlength
      omega
  | shift left direction right =>
      rw [show (shift left direction right).operatorCount = 2 from rfl] at hcount
      rw [show (shift left direction right).operands.length = 2 from rfl] at hlength
      omega
  | chain negated first links =>
      rw [operatorCount] at hcount
      rw [operands, List.length_cons, List.length_map] at hlength
      cases negated with
      | true =>
          rw [if_pos rfl] at hcount
          omega
      | false =>
          rw [if_neg Bool.false_ne_true] at hcount
          -- The line begins with a digit, so it is read as a chain without a sign.
          have hplain : ∀ c ∈ Base.decimal.write first.value, separatesOperands c = false :=
            Base.not_separates_of_mem_write (.inr (hsign first links rfl))
          have hhead : ∀ c ∈ ((chain false first links).render Base.decimal.write).head?,
              isOperatorChar c = false := by
            intro c hc
            rw [render, if_neg Bool.false_ne_true, List.nil_append,
              List.head?_append_of_ne_nil _ (Base.decimal.write_ne_nil _)] at hc
            have hseparates := hplain c (List.mem_of_mem_head? hc)
            rw [separatesOperands, Bool.or_eq_false_iff] at hseparates
            exact hseparates.1
          have hlt := ((read_render_iff .decimal _ e').mp h).operatorCount_lt hhead
            (not_shift_of_mem_render false first links)
          omega

/-- The links behind a negative operand at the head of a chain have operands
that are not negative. -/
theorem nonneg_links_of_read_render {first : Operand} {links : List Link}
    (h : read .decimal ((chain false first links).render Base.decimal.write) = .ok e')
    (hneg : first.value.toInt < 0) : ∀ link ∈ links, 0 ≤ link.operand.value.toInt := by
  have hcount := operatorCount_of_read_render h
  have hlength := length_operands_of_read_render h
  have hbound := e'.operatorCount_le_length
  -- The minus of the first operand is the only one there is room for.
  have hminus : 0 < (Base.decimal.write first.value).countP isOperatorChar :=
    List.countP_pos_iff.mpr (Base.exists_operatorChar_write hneg)
  rw [operatorCount, operands, List.flatMap_cons, List.countP_append,
    if_neg Bool.false_ne_true] at hcount
  rw [operands, List.length_cons, List.length_map] at hlength
  have hnonneg : ∀ operand ∈ links.map Link.operand, 0 ≤ operand.value.toInt :=
    nonneg_of_countP_eq_zero (by omega)
  exact fun link hlink => hnonneg link.operand (List.mem_map_of_mem hlink)

/-- An expression whose rendered line is read has a decimal line. -/
theorem hasDecimalLine_of_read_render
    (h : read .decimal (e.render Base.decimal.write) = .ok e') : e.HasDecimalLine := by
  have hsmallest := neg_positiveCount_lt_of_read_render h
  have hnonneg := nonneg_of_read_render h
  cases e with
  | complement operand => exact hnonneg (by simp) operand List.mem_cons_self
  | shift left direction right =>
      have hall := hnonneg (by simp)
      exact ⟨hall left (by simp [operands]), hall right (by simp [operands])⟩
  | chain negated first links =>
      have hlinks : (∀ operand ∈ (chain negated first links).operands, 0 ≤ operand.value.toInt) →
          ∀ link ∈ links, 0 ≤ link.operand.value.toInt := by
        intro hall link hlink
        exact hall link.operand (List.mem_cons_of_mem first (List.mem_map_of_mem hlink))
      cases negated with
      | true =>
          have hall := hnonneg (by simp)
          exact ⟨hall first List.mem_cons_self, hlinks hall⟩
      | false =>
          refine ⟨hsmallest first List.mem_cons_self, ?_⟩
          by_cases hneg : first.value.toInt < 0
          · exact nonneg_links_of_read_render h hneg
          · refine hlinks (hnonneg ?_)
            rintro _ _ ⟨⟩
            exact Int.not_lt.mp hneg

/-! ### What can be written is read -/

/-- An expression whose operands can be written is rendered as a line with
the same value. -/
theorem Spelled.exists_read_render {base' : Base} (h : Spelled base line e)
    (hwrite : ∀ operand ∈ e.operands, base' ≠ .decimal ∨ 0 ≤ operand.value.toInt) :
    ∃ e', read base' (e.render base'.write) = .ok e' ∧ e'.value = e.value := by
  have hrender := h.render fun operand hmem => Base.spelled_write (hwrite operand hmem)
  exact ⟨e.rewritten base'.write, (read_render_iff base' e _).mpr hrender,
    (agrees_rewritten base'.write e).value_eq⟩

/-- The minus of a negative operand at the head of a chain is read as the
sign of the chain. -/
theorem exists_read_render_of_neg {first : Operand} {links : List Link}
    (hneg : first.value.toInt < 0) (hfirst : -Word.positiveCount < first.value.toInt)
    (hlinks : ∀ link ∈ links, 0 ≤ link.operand.value.toInt) :
    ∃ e', read .decimal ((chain false first links).render Base.decimal.write) = .ok e'
      ∧ e'.value = (chain false first links).value := by
  obtain ⟨opposite, hopposite⟩ := Word.exists_opposite hfirst
  have hspelled : Operand.Spelled .decimal (Base.decimal.write opposite)
      ⟨Base.decimal.write opposite, opposite⟩ :=
    Base.spelled_write (.inr (by omega))
  have hoperands : ∀ link ∈ links, Operand.Spelled .decimal
      (Base.decimal.write link.operand.value)
      ⟨Base.decimal.write link.operand.value, link.operand.value⟩ :=
    fun link hlink => Base.spelled_write (.inr (hlinks link hlink))
  have hchain := Spelled.chain true hspelled (forall₂_render hoperands) (.inl rfl)
  have hline : (chain false first links).render Base.decimal.write
      = (if true then [Operator.subtract.symbol] else []) ++ Base.decimal.write opposite
        ++ (links.map fun link => link.operator.symbol
            :: Base.decimal.write link.operand.value).flatten := by
    rw [render, Base.write_decimal_of_opposite hopposite hneg, List.flatMap_def]
    rfl
  refine ⟨_, (read_render_iff .decimal _ _).mpr (hline ▸ hchain), ?_⟩
  refine Eq.trans ?_ (value_rewritten Base.decimal.write (chain false first links))
  rw [value, Word.negate_of_opposite hopposite]
  rfl

/-- The decimal line of an expression has its value. -/
theorem Spelled.exists_read_of_hasDecimalLine (h : Spelled base line e) (hline : e.HasDecimalLine) :
    ∃ e', read .decimal (e.render Base.decimal.write) = .ok e' ∧ e'.value = e.value := by
  cases e with
  | complement operand =>
      refine h.exists_read_render fun other hmem => .inr ?_
      rw [List.mem_singleton.mp hmem]
      exact hline
  | shift left direction right =>
      refine h.exists_read_render fun other hmem => .inr ?_
      rcases List.mem_cons.mp hmem with rfl | hmem
      · exact hline.1
      · rw [List.mem_singleton.mp hmem]
        exact hline.2
  | chain negated first links =>
      obtain ⟨hfirst, hlinks⟩ := hline
      by_cases hneg : first.value.toInt < 0
      · cases negated with
        | true => exact absurd hneg (Int.not_lt.mpr hfirst)
        | false => exact exists_read_render_of_neg hneg hfirst hlinks
      · refine h.exists_read_render fun other hmem => .inr ?_
        rcases List.mem_cons.mp hmem with rfl | hmem
        · exact Int.not_lt.mp hneg
        · obtain ⟨link, hlink, rfl⟩ := List.mem_map.mp hmem
          exact hlinks link hlink

/-- A minus in front of one operand that is not negative is written as a
single number. -/
theorem exists_read_render_minus {operand : Operand} (h : 0 ≤ operand.value.toInt) :
    ∃ word, Base.decimal.read ((chain true operand []).render Base.decimal.write) = .ok word := by
  have hwrite : Base.decimal.write operand.value = Base.decimal.shownDigits operand.value := by
    rw [Base.write_eq, Base.lead, if_neg (Int.not_lt.mpr h), List.nil_append]
  have hline : (chain true operand []).render Base.decimal.write
      = '-' :: Base.decimal.shownDigits operand.value := by
    rw [render, hwrite, List.flatMap_nil, List.append_nil]
    rfl
  have htrim := Text.trim_eq_self_of_forall
    ((chain true operand []).not_white_of_mem_render Base.decimal.not_white_of_mem_write)
  rw [Base.read, htrim, hline]
  exact ⟨_, Base.readMagnitude_shownDigits _ operand.value⟩

/-- A rendered line is no number as it stands, unless it is a minus in front
of one operand that is not negative. -/
theorem Spelled.read_render_ne (h : Spelled base line e)
    (hread : read .decimal (e.render Base.decimal.write) = .ok e')
    (hlone : ∀ operand, e = .chain true operand [] → operand.value.toInt < 0) (word : Word) :
    Base.decimal.read (e.render Base.decimal.write) ≠ .ok word := by
  intro hword
  have hrendered := (read_render_iff .decimal e e').mp hread
  have htrim := Text.trim_eq_self_of_forall
    (e.not_white_of_mem_render Base.decimal.not_white_of_mem_write)
  obtain ⟨operand, rfl⟩ := hrendered.eq_of_read htrim hword
  have hhead : (e.render Base.decimal.write).head? = some '-' := by
    generalize e.render Base.decimal.write = rendered at hrendered
    cases hrendered
    rfl
  have hlength := length_operands_of_read_render hread
  have hline := hasDecimalLine_of_read_render hread
  cases e with
  | complement other =>
      have htilde : some '~' = some '-' := hhead
      exact absurd htilde (by decide)
  | shift left direction right => cases hlength
  | chain negated first links =>
      have hnil : links = [] := by simpa [operands] using hlength
      subst hnil
      cases negated with
      | true => exact absurd hline.1 (Int.not_le.mpr (hlone first rfl))
      | false =>
          -- One operand without an operator is no line.
          cases h with
          | chain _ _ _ hsome => exact hsome.elim Bool.false_ne_true fun hne => hne rfl

end Expression

end BaseConverter

import BaseConverter.Proofs.Numeral.Reading
import BaseConverter.Proofs.Text.Stretch
import BaseConverter.Sheet.Filling

/-!
# `BaseConverter.Proofs.Sheet.Filling`: the sheet of several words

`Sheet.ofWords` shows words in all four fields. Each of its numeric fields
holds the written words joined by single spaces, none of them empty or
with a space in it, so the words can be told apart again
(`Field.values_spaced`). Typing such a field therefore fills the sheet
that it came from (`Sheet.fill?_spaced`).

A text as it was typed may hold parts that are no numbers and any number of
spaces. The fields that it fills hold neither, so filling from one of them
gives a sheet from which nothing changes any more (`Sheet.exists_refill`).
-/

set_option autoImplicit false

namespace BaseConverter

namespace Base

theorem space_not_mem_write (base : Base) (word : Word) : ' ' ∉ base.write word := by
  intro hspace
  have hwhite := base.not_white_of_mem_write word ' ' hspace
  exact absurd hwhite (by decide)

/-- Written words can be joined by spaces and told apart again. -/
theorem ne_nil_and_space_not_mem (base : Base) (words : List Word) :
    ∀ text ∈ words.map base.write, text ≠ [] ∧ ' ' ∉ text := by
  intro text htext
  obtain ⟨word, -, rfl⟩ := List.mem_map.mp htext
  exact ⟨base.write_ne_nil word, base.space_not_mem_write word⟩

end Base

theorem Text.map_text_placed (start : Nat) (texts : List Text) :
    (placed start texts).map Stretch.text = texts := by
  induction texts generalizing start with
  | nil => rfl
  | cons text texts ih => rw [placed, List.map_cons, ih]

/-- Joined by spaces, texts without white space do not begin or end with
it. -/
theorem Text.trimmed_spaced {texts : List Text}
    (h : ∀ text ∈ texts, text ≠ [] ∧ ∀ c ∈ text, isWhite c = false) : Trimmed (spaced texts) := by
  induction texts with
  | nil => exact Trimmed.of_forall (List.forall_mem_nil _)
  | cons first texts ih =>
      obtain ⟨⟨hne, hwhite⟩, hothers⟩ := List.forall_mem_cons.mp h
      cases texts with
      | nil =>
          rw [spaced, List.intercalate_singleton]
          exact Trimmed.of_forall hwhite
      | cons second texts =>
          -- The head is that of the first text, and the last character is behind the space.
          obtain ⟨c, hc⟩ := List.exists_mem_of_ne_nil second (hothers second List.mem_cons_self).1
          have hrest : spaced (second :: texts) ≠ [] :=
            List.ne_nil_of_mem (mem_spaced_of_mem hc List.mem_cons_self)
          rw [spaced_cons_cons]
          constructor
          · rw [List.head?_append_of_ne_nil _ hne]
            intro d hd
            exact hwhite d (List.mem_of_mem_head? hd)
          · rw [List.getLast?_append_of_ne_nil _ (List.cons_ne_nil _ _),
              List.getLast?_cons_of_ne_nil hrest]
            exact (ih hothers).last

/-- The values of written words, joined by spaces, are the words. -/
theorem Field.values_spaced (base : Base) (words : List Word) :
    (Field.ofBase base).values (Text.spaced (words.map base.write)) = words := by
  have hparts := Text.parts_spaced (base.ne_nil_and_space_not_mem words)
  have htexts := Text.map_text_placed 0 (words.map base.write)
  have hread : ∀ word : Word, (base.read (base.write word)).toOption = some word := by
    intro word
    rw [base.read_write]
    rfl
  rw [values, base?_ofBase]
  calc (Text.spaced (words.map base.write)).parts.filterMap
        (fun part => (base.read part.text).toOption)
    _ = ((Text.placed 0 (words.map base.write)).map Text.Stretch.text).filterMap
          fun text => (base.read text).toOption := by rw [hparts, List.filterMap_map]; rfl
    _ = words.filterMap fun word => (base.read (base.write word)).toOption := by
          rw [htexts, List.filterMap_map]; rfl
    _ = words := by simp only [hread, List.filterMap_some]

/-- There is no value in white space. -/
theorem Field.values_of_allWhite (base : Base) {text : Text} (h : Text.allWhite text = true) :
    (Field.ofBase base).values text = [] := by
  rw [values, base?_ofBase, List.filterMap_eq_nil_iff]
  intro part hpart
  obtain ⟨-, -, before, after, htext, -⟩ := Text.exists_eq_append_of_mem_stretches hpart
  rw [htext, Text.allWhite_append, Text.allWhite_append, Bool.and_eq_true, Bool.and_eq_true] at h
  rw [base.read_of_allWhite h.1.2]
  rfl

/-- A text that is a number shows this number, whatever white space stands
around it. -/
theorem Field.mem_values_of_read {base : Base} {text : Text} {word : Word}
    (h : base.read text = .ok word) : word ∈ (Field.ofBase base).values text := by
  have hspace : ' ' ∉ Text.trim text := fun hmem =>
    absurd (Base.not_white_of_mem_trim_of_read h ' ' hmem) (by decide)
  have hne : Text.trim text ≠ [] := by
    intro hnil
    rw [base.read_of_allWhite ((Text.trim_eq_nil_iff text).mp hnil)] at h
    cases h
  obtain ⟨before, after, hbefore, hafter, htext⟩ := Text.padded_trim text
  -- The part that holds the number may have other white space around it.
  obtain ⟨part, hpart, front, back, hpieces, hfront, hback, -⟩ :=
    Text.exists_stretch_around 0 before after hne (Text.decide_ne_of_not_mem hspace)
  rw [← htext] at hpart
  have htrim : Text.trim part.text = Text.trim text := by
    refine Text.trim_of_padded (Text.trimmed_trim text) ⟨front, back, ?_, ?_, hpieces⟩
    · exact List.all_eq_true.mpr fun c hc => List.all_eq_true.mp hbefore c (hfront.subset hc)
    · exact List.all_eq_true.mpr fun c hc => List.all_eq_true.mp hafter c (hback.subset hc)
  rw [values, base?_ofBase, List.mem_filterMap]
  refine ⟨part, hpart, ?_⟩
  rw [← base.read_trim, htrim, base.read_trim, h]
  rfl

namespace Sheet

/-- A numeric field of several words shows them with single spaces between
them. -/
theorem get_ofWords (words : List Word) (base : Base) :
    (ofWords words).get (Field.ofBase base) = Text.spaced (words.map base.write) := by
  cases base <;> rfl

/-- Writing what is already there changes nothing. -/
theorem set_get_self (sheet : Sheet) (field : Field) : sheet.set field (sheet.get field) = sheet := by
  cases field <;> rfl

theorem not_allWhite_spaced (base : Base) (word : Word) (words : List Word) :
    Text.allWhite (Text.spaced ((word :: words).map base.write)) = false := by
  obtain ⟨c, hc⟩ := List.exists_mem_of_ne_nil _ (base.write_ne_nil word)
  have hmem : c ∈ Text.spaced ((word :: words).map base.write) :=
    Text.mem_spaced_of_mem hc List.mem_cons_self
  rw [Text.allWhite, List.all_eq_false]
  exact ⟨c, hmem, by simp [base.not_white_of_mem_write word c hc]⟩

/-- Typing the written words into a numeric field fills the sheet of the
words. -/
theorem fill?_spaced (base : Base) (words : List Word) :
    fill? (Field.ofBase base) (Text.spaced (words.map base.write)) = some (ofWords words) := by
  cases words with
  | nil => cases base <;> rfl
  | cons word words =>
      have hset : (ofWords (word :: words)).set (Field.ofBase base)
          (Text.spaced ((word :: words).map base.write)) = ofWords (word :: words) := by
        rw [← get_ofWords]
        exact set_get_self _ _
      rw [fill?, not_allWhite_spaced, Field.values_spaced]
      exact congrArg some hset

/-- The other fields of a filled sheet show the values that were read.
From a text of white space there are none, and the fields are empty. -/
theorem eq_of_fill? {source : Base} {text : Text} {sheet : Sheet}
    (h : fill? (Field.ofBase source) text = some sheet) :
    sheet = (ofWords ((Field.ofBase source).values text)).set (Field.ofBase source) text := by
  unfold fill? at h
  split at h
  · rename_i hwhite
    rw [Field.values_of_allWhite source hwhite]
    exact (Option.some.inj h).symm
  · split at h
    · cases h
    · exact (Option.some.inj h).symm

/-- A text fills a sheet from a numeric field. Filling again from another
numeric field of this sheet changes no field but the one that was typed
into, and what comes out is filled by each of its own numeric fields. -/
theorem exists_refill (source target : Base) (text : Text) (sheet : Sheet) (hne : target ≠ source)
    (h : fill? (Field.ofBase source) text = some sheet) :
    ∃ refilled, fill? (Field.ofBase target) (sheet.get (Field.ofBase target)) = some refilled
      ∧ (∀ field, field ≠ Field.ofBase source → refilled.get field = sheet.get field)
      ∧ ∀ base, fill? (Field.ofBase base) (refilled.get (Field.ofBase base)) = some refilled := by
  have hsheet := eq_of_fill? h
  generalize (Field.ofBase source).values text = words at hsheet
  have hshown : ∀ field, field ≠ Field.ofBase source → sheet.get field = (ofWords words).get field := by
    intro field hfield
    rw [hsheet, get_set_of_ne _ _ hfield]
  refine ⟨ofWords words, ?_, fun field hfield => (hshown field hfield).symm, fun base => ?_⟩
  · rw [hshown _ (Field.ofBase_ne hne), get_ofWords]
    exact fill?_spaced target words
  · rw [get_ofWords]
    exact fill?_spaced base words

/-- A hexadecimal text with a small letter, two spaces in a row and a part
that is no number. It is filled anew from the decimal field. -/
theorem exists_refill_from_decimal :
    let text : Text := "  a zz  0XFFFFFFFFFFFFFFFF".toList
    ∃ sheet, fill? .hex text = some sheet ∧ sheet.decimal = "10 -1".toList
      ∧ ∃ refilled, fill? .decimal sheet.decimal = some refilled
        ∧ (∀ field, field ≠ .hex → refilled.get field = sheet.get field)
        ∧ refilled.hex = "0x0A 0xFFFFFFFFFFFFFFFF".toList
        ∧ ∀ base, fill? (Field.ofBase base) (refilled.get (Field.ofBase base)) = some refilled := by
  intro text
  have hfill : fill? .hex text = some ((ofWords [10, -1]).set .hex text) := by decide
  obtain ⟨refilled, hrefill, hfields, hfixed⟩ := exists_refill .hex .decimal text _ (by decide) hfill
  refine ⟨_, hfill, by decide, refilled, hrefill, hfields, ?_, hfixed⟩
  have hagain : fill? .decimal "10 -1".toList = some (ofWords [10, -1]) := by decide
  rw [← Option.some.inj (hagain.symm.trans hrefill)]
  decide

end Sheet

end BaseConverter

import BaseConverter.Command.Conversation

/-!
# `BaseConverter.Proofs.Conversation.Lines`: bytes and the lines in them

A conversation reads bytes, and its other statements are about lines.
The two meet here. In UTF-8 a character below 128 is one byte, and no
other character has that byte in it. So the line feeds among the bytes
are those of the text, and cutting the bytes before reading them as text
is cutting the text.

* `decode?_eq_some_iff`: bytes are read as a text exactly when they are
  its UTF-8 form.
* `lines_line`: the first line feed ends the first line.
* `lines_single`: a text without a line feed is one line, however it is
  ended.
* `lines_typed`: texts that are typed as lines are the lines.
* `newline_not_mem_of_mem_lines`: no line has a line feed in it.
-/

set_option autoImplicit false

namespace BaseConverter

namespace Text

/-- The UTF-8 form of a text. -/
def encode (text : Text) : List UInt8 :=
  text.flatMap String.utf8EncodeChar

@[simp]
theorem encode_append (first second : Text) :
    (first ++ second).encode = first.encode ++ second.encode :=
  List.flatMap_append

/-- A character below 128 is one byte. -/
theorem utf8EncodeChar_of_lt {c : Char} (h : c.toNat < 128) :
    String.utf8EncodeChar c = [c.toUInt8] := by
  refine String.utf8EncodeChar_eq_singleton (Char.utf8Size_eq_one_iff.mpr ?_)
  rw [UInt32.le_iff_toNat_le]
  exact Nat.le_of_lt_succ h

/-- The bytes of every other character are at least 128. -/
theorem le_toNat_of_mem_utf8EncodeChar {c : Char} (h : 128 ≤ c.toNat) :
    ∀ byte ∈ String.utf8EncodeChar c, 128 ≤ byte.toNat := by
  have hval : c.toNat = c.val.toNat := rfl
  simp only [String.utf8EncodeChar]
  -- The cases are the numbers of bytes. A first byte among several is at least 192,
  -- and each of the others has 128 added to it.
  split
  · omega
  split
  · simp only [List.forall_mem_cons, UInt8.toNat_ofNat']
    exact ⟨by omega, by omega, by simp⟩
  split
  · simp only [List.forall_mem_cons, UInt8.toNat_ofNat']
    exact ⟨by omega, by omega, by omega, by simp⟩
  · simp only [List.forall_mem_cons, UInt8.toNat_ofNat']
    exact ⟨by omega, by omega, by omega, by omega, by simp⟩

/-- A byte below 128 belongs to one character. -/
theorem eq_of_mem_utf8EncodeChar {c d : Char} (hc : c.toNat < 128)
    (hmem : c.toUInt8 ∈ String.utf8EncodeChar d) : d = c := by
  have hbyte : c.toUInt8.toNat = c.toNat := Nat.mod_eq_of_lt (Nat.lt_trans hc (by decide))
  by_cases hd : d.toNat < 128
  · rw [utf8EncodeChar_of_lt hd, List.mem_singleton] at hmem
    have hother : d.toUInt8.toNat = d.toNat := Nat.mod_eq_of_lt (Nat.lt_trans hd (by decide))
    exact Char.toNat_inj.mp (by rw [← hbyte, ← hother, hmem])
  · -- The byte would be at least 128.
    have hle := le_toNat_of_mem_utf8EncodeChar (Nat.le_of_not_lt hd) _ hmem
    omega

/-- A byte below 128 stands among the bytes exactly when its character
stands in the text. -/
theorem mem_encode_iff {c : Char} (hc : c.toNat < 128) (text : Text) :
    c.toUInt8 ∈ text.encode ↔ c ∈ text := by
  rw [encode, List.mem_flatMap]
  constructor
  · rintro ⟨d, hd, hmem⟩
    rwa [← eq_of_mem_utf8EncodeChar hc hmem]
  · intro hmem
    exact ⟨c, hmem, by simp [utf8EncodeChar_of_lt hc]⟩

/-- Only the empty text has no bytes. -/
theorem encode_ne_nil {text : Text} (h : text ≠ []) : text.encode ≠ [] := by
  obtain ⟨c, rest, rfl⟩ := List.exists_cons_of_ne_nil h
  intro hnil
  exact String.utf8EncodeChar_ne_nil (List.append_eq_nil_iff.mp hnil).1

/-- A last byte below 128 is the last character. -/
theorem getLast?_of_getLast?_encode {c : Char} (hc : c.toNat < 128) {text : Text}
    (h : text.encode.getLast? = some c.toUInt8) : text.getLast? = some c := by
  rcases List.eq_nil_or_concat text with rfl | ⟨front, d, rfl⟩
  · simp [encode] at h
  · -- The last byte is one of the last character, which has at least one.
    have hne : encode [d] ≠ [] := encode_ne_nil (List.cons_ne_nil d [])
    have hlast := List.getLast?_eq_some_getLast hne
    rw [List.concat_eq_append, encode_append, List.getLast?_append, hlast, Option.some_or,
      ← hlast] at h
    have hmem := List.mem_of_getLast? h
    rw [mem_encode_iff hc, List.mem_singleton] at hmem
    rw [hmem, List.concat_eq_append, List.getLast?_concat]

end Text

namespace Conversation

/-- Bytes are read as a text exactly when they are its UTF-8 form. -/
theorem decode?_eq_some_iff (bytes : List UInt8) (text : Text) :
    decode? bytes = some text ↔ bytes = text.encode := by
  rw [decode?, Option.map_eq_some_iff]
  constructor
  · -- A string is kept as its bytes, so these are the bytes that it was read from.
    rintro ⟨string, hread, rfl⟩
    obtain ⟨hvalid, hstring⟩ := Option.dite_none_right_eq_some.mp hread
    have harray : string.toList.utf8Encode = ⟨bytes.toArray⟩ := by
      rw [← Option.some.inj hstring]
      exact String.utf8Encode_toList
    have hbytes := congrArg (fun array => array.data.toList) harray
    simpa [Text.encode, List.utf8Encode] using hbytes.symm
  · rintro rfl
    have harray : ByteArray.mk text.encode.toArray = text.utf8Encode := by
      rw [List.utf8Encode]
      exact ByteArray.ext List.data_toByteArray.symm
    refine ⟨String.ofList text, ?_, String.toList_ofList⟩
    rw [harray, String.fromUTF8?, dif_pos ByteArray.isValidUTF8_utf8Encode]
    exact congrArg some (String.toByteArray_inj.mp String.toByteArray_ofList.symm)

/-- The bytes of lines, each ended by a line feed. -/
def typed (texts : List Text) : List UInt8 :=
  texts.flatMap fun text => text.encode ++ [10]

/-- The ways in which a line can be ended. The last line of an input
needs no end. -/
def endings : List (List UInt8) := [[], [10], [13, 10]]

/-! ### Cutting the input -/

/-- The first line feed ends the first line. -/
theorem lines_line {piece : List UInt8} (h : 10 ∉ piece) (rest : List UInt8) :
    lines (piece ++ 10 :: rest) = lineText? true piece :: lines rest := by
  have hne := List.splitOn_ne_nil 10 rest
  simp only [lines]
  rw [List.splitOn_append_cons_self_of_not_mem h, List.dropLast_cons_of_ne_nil hne,
    List.getLast?_cons_of_ne_nil hne]
  rfl

@[simp]
theorem lines_nil : lines [] = [] := rfl

/-- What has no line feed in it is the last line. -/
theorem lines_last {piece : List UInt8} (h : 10 ∉ piece) (hne : piece ≠ []) :
    lines piece = [lineText? false piece] := by
  simp only [lines]
  rw [List.splitOn_eq_singleton h]
  simp [hne]

/-- A statement about all inputs is shown line by line. -/
theorem lines_induction {motive : List UInt8 → Prop} (last : ∀ piece, 10 ∉ piece → motive piece)
    (line : ∀ piece rest, 10 ∉ piece → motive rest → motive (piece ++ 10 :: rest))
    (bytes : List UInt8) : motive bytes := by
  by_cases hmem : 10 ∈ bytes
  · -- Behind the first line feed the input is shorter.
    obtain ⟨piece, rest, hbytes, hpiece⟩ := List.eq_append_cons_of_mem hmem
    have hlength : rest.length < bytes.length := by
      rw [hbytes, List.length_append, List.length_cons]
      omega
    rw [hbytes]
    exact line piece rest hpiece (lines_induction last line rest)
  · exact last bytes hmem
termination_by bytes.length

/-! ### Lines as texts -/

/-- The text of a line has no line feed when its bytes have none. -/
theorem newline_not_mem_of_lineText? {ended : Bool} {piece : List UInt8} {text : Text}
    (hpiece : 10 ∉ piece) (h : lineText? ended piece = some text) : '\n' ∉ text := by
  intro hmem
  have hbyte : 10 ∈ text.encode := (Text.mem_encode_iff (c := '\n') (by decide) text).mpr hmem
  rw [← (decode?_eq_some_iff _ text).mp h] at hbyte
  split at hbyte
  · exact hpiece (List.dropLast_subset _ hbyte)
  · exact hpiece hbyte

/-- No line has a line feed in it. -/
theorem newline_not_mem_of_mem_lines {bytes : List UInt8} {text : Text}
    (h : some text ∈ lines bytes) : '\n' ∉ text := by
  induction bytes using lines_induction with
  | last piece hpiece =>
      by_cases hne : piece = []
      · simp [hne] at h
      · rw [lines_last hpiece hne, List.mem_singleton] at h
        exact newline_not_mem_of_lineText? hpiece h.symm
  | line piece rest hpiece ih =>
      rw [lines_line hpiece, List.mem_cons] at h
      exact h.elim (fun heq => newline_not_mem_of_lineText? hpiece heq.symm) ih

/-- The bytes of a text that is a line have no line feed. -/
theorem newline_not_mem_encode {text : Text} (h : '\n' ∉ text) : 10 ∉ text.encode :=
  fun hmem => h ((Text.mem_encode_iff (c := '\n') (by decide) text).mp hmem)

/-- A line is read as its text, unless a carriage return at its end is
taken for a part of that end. -/
theorem lineText?_encode (ended : Bool) {text : Text} (h : text.getLast? ≠ some '\r') :
    lineText? ended text.encode = some text := by
  have hlast : text.encode.getLast? ≠ some 13 := fun hlast =>
    h (Text.getLast?_of_getLast?_encode (c := '\r') (by decide) hlast)
  rw [lineText?, decode?_eq_some_iff]
  simp [hlast]

/-- A carriage return behind a line belongs to its end. -/
theorem lineText?_encode_return (text : Text) :
    lineText? true (text.encode ++ [13]) = some text := by
  rw [lineText?, decode?_eq_some_iff]
  simp

/-- A text without a line feed is one line, however it is ended. -/
theorem lines_single {text : Text} (hne : text ≠ []) (hnewline : '\n' ∉ text)
    (hreturn : text.getLast? ≠ some '\r') {ending : List UInt8} (hending : ending ∈ endings) :
    lines (text.encode ++ ending) = [some text] := by
  have hpiece := newline_not_mem_encode hnewline
  simp only [endings, List.mem_cons, List.not_mem_nil, or_false] at hending
  rcases hending with rfl | rfl | rfl
  · rw [List.append_nil, lines_last hpiece (Text.encode_ne_nil hne), lineText?_encode _ hreturn]
  · rw [lines_line hpiece, lineText?_encode _ hreturn, lines_nil]
  · -- The carriage return is cut off with the line feed behind it.
    have hboth : 10 ∉ text.encode ++ [13] := by simp [hpiece]
    rw [show text.encode ++ [13, 10] = text.encode ++ [13] ++ 10 :: [] by simp,
      lines_line hboth, lineText?_encode_return, lines_nil]

/-- Texts that are typed as lines are the lines. -/
theorem lines_typed {texts : List Text}
    (h : ∀ text ∈ texts, '\n' ∉ text ∧ text.getLast? ≠ some '\r') :
    lines (typed texts) = texts.map some := by
  induction texts with
  | nil => rfl
  | cons text texts ih =>
      obtain ⟨htext, htexts⟩ := List.forall_mem_cons.mp h
      have htyped : typed (text :: texts) = text.encode ++ 10 :: typed texts := by simp [typed]
      rw [htyped, lines_line (newline_not_mem_encode htext.1), lineText?_encode _ htext.2,
        ih htexts, List.map_cons]

end Conversation

end BaseConverter

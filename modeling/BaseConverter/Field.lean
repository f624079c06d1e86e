import BaseConverter.Numeral.Reading

/-!
# `BaseConverter.Field`: the four fields of a sheet

A value is shown in four fields: as a decimal, a hexadecimal and a
binary number, and as a character. `Field.read` finds a field by the
name that a person types.
-/

set_option autoImplicit false

namespace BaseConverter

/-- The fields that show a value. -/
inductive Field where
  | decimal
  | hex
  | binary
  | ascii
deriving DecidableEq

/-- A text that is not the name of a field. -/
structure UnknownField where
  /-- The text as it was typed. -/
  text : Text
deriving DecidableEq

/-- The sentence that tells the names of the fields. -/
def UnknownField.message (error : UnknownField) : Text :=
  "unknown field `".toList ++ error.text ++ "` (expected decimal, hex, binary or ascii)".toList

namespace Field

/-- The fields in the order in which they are shown. -/
def all : List Field := [decimal, hex, binary, ascii]

/-- The name of a field. -/
def name : Field → Text
  | decimal => "decimal".toList
  | hex => "hex".toList
  | binary => "binary".toList
  | ascii => "ascii".toList

/-- The base that the numbers of a field are written in. Characters have
none. -/
def base? : Field → Option Base
  | decimal => some .decimal
  | hex => some .hex
  | binary => some .binary
  | ascii => none

/-- The field whose numbers are written in a base. -/
def ofBase : Base → Field
  | .decimal => decimal
  | .hex => hex
  | .binary => binary

/-- The names by which a field can be asked for. -/
def names : List (Text × Field) :=
  [("decimal".toList, decimal), ("dec".toList, decimal), ("hex".toList, hex),
    ("binary".toList, binary), ("bin".toList, binary), ("ascii".toList, ascii)]

/-- The field that a text names. White space around the name and
the case of its letters do not count. -/
def read (text : Text) : Except UnknownField Field :=
  match names.lookup (Text.trim text).toLower with
  | some field => .ok field
  | none => .error ⟨text⟩

/-- Reads the text of one number in the base of a field. -/
def readNumber (field : Field) (text : Text) : Except NumeralError Word :=
  match field.base? with
  | some base => base.read text
  | none => .error .notNumeric

/-- A field is the field of its base. -/
theorem base?_eq_some_iff (field : Field) (base : Base) :
    field.base? = some base ↔ field = ofBase base := by
  cases field <;> cases base <;> decide

/-- Only the field of characters has no base. -/
theorem base?_eq_none_iff (field : Field) : field.base? = none ↔ field = ascii := by
  cases field <;> decide

@[simp]
theorem base?_ofBase (base : Base) : (ofBase base).base? = some base := by
  cases base <;> rfl

/-- Different bases have different fields. -/
theorem ofBase_ne {base other : Base} (h : base ≠ other) : ofBase base ≠ ofBase other := by
  intro heq
  refine h (Option.some.inj ?_)
  rw [← base?_ofBase base, heq, base?_ofBase]

end Field

end BaseConverter

import BaseConverter.Main
import BaseConverter.Proofs.Numeral.Written
import BaseConverter.Proofs.Text.Trim
import BaseConverter.Proofs.Expression.Operand
import BaseConverter.Proofs.Expression.Token
import BaseConverter.Proofs.Expression.Grammar
import BaseConverter.Proofs.Expression.Rendering
import BaseConverter.Proofs.Session.History
import BaseConverter.Proofs.Text.Stretch
import BaseConverter.Proofs.Group.Lookup
import BaseConverter.Proofs.Numeral.HalfByte
import BaseConverter.Proofs.Numeral.Reading
import BaseConverter.Proofs.Sheet.Filling
import BaseConverter.Proofs.Pointer.HalfByte
import BaseConverter.Proofs.Group.Extent
import BaseConverter.Proofs.Pointer.Bounds
import BaseConverter.Proofs.Numeral.Canonical
import BaseConverter.Proofs.Expression.Padding
import BaseConverter.Proofs.Expression.Arithmetic
import BaseConverter.Proofs.Expression.Exact
import BaseConverter.Proofs.Expression.Layout
import BaseConverter.Proofs.Group.Line
import BaseConverter.Proofs.Pointer.Line
import BaseConverter.Proofs.Session.Calculated
import BaseConverter.Proofs.Session.Converted
import BaseConverter.Proofs.Session.PointedValue
import BaseConverter.Proofs.Session.PlaceValue
import BaseConverter.Proofs.Expression.Complete
import BaseConverter.Proofs.Expression.DecimalLine
import BaseConverter.Proofs.Session.Recalculated
import BaseConverter.Proofs.Expression.Complement
import BaseConverter.Proofs.Expression.Refused
import BaseConverter.Proofs.Session.Evaluated
import BaseConverter.Proofs.Expression.Spacing
import BaseConverter.Proofs.Group.Spacing
import BaseConverter.Proofs.Pointer.Spacing
import BaseConverter.Proofs.Session.Spacing
import BaseConverter.Proofs.Expression.Bitwise
import BaseConverter.Proofs.Conversation.Assignment
import BaseConverter.Proofs.Session.Result
import BaseConverter.Proofs.Conversation.Rejected
import BaseConverter.Proofs.Expression.FlippedBits
import BaseConverter.Proofs.Expression.IntegerLaws
import BaseConverter.Proofs.Expression.Finished
import BaseConverter.Proofs.Numeral.Verdict
import BaseConverter.Proofs.Group.Token
import BaseConverter.Proofs.Group.Correspondence
import BaseConverter.Proofs.Pointer.Gate
import BaseConverter.Proofs.Numeral.Expansion
import BaseConverter.Proofs.Sheet.Characters
import BaseConverter.Proofs.Expression.Printed
import BaseConverter.Proofs.Expression.FirstFault
import BaseConverter.Proofs.Group.Enumeration
import BaseConverter.Proofs.Numeral.Padding
import BaseConverter.Proofs.Command.Flags
import BaseConverter.Proofs.Command.Calculation
import BaseConverter.Proofs.Command.Carets

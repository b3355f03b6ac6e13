import Nondet.Diagnostic
import Nondet.Report.Drawing

/-!
# Report

The reports of errors.  A diagnostic is handed to the drawing library with its span as it is, its
message once for the header and once for the mark, and its code and its hint if it has them.  An error
without a place is one line.
-/

namespace Nondet

namespace Diagnostic

/-- What the drawing library is asked to draw. -/
def drawing (d : Diagnostic) : Report.Drawing where
  kind := "Error"
  code := d.code
  message := d.message
  name := "<program>"
  span := d.span
  label := d.message
  help := d.help

/-- The report of a diagnostic on a text. -/
def report (coloured : Bool) (d : Diagnostic) (source : String) : String :=
  d.drawing.draw coloured source

end Diagnostic

/-- The report of an error.  An error without a place is its message, never in colour. -/
def Error.report (coloured : Bool) : Error → String
  | .parse d source | .runtime d source => d.report coloured source
  | .exceeded m                         => (Error.exceeded m).message ++ "\n"

end Nondet

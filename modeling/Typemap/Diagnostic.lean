import Typemap.Failure
import Typemap.Text.Lines

/-!
# Diagnostics

A failure drawn with the line of the expression that it blames. Lines and
columns are counted from one. Below the line there is a caret for each character
of the blamed span, and one if the span is empty. The row of carets has a
narrower margin than the row of the line, so the carets stand to the left of what
they mean.
-/

namespace Typemap

namespace Diagnostic

def gutter (line : Nat) : String :=
  let digits := toString line
  String.ofList (List.replicate (3 - digits.length) ' ') ++ digits

/-- Carets for `length` characters behind `column` blanks. -/
def underline (column length : Nat) : String :=
  String.ofList (List.replicate column ' ' ++ List.replicate (max length 1) '^')

end Diagnostic

/-- The drawing of a failure. `origin` says where its expression comes from. -/
def Failure.render (origin : String) (f : Failure) : String :=
  let source := f.expression.toList
  let line := lineOf source f.span.offset + 1
  let column := columnOf source f.span.offset
  "error[" ++ f.kind.code ++ "]: " ++ f.message ++ "\n" ++
    "  --> " ++ origin ++ ":" ++ toString line ++ ":" ++ toString (column + 1) ++ "\n" ++
    "   |\n" ++
    Diagnostic.gutter line ++ " | " ++ String.ofList (lineAt source f.span.offset) ++ "\n" ++
    "   | " ++ Diagnostic.underline column f.span.length ++ "\n" ++
    match f.help? with
    | some help => "help: " ++ help ++ "\n"
    | none => ""

end Typemap

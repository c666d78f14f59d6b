import Typemap.Failure
import Typemap.Json.Fields
import Typemap.Json.Read
import Typemap.Json.Write

/-!
# Failures in JSON

A report is an object or an array of its five parts. In an object the hint may be
left out, and unknown fields are passed over. A span is an object or a pair.
-/

namespace Typemap

namespace Span

def toJson (s : Span) : Json :=
  .record [("offset", .natural s.offset), ("len", .natural s.length)]

def ofJson? : Json → Option Span
  | .object fields =>
      if Json.keysHaveText fields then do
        let offset ← Json.field? "offset" Json.count? none fields
        let length ← Json.field? "len" Json.count? none fields
        return ⟨offset, length⟩
      else none
  | .array [offset, length] => do return ⟨← offset.count?, ← length.count?⟩
  | _ => none

end Span

namespace Failure

/-- A kind is its tag, or an object with the tag as its only key. -/
def Kind.ofJson? : Json → Option Kind
  | .string tag => Kind.ofTag? tag
  | .object [(some tag, .null)] => Kind.ofTag? tag
  | _ => none

def toJson (f : Failure) : Json :=
  .record [("kind", .string f.kind.tag), ("message", .string f.message),
    ("expression", .string f.expression), ("span", f.span.toJson), ("help", .ofText? f.help?)]

def ofJson? : Json → Option Failure
  | .object fields =>
      if Json.keysHaveText fields then do
        let kind ← Json.field? "kind" Kind.ofJson? none fields
        let message ← Json.field? "message" Json.text? none fields
        let expression ← Json.field? "expression" Json.text? none fields
        let span ← Json.field? "span" Span.ofJson? none fields
        let help? ← Json.field? "help" Json.textOrNull? (some none) fields
        return ⟨kind, message, expression, span, help?⟩
      else none
  | .array [kind, message, expression, span, help] => do
      return ⟨← Kind.ofJson? kind, ← message.text?, ← expression.text?, ← Span.ofJson? span,
        ← help.textOrNull?⟩
  | _ => none

def load? (text : String) : Option Failure := (Json.read? text).bind ofJson?

end Failure

end Typemap

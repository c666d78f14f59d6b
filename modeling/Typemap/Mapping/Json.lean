import Typemap.Json.Write
import Typemap.Mapping

/-!
# Mappings in JSON

The form in which mappings are handed on. The kind comes first and tells which
fields follow.
-/

namespace Typemap

def SourceType.toJson (s : SourceType) : Json :=
  .record [("name", .string s.name), ("format", .ofText? s.format?)]

def Parameter.toJson (p : Parameter) : Json :=
  .record [("name", .string p.name), ("value", .string p.value)]

def Annotation.toJson (a : Annotation) : Json :=
  .record [("type", .string a.typeName), ("parameters", .array (a.parameters.map (·.toJson)))]

namespace Mapping

def fields : Mapping → List (String × Json)
  | type source target => [("source", source.toJson), ("target_type", .string target)]
  | map source target generics =>
      [("source", source.toJson), ("target_type", .string target),
        ("target_generic_types", .array (generics.map .string))]
  | annotate name applied => [("source_type", .string name), ("annotation", applied.toJson)]

def toJson (m : Mapping) : Json := .record (("kind", .string m.kind.tag) :: m.fields)

end Mapping

end Typemap

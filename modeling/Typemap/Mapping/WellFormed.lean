import Typemap.Expression.WellFormed
import Typemap.Mapping

/-!
# Well-formed mappings

What holds of the mappings that settings allow, in terms of their texts alone.
Nothing in the type of a mapping ensures any of it.
-/

namespace Typemap

/-- A word, or a literal that its first unshielded quote closes. -/
def IsValueText (text : String) : Prop :=
  Token.IsLexeme .word text.toList ∨ Token.IsLexeme .literal text.toList

/-- The text without blanks of a target type whose own generic lists leave room
for the list that it stands in. -/
structure IsGenericText (settings : Settings) (text : String) : Prop where
  blankless : ∀ c ∈ text.toList, isBlank c = false
  ofTarget : ∃ t : Target, t.text = text ∧ (∀ name ∈ t.names, Name.IsQualified name.toList) ∧
    t.generics.depth < settings.maxDepth

/-- The names are those of named parameters, or a single parameter has none. -/
def ParameterNamesWellFormed (settings : Settings) (parameters : List Parameter) : Prop :=
  (∀ p ∈ parameters, Name.isPlain p.name.toList = true) ∨
    (settings.allowUnnamed = true ∧ ∃ value, parameters = [⟨"", value⟩])

/-- A source type with a valid name and, if it has a format, a valid one. -/
structure SourceType.WellFormed (s : SourceType) : Prop where
  name : Name.IsQualified s.name.toList
  format : ∀ format ∈ s.format?, Name.isFormat format.toList = true

/-- Only the two kinds that map a type have a source with a format. -/
inductive Mapping.WellFormed (settings : Settings) : Mapping → Prop where
  | type {source : SourceType} {target : String} (hsource : source.WellFormed)
      (htarget : Name.IsQualified target.toList) : WellFormed settings (type source target)
  | map {source : SourceType} {target : String} {generics : List String}
      (hsource : source.WellFormed) (htarget : Name.IsQualified target.toList)
      (hne : generics ≠ []) (hgenerics : ∀ text ∈ generics, IsGenericText settings text) :
      WellFormed settings (map source target generics)
  | annotate {sourceName typeName : String} {parameters : List Parameter}
      (hsource : Name.IsQualified sourceName.toList) (htype : Name.IsQualified typeName.toList)
      (hdistinct : (parameters.map (·.name)).Nodup)
      (hnames : ParameterNamesWellFormed settings parameters)
      (hvalues : ∀ p ∈ parameters, IsValueText p.value) :
      WellFormed settings (annotate sourceName ⟨typeName, parameters⟩)

end Typemap

import Mathlib.Data.List.Basic
import Typemap.Proofs.Json.Loading

/-!
# Mappings told apart by their JSON

A value is read back from its text, so texts that agree are texts of one value.
The kind of a mapping stands in front and settles which fields follow, and each
field keeps all of its text. So different mappings have different texts, and a
mapping can be told from the scope beside it.
-/

namespace Typemap

open Function

namespace Json

theorem record_injective : Injective record := by
  intro fields fields' h
  rw [record, record, object.injEq] at h
  refine List.map_injective_iff.2 ?_ h
  rintro ⟨key, value⟩ ⟨key', value'⟩ heq
  simpa using heq

@[simp] theorem record_inj {fields fields' : List (String × Json)} :
    record fields = record fields' ↔ fields = fields' :=
  record_injective.eq_iff

theorem ofText?_injective : Injective ofText? := by
  intro text? text?' h
  have hread := congrArg textOrNull? h
  simpa using hread

@[simp] theorem ofText?_inj {text? text?' : Option String} :
    ofText? text? = ofText? text?' ↔ text? = text?' :=
  ofText?_injective.eq_iff

theorem string_injective : Injective string := by
  intro text text' h
  simpa using h

end Json

theorem SourceType.toJson_injective : Injective toJson := by
  rintro ⟨name, format?⟩ ⟨name', format?'⟩ h
  have hparts : name = name' ∧ format? = format?' := by simpa [toJson] using h
  rw [hparts.1, hparts.2]

theorem Parameter.toJson_injective : Injective toJson := by
  rintro ⟨name, value⟩ ⟨name', value'⟩ h
  have hparts : name = name' ∧ value = value' := by simpa [toJson] using h
  rw [hparts.1, hparts.2]

theorem Annotation.toJson_injective : Injective toJson := by
  rintro ⟨name, parameters⟩ ⟨name', parameters'⟩ h
  have hparts : name = name' ∧
      parameters.map (·.toJson) = parameters'.map (·.toJson) := by
    simpa [toJson] using h
  rw [hparts.1, List.map_injective_iff.2 Parameter.toJson_injective hparts.2]

namespace Mapping

theorem Kind.tag_injective : Injective Kind.tag := by
  intro k k' h
  cases k <;> cases k' <;> first | rfl | exact absurd h (by decide)

/-- Mappings of one kind have the same keys, so only the values can differ. -/
theorem eq_of_fields {m m' : Mapping} (hkind : m.kind = m'.kind) (h : m.fields = m'.fields) :
    m = m' := by
  match m, m', hkind with
  | type source target, type source' target', _ =>
      have hparts : source.toJson = source'.toJson ∧ target = target' := by simpa [fields] using h
      rw [SourceType.toJson_injective hparts.1, hparts.2]
  | map source target generics, map source' target' generics', _ =>
      have hparts : source.toJson = source'.toJson ∧ target = target' ∧
          generics.map Json.string = generics'.map Json.string := by
        simpa [fields] using h
      rw [SourceType.toJson_injective hparts.1, hparts.2.1,
        List.map_injective_iff.2 Json.string_injective hparts.2.2]
  | annotate name applied, annotate name' applied', _ =>
      have hparts : name = name' ∧ applied.toJson = applied'.toJson := by simpa [fields] using h
      rw [hparts.1, Annotation.toJson_injective hparts.2]

theorem toJson_injective : Injective toJson := by
  intro m m' h
  have hparts : m.kind.tag = m'.kind.tag ∧ m.fields = m'.fields := by
    simpa [toJson] using h
  exact eq_of_fields (Kind.tag_injective hparts.1) hparts.2

end Mapping

theorem Scope.toJson_injective : Injective toJson := by
  intro s s' h
  have hread := congrArg ofJson? h
  simpa [ofJson?_toJson] using hread

theorem ScopedMapping.toJson_injective : Injective toJson := by
  rintro ⟨scope, mapping⟩ ⟨scope', mapping'⟩ h
  have hparts : scope.toJson = scope'.toJson ∧ mapping.toJson = mapping'.toJson := by
    simpa [toJson] using h
  rw [Scope.toJson_injective hparts.1, Mapping.toJson_injective hparts.2]

/-- Mappings with equal texts are equal, and of mappings in scopes with equal
texts both parts are equal. -/
theorem write_toJson_injective :
    (∀ m m' : Mapping, m.toJson.write = m'.toJson.write → m = m') ∧
      ∀ s s' : ScopedMapping, s.toJson.write = s'.toJson.write →
        s.scope = s'.scope ∧ s.mapping = s'.mapping := by
  constructor
  · intro m m' h
    exact Mapping.toJson_injective (Json.write_injective h)
  · intro s s' h
    have heq := ScopedMapping.toJson_injective (Json.write_injective h)
    exact ⟨congrArg ScopedMapping.scope heq, congrArg ScopedMapping.mapping heq⟩

/-- A package put in place, a quote that is shielded and an empty list. -/
theorem write_toJson_injective_resolve :
    Mapping.resolve "x\"" (.map ⟨"A", some "b"⟩ "\x7bpackage-name\x7d" []) =
        .map ⟨"A", some "b"⟩ "x\"" [] ∧
      (ScopedMapping.mk (.path "\\")
          (.resolve "x\"" (.annotate "A" ⟨"\x7bpackage-name\x7d", [⟨"", "y"⟩]⟩))).mapping =
        .annotate "A" ⟨"x\"", [⟨"", "y"⟩]⟩ := by
  obtain ⟨hmapping, hscoped⟩ := write_toJson_injective
  constructor
  · apply hmapping
    decide +kernel
  · refine (hscoped _ ⟨.path "\\", _⟩ ?_).2
    decide +kernel

end Typemap

import Typemap.Failure.Json
import Typemap.Proofs.Json.Read
import Typemap.Scope.Json
import Typemap.Settings.Json

/-!
# Loading what was stored

Failures, scopes and settings are stored as records, whose keys differ. Each
field is found again under its key, and the decoder of the field takes back what
was put there. Only numbers have a bound, as they are loaded into 64 bits.
-/

namespace Typemap

namespace Json

/-- The fields of a record. -/
def named (fields : List (String × Json)) : List (Text × Json) :=
  fields.map fun (key, value) => (some key, value)

theorem record_eq (fields : List (String × Json)) : record fields = .object (named fields) := rfl

@[simp] theorem keysHaveText_named (fields : List (String × Json)) :
    keysHaveText (named fields) = true := by
  simp [keysHaveText, named]

@[simp] theorem keysAmong_named (keys : List String) (fields : List (String × Json)) :
    keysAmong keys (named fields) = fields.all fun field => keys.contains field.1 := by
  simp [keysAmong, named, Function.comp_def]

section

variable {key : String} {fields : List (String × Json)}

theorem valuesOf_named_cons (key' : String) (value : Json) :
    valuesOf key (named ((key', value) :: fields)) =
      if key' = key then value :: valuesOf key (named fields) else valuesOf key (named fields) := by
  by_cases h : key' = key <;> simp [valuesOf, named, h]

theorem valuesOf_named_of_not_mem (h : key ∉ fields.map (·.1)) :
    valuesOf key (named fields) = [] := by
  induction fields with
  | nil => rfl
  | cons field fields ih =>
      obtain ⟨key', value⟩ := field
      rw [List.map_cons, List.mem_cons, not_or] at h
      rw [valuesOf_named_cons, if_neg (Ne.symm h.1), ih h.2]

/-- Keys that differ leave at most one value for a key. -/
theorem valuesOf_named (h : (fields.map (·.1)).Nodup) :
    valuesOf key (named fields) = (fields.lookup key).toList := by
  induction fields with
  | nil => rfl
  | cons field fields ih =>
      obtain ⟨key', value⟩ := field
      rw [List.map_cons, List.nodup_cons] at h
      rw [valuesOf_named_cons, List.lookup_cons]
      by_cases hkey : key' = key
      · subst hkey
        simp [valuesOf_named_of_not_mem h.1]
      · rw [if_neg hkey, beq_false_of_ne (Ne.symm hkey), ih h.2]

theorem field?_named {α : Type} (h : (fields.map (·.1)).Nodup) (decode : Json → Option α)
    (absent : Option α) :
    field? key decode absent (named fields) = (fields.lookup key).elim absent decode := by
  rw [field?, valuesOf_named h]
  cases fields.lookup key <;> rfl

theorem field?_named_none {α : Type} (h : (fields.map (·.1)).Nodup) (decode : Json → Option α) :
    field? key decode none (named fields) = (fields.lookup key).bind decode := by
  rw [field?_named h]
  cases fields.lookup key <;> rfl

end

@[simp] theorem text?_string (text : String) : text? (string text) = some text := rfl

@[simp] theorem bool?_bool (b : Bool) : bool? (bool b) = some b := rfl

theorem count?_natural {n : Nat} (h : n < UInt64.size) : count? (natural n) = some n := if_pos h

@[simp] theorem textOrNull?_ofText? (text? : Option String) :
    textOrNull? (ofText? text?) = some text? := by
  cases text? <;> rfl

end Json

theorem Span.ofJson?_toJson {s : Span} (hoffset : s.offset < UInt64.size)
    (hlength : s.length < UInt64.size) : ofJson? s.toJson = some s := by
  simp [toJson, Json.record_eq, ofJson?, Json.field?_named, Json.count?_natural, hoffset, hlength,
    List.lookup_cons]

namespace Failure

@[simp] theorem Kind.ofJson?_tag (k : Kind) : ofJson? (.string k.tag) = some k := k.ofTag?_tag

theorem ofJson?_toJson {f : Failure} (hoffset : f.span.offset < UInt64.size)
    (hlength : f.span.length < UInt64.size) : ofJson? f.toJson = some f := by
  simp [toJson, Json.record_eq, ofJson?, Json.field?_named, Span.ofJson?_toJson hoffset hlength,
    List.lookup_cons]

theorem load?_write {f : Failure} (hoffset : f.span.offset < UInt64.size)
    (hlength : f.span.length < UInt64.size) : load? f.toJson.write = some f := by
  rw [load?, Json.read?_write, Option.bind_some, ofJson?_toJson hoffset hlength]

end Failure

namespace Scope

/-- A stored scope is plain and flat enough to be held in memory. -/
theorem isPlain_and_depth_toJson (s : Scope) :
    (s.toJson.isPlain && s.toJson.depth ≤ maxDepth) = true := by
  cases s <;> rfl

theorem ofJson?_record {fields : List (String × Json)} (hdistinct : (fields.map (·.1)).Nodup)
    (h : ((Json.record fields).isPlain && (Json.record fields).depth ≤ maxDepth) = true) :
    ofJson? (Json.record fields) =
      ((fields.lookup "scope").bind Json.text?).bind fun tag =>
        ofFields? tag fun key => (fields.lookup key).bind Json.text? := by
  unfold ofJson?
  rw [if_pos h]
  simp [Json.record_eq, Json.field?_named_none hdistinct]

theorem ofJson?_toJson (s : Scope) : ofJson? s.toJson = some s := by
  have hplain := s.isPlain_and_depth_toJson
  cases s with
  | global =>
      rw [toJson, ofJson?_record (by simp) hplain]
      simp [List.lookup_cons, ofFields?]
  | path p =>
      rw [toJson, ofJson?_record (by simp) hplain]
      simp [List.lookup_cons, ofFields?, globalTag, pathTag]
  | pathMethod p method =>
      rw [toJson, ofJson?_record (by simp) hplain]
      simp [List.lookup_cons, ofFields?, globalTag, pathTag, pathMethodTag]
  | parameter name =>
      rw [toJson, ofJson?_record (by simp) hplain]
      simp [List.lookup_cons, ofFields?, globalTag, pathTag, pathMethodTag, parameterTag]

theorem load?_write (s : Scope) : load? s.toJson.write = some s := by
  rw [load?, Json.read?_write, Option.bind_some, ofJson?_toJson]

end Scope

namespace Settings

theorem ofJson?_toJson {s : Settings} (h : s.maxDepth < UInt64.size) :
    ofJson? s.toJson = some s := by
  simp [toJson, Json.record_eq, ofJson?, Json.field?_named, Json.count?_natural, h,
    List.lookup_cons, depthKey, packageKey, unnamedKey]

/-- Loading checks the settings that were stored. -/
theorem load_write {s : Settings} (h : s.maxDepth < UInt64.size) :
    load s.toJson.write = s.check.mapError .invalid := by
  rw [load, Json.read?_write]
  simp only [ofJson, ofJson?_toJson h]

end Settings

/-- What is stored is loaded again: failures whose span has 64 bits, all scopes,
and settings that pass their check. Other settings are refused with the defect
that the check finds. -/
theorem load_toJson_write :
    (∀ f : Failure, f.span.offset < UInt64.size → f.span.length < UInt64.size →
        Failure.load? f.toJson.write = some f) ∧
      (∀ s : Scope, Scope.load? s.toJson.write = some s) ∧
        ∀ s : Settings, s.maxDepth < UInt64.size →
          (s.check = .ok s → Settings.load s.toJson.write = .ok s) ∧
            ∀ d, s.check = .error d → Settings.load s.toJson.write = .error (.invalid d) := by
  refine ⟨fun f hoffset hlength => f.load?_write hoffset hlength, Scope.load?_write, ?_⟩
  intro s hdepth
  have hload := Settings.load_write hdepth
  constructor
  · intro hcheck
    rw [hload, hcheck]
    rfl
  · intro d hcheck
    rw [hload, hcheck]
    rfl

/-- Texts with characters that are escaped, an empty hint, an offset that just
fits, and a package without a visible character. -/
theorem load_toJson_write_escapes :
    Failure.load? (Failure.toJson ⟨.lex, "\"\\\x00\n\x1f\x7f", "a\u2028b",
        ⟨18446744073709551615, 0⟩, some ""⟩).write =
        some ⟨.lex, "\"\\\x00\n\x1f\x7f", "a\u2028b", ⟨18446744073709551615, 0⟩, some ""⟩ ∧
      Scope.load? (Scope.toJson (.pathMethod "/a,b" "\x7d")).write =
          some (.pathMethod "/a,b" "\x7d") ∧
        Settings.load (Settings.toJson { package? := some "io.x" }).write =
            .ok { package? := some "io.x" } ∧
          Settings.load (Settings.toJson { package? := some " \t" }).write =
            .error (.invalid .blankPackage) := by
  obtain ⟨hfailure, hscope, hsettings⟩ := load_toJson_write
  refine ⟨hfailure _ (by decide) (by decide), hscope _, ?_, ?_⟩
  · exact (hsettings { package? := some "io.x" } (by decide)).1 rfl
  · exact (hsettings { package? := some " \t" } (by decide)).2 _ rfl

end Typemap

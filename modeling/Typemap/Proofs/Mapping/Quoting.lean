import Typemap.Mapping.Rewriting
import Typemap.Proofs.Mapping.Canonical

/-!
# Quoted values

Any text can be the value of a parameter. Written between quotes where that is
needed, it is one token in any list of parameters, and its content is the text.
-/

namespace Typemap

theorem Literal.isBody_escape (cs : List Char) : IsBody '"' (escape cs) := by
  induction cs with
  | nil => exact .nil
  | cons c cs ih =>
      by_cases h : c = '"' ∨ c = '\\'
      · rw [escape, if_pos h]
        exact .shielded ih
      · rw [escape, if_neg h]
        exact .plain (fun hc => h (.inl hc)) (fun hc => h (.inr hc)) ih

namespace Value

/-- The value that is written for a text. -/
def ofContent (content : String) : Value :=
  if Literal.needsQuotes content.toList then quoted (written content) else bare (written content)

@[simp] theorem text_ofContent (content : String) : (ofContent content).text = written content := by
  unfold ofContent
  split <;> rfl

theorem wellFormed_ofContent (content : String) : (ofContent content).WellFormed := by
  unfold ofContent
  split
  · rename_i h
    rw [WellFormed, written, String.toList_ofList, Literal.write, if_pos h]
    exact .literal rfl (Literal.isBody_escape _)
  · rename_i h
    rw [WellFormed, written, String.toList_ofList, Literal.write, if_neg h]
    simp only [Literal.needsQuotes, Bool.or_eq_true, not_or, Bool.not_eq_true,
      Bool.not_eq_false'] at h
    exact .word (by simpa using h.1) h.2

end Value

@[simp] theorem Parameter.content_written (name content : String) :
    (Parameter.mk name (written content)).content = content := by
  rw [Parameter.content, written, String.toList_ofList, Literal.content_write,
    String.ofList_toList]

variable {settings : Settings} {source typeName : String}

/-- An annotation with written values is read as it stands. -/
theorem Mapping.parse_text_annotate (hpackage : settings.package? = none)
    (hsource : Name.IsQualified source.toList) (htypeName : Name.IsQualified typeName.toList)
    {arguments : List Argument} (hnames : Expression.NamesWellFormed settings arguments)
    (hvalues : ∀ a ∈ arguments, a.value.WellFormed) (hne : arguments ≠ []) :
    parse settings (source ++ " @ " ++ typeName ++ "(" ++
        listed (arguments.map (·.toParameter.text)) ++ ")") =
      .ok (annotate source ⟨typeName, arguments.map (·.toParameter)⟩) := by
  have hwellFormed : Expression.WellFormed settings
      ⟨⟨source, none⟩, .annotate typeName arguments⟩ :=
    ⟨hsource, rfl, htypeName, hnames, hvalues⟩
  have hparse := parse_text_ofExpression hpackage hwellFormed
  simpa [ofExpression, text, Annotation.text, hne, Function.comp_def, String.append_assoc]
    using hparse

/-- The argument that a name and a text are written as. -/
def Argument.ofContent (name? : Option String) (content : String) : Argument :=
  ⟨name?, .ofContent content, default⟩

@[simp] theorem Argument.toParameter_ofContent (name? : Option String) (content : String) :
    (ofContent name? content).toParameter = ⟨name?.getD "", written content⟩ := by
  simp [ofContent, toParameter]

theorem Argument.text_ofContent {name : String} (h : Name.isPlain name.toList = true)
    (content : String) :
    (ofContent (some name) content).toParameter.text = name ++ "=" ++ written content := by
  have hne : name ≠ "" := by
    rintro rfl
    simp [Name.isPlain] at h
  simp [Parameter.text, Parameter.isPositional, hne]

/-- The arguments for a list of names, each with its text. -/
def Argument.ofContents (contents : List (String × String)) : List Argument :=
  contents.map fun p => ofContent (some p.1) p.2

namespace Argument

variable {contents : List (String × String)}

theorem namesWellFormed_ofContents (hdistinct : (contents.map (·.1)).Nodup)
    (hplain : ∀ p ∈ contents, Name.isPlain p.1.toList = true) :
    Expression.NamesWellFormed settings (ofContents contents) := by
  refine .inl ⟨?_, ?_⟩
  · intro a ha
    obtain ⟨p, hp, rfl⟩ := List.mem_map.1 ha
    exact ⟨p.1, rfl, hplain p hp⟩
  · have hmap : (ofContents contents).map (·.name?) = (contents.map (·.1)).map some := by
      rw [ofContents, List.map_map, List.map_map]
      rfl
    rw [hmap]
    exact List.Pairwise.map some (fun a b hab h => hab (Option.some.inj h)) hdistinct

theorem wellFormed_ofContents (contents : List (String × String)) :
    ∀ a ∈ ofContents contents, a.value.WellFormed := by
  intro a ha
  obtain ⟨p, -, rfl⟩ := List.mem_map.1 ha
  exact Value.wellFormed_ofContent p.2

theorem texts_ofContents (hplain : ∀ p ∈ contents, Name.isPlain p.1.toList = true) :
    (ofContents contents).map (·.toParameter.text) =
      contents.map fun p => p.1 ++ "=" ++ written p.2 := by
  rw [ofContents, List.map_map]
  exact List.map_congr_left fun p hp => text_ofContent (hplain p hp) p.2

theorem parameters_ofContents (contents : List (String × String)) :
    (ofContents contents).map (·.toParameter) = contents.map fun p => ⟨p.1, written p.2⟩ := by
  simp [ofContents, Function.comp_def]

end Argument

/-- Values that are written are read back one by one, whatever their texts and
their number, and stand for these texts. -/
theorem parse_written (settings : Settings) (hpackage : settings.package? = none)
    (source typeName : String) (hsource : Name.IsQualified source.toList)
    (htypeName : Name.IsQualified typeName.toList) :
    (∀ contents : List (String × String), contents ≠ [] → (contents.map (·.1)).Nodup →
        (∀ p ∈ contents, Name.isPlain p.1.toList = true) →
          Mapping.parse settings (source ++ " @ " ++ typeName ++ "(" ++
                listed (contents.map fun p => p.1 ++ "=" ++ written p.2) ++ ")") =
              .ok (.annotate source ⟨typeName, contents.map fun p => ⟨p.1, written p.2⟩⟩) ∧
            (contents.map fun p => Parameter.content ⟨p.1, written p.2⟩) = contents.map (·.2)) ∧
      (settings.allowUnnamed = true → ∀ content : String,
        Mapping.parse settings (source ++ " @ " ++ typeName ++ "(" ++ written content ++ ")") =
            .ok (.annotate source ⟨typeName, [⟨"", written content⟩]⟩) ∧
          Parameter.isPositional ⟨"", written content⟩ = true ∧
            Parameter.content ⟨"", written content⟩ = content) := by
  constructor
  · intro contents hne hdistinct hplain
    have hparse := Mapping.parse_text_annotate hpackage hsource htypeName
      (Argument.namesWellFormed_ofContents hdistinct hplain)
      (Argument.wellFormed_ofContents contents) (by simpa [Argument.ofContents] using hne)
    rw [Argument.texts_ofContents hplain, Argument.parameters_ofContents] at hparse
    exact ⟨hparse, by simp⟩
  · intro hallowed content
    have hvalues : ∀ a ∈ [Argument.ofContent none content], a.value.WellFormed := by
      intro a ha
      obtain rfl := List.mem_singleton.1 ha
      exact Value.wellFormed_ofContent content
    have hparse := Mapping.parse_text_annotate hpackage hsource htypeName
      (.inr ⟨hallowed, _, rfl, rfl⟩) hvalues (List.cons_ne_nil _ _)
    refine ⟨?_, rfl, by simp⟩
    simpa [Parameter.text, Parameter.isPositional] using hparse

theorem parse_written_quote :
    Mapping.parse {} "A @ B(p=\"a\\\", c)\", q=\"\")" =
        .ok (.annotate "A" ⟨"B", [⟨"p", "\"a\\\", c)\""⟩, ⟨"q", "\"\""⟩]⟩) ∧
      Mapping.parse {} "A @ B(x)" = .ok (.annotate "A" ⟨"B", [⟨"", "x"⟩]⟩) :=
  have h := parse_written {} rfl "A" "B" (by decide) (by decide)
  ⟨(h.1 [("p", "a\", c)"), ("q", "")] (by decide) (by decide) (by decide)).1, (h.2 rfl "x").1⟩

end Typemap

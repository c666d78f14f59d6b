import Mathlib.Data.List.Basic
import Typemap.Mapping.WellFormed
import Typemap.Proofs.Mapping.Canonical

/-!
# Mappings that are read are well formed

A mapping is well formed if and only if it is the meaning of a well-formed
expression. The generic arguments of such a mapping are the texts of target
types, and its parameters are written words and literals. As the canonical text
of a well-formed expression is read as that expression, exactly the well-formed
mappings are read off texts.
-/

namespace Typemap

variable {settings : Settings}

namespace Generics

theorem names_subset_of_mem {g : Generics} {t : Target} (h : t ∈ g.toList) :
    ∀ name ∈ t.names, name ∈ g.names := by
  induction g with
  | nil => simp [toList] at h
  | cons name inner rest _ ihRest =>
      intro other hother
      rw [names]
      rcases List.mem_cons.1 h with rfl | hrest
      · exact List.mem_append_left _ hother
      · exact List.mem_append_right _ (ihRest hrest other hother)

theorem depth_lt_of_mem {g : Generics} {t : Target} (h : t ∈ g.toList) :
    t.generics.depth < g.depth := by
  induction g with
  | nil => simp [toList] at h
  | cons name inner rest _ ihRest =>
      rw [depth]
      rcases List.mem_cons.1 h with rfl | hrest
      · exact Nat.lt_of_lt_of_le (Nat.lt_succ_self _) (Nat.le_max_left _ _)
      · exact Nat.lt_of_lt_of_le (ihRest hrest) (Nat.le_max_right _ _)

theorem blankless_text {g : Generics} (h : ∀ name ∈ g.names, Name.IsQualified name.toList)
    (first : Bool) : ∀ c ∈ (g.text first).toList, isBlank c = false := by
  induction g generalizing first with
  | nil =>
      intro c hc
      cases first <;> simp [text] at hc
      subst hc
      rfl
  | cons name inner rest ihInner ihRest =>
      simp only [names, List.mem_append, List.mem_cons] at h
      have hname := h name (.inl (.inl rfl))
      have hinner := ihInner (fun other hother => h other (.inl (.inr hother))) true
      have hrest := ihRest (fun other hother => h other (.inr hother)) false
      intro c hc
      simp only [text, String.toList_append, List.mem_append] at hc
      rcases hc with ((hsign | hc) | hc) | hc
      · cases first <;> simp at hsign <;> subst hsign <;> rfl
      · exact Name.isBlank_eq_false_of_isQualified hname c hc
      · exact hinner c hc
      · exact hrest c hc

end Generics

theorem Target.blankless_text {t : Target} (h : ∀ name ∈ t.names, Name.IsQualified name.toList) :
    ∀ c ∈ t.text.toList, isBlank c = false := by
  intro c hc
  rw [text, String.toList_append] at hc
  rcases List.mem_append.1 hc with hname | hgenerics
  · exact Name.isBlank_eq_false_of_isQualified (h t.name List.mem_cons_self) c hname
  · exact Generics.blankless_text (fun name hname => h name (List.mem_cons_of_mem _ hname)) true c
      hgenerics

theorem isGenericText_of_mem {g : Generics}
    (hnames : ∀ name ∈ g.names, Name.IsQualified name.toList)
    (hdepth : g.depth ≤ settings.maxDepth) {t : Target} (ht : t ∈ g.toList) :
    IsGenericText settings t.text := by
  have htnames : ∀ name ∈ t.names, Name.IsQualified name.toList :=
    fun name hname => hnames name (Generics.names_subset_of_mem ht name hname)
  have htdepth := Nat.lt_of_lt_of_le (Generics.depth_lt_of_mem ht) hdepth
  exact ⟨Target.blankless_text htnames, t, rfl, htnames, htdepth⟩

/-- Generic texts are the texts of a list that is allowed inside a target type. -/
theorem exists_targets {texts : List String} (h : ∀ text ∈ texts, IsGenericText settings text) :
    ∃ ts : List Target, ts.map (·.text) = texts ∧
      (∀ name ∈ (Generics.ofList ts).names, Name.IsQualified name.toList) ∧
        (Generics.ofList ts).depth ≤ settings.maxDepth := by
  induction texts with
  | nil => exact ⟨[], rfl, by simp [Generics.ofList, Generics.names], Nat.zero_le _⟩
  | cons text texts ih =>
      obtain ⟨t, rfl, hnames, hdepth⟩ := (h text List.mem_cons_self).ofTarget
      obtain ⟨ts, rfl, hrestNames, hrestDepth⟩ :=
        ih fun other hother => h other (List.mem_cons_of_mem _ hother)
      refine ⟨t :: ts, rfl, ?_, ?_⟩
      · intro name hname
        rcases List.mem_append.1 hname with hname | hname
        · exact hnames name hname
        · exact hrestNames name hname
      · exact Nat.max_le.2 ⟨hdepth, hrestDepth⟩

theorem Value.WellFormed.isValueText {value : Value} (h : value.WellFormed) :
    IsValueText value.text := by
  cases value with
  | bare text => exact .inl h
  | quoted text => exact .inr h

namespace Parameter

/-- The argument that a parameter is the meaning of. -/
def toArgument (p : Parameter) : Argument :=
  ⟨if p.isPositional then none else some p.name,
    if p.isQuoted then .quoted p.value else .bare p.value, default⟩

@[simp] theorem toParameter_toArgument (p : Parameter) : p.toArgument.toParameter = p := by
  obtain ⟨name, value⟩ := p
  have hname : (if name.isEmpty then none else some name).getD "" = name := by
    by_cases h : name = "" <;> simp [h]
  have hvalue (quoted : Bool) :
      (if quoted then Value.quoted value else .bare value).text = value := by
    cases quoted <;> rfl
  rw [Argument.toParameter, toArgument, hvalue]
  exact congrArg (Parameter.mk · value) hname

theorem wellFormed_toArgument {p : Parameter} (h : IsValueText p.value) :
    p.toArgument.value.WellFormed := by
  rw [toArgument, isQuoted]
  rcases h with hword | hliteral
  · rw [Literal.isQuoted_of_word (Token.isLexeme_word_iff.1 hword).2]
    exact hword
  · generalize hcs : p.value.toList = cs at hliteral
    cases hliteral with
    | sign hsign => simp [Token.Kind.sign?] at hsign
    | literal hq hbody =>
        rw [Literal.isQuoted_delimited hq, if_pos rfl, Value.WellFormed, hcs]
        exact .literal hq hbody

theorem name?_toArgument {p : Parameter} (h : Name.isPlain p.name.toList = true) :
    p.toArgument.name? = some p.name := by
  have hne : p.name ≠ "" := by
    intro hempty
    simp [hempty, Name.isPlain] at h
  simp [toArgument, isPositional, hne]

end Parameter

/-- Names that are all given differ as the names of the parameters. -/
theorem nodup_names_of_nodup {arguments : List Argument}
    (hgiven : ∀ a ∈ arguments, ∃ name, a.name? = some name)
    (h : (arguments.map (·.name?)).Nodup) :
    ((arguments.map (·.toParameter)).map (·.name)).Nodup := by
  rw [List.Nodup, List.pairwise_map] at h
  rw [List.Nodup, List.map_map, List.pairwise_map]
  apply h.imp_of_mem
  intro a b ha hb hne
  obtain ⟨name, hname⟩ := hgiven a ha
  obtain ⟨other, hother⟩ := hgiven b hb
  intro heq
  apply hne
  simpa [Argument.toParameter, hname, hother] using heq

namespace Expression

variable {e : Expression}

theorem NamesWellFormed.distinct {arguments : List Argument}
    (h : NamesWellFormed settings arguments) :
    ((arguments.map (·.toParameter)).map (·.name)).Nodup := by
  rcases h with ⟨hgiven, hdistinct⟩ | ⟨-, a, rfl, -⟩
  · refine nodup_names_of_nodup (fun a ha => ?_) hdistinct
    obtain ⟨name, hname, -⟩ := hgiven a ha
    exact ⟨name, hname⟩
  · exact List.pairwise_singleton _ _

theorem NamesWellFormed.parameterNames {arguments : List Argument}
    (h : NamesWellFormed settings arguments) :
    ParameterNamesWellFormed settings (arguments.map (·.toParameter)) := by
  rcases h with ⟨hgiven, -⟩ | ⟨hallowed, a, rfl, hname⟩
  · left
    intro p hp
    obtain ⟨a, ha, rfl⟩ := List.mem_map.1 hp
    obtain ⟨name, hname, hplain⟩ := hgiven a ha
    simpa [Argument.toParameter, hname] using hplain
  · right
    exact ⟨hallowed, a.value.text, by simp [Argument.toParameter, hname]⟩

theorem WellFormed.ofExpression (h : e.WellFormed settings) :
    (Mapping.ofExpression e).WellFormed settings := by
  obtain ⟨source, clause⟩ := e
  obtain ⟨hsource, hclause⟩ := h
  cases clause with
  | map target =>
      obtain ⟨name, generics⟩ := target
      obtain ⟨hformat, hnames, hdepth⟩ := hclause
      have hsourceType : source.toSourceType.WellFormed := by
        refine ⟨hsource, ?_⟩
        intro format hmem
        obtain ⟨f, hf, rfl⟩ := Option.map_eq_some_iff.1 hmem
        exact hformat f hf
      have hname := hnames name List.mem_cons_self
      by_cases hne : generics = .nil
      · subst hne
        exact .type hsourceType hname
      · rw [Mapping.ofExpression_map hne]
        apply Mapping.WellFormed.map hsourceType hname
        · simpa using Generics.toList_ne_nil hne
        · intro text htext
          obtain ⟨t, ht, rfl⟩ := List.mem_map.1 htext
          have hrest : ∀ other ∈ generics.names, Name.IsQualified other.toList :=
            fun other hother => hnames other (List.mem_cons_of_mem name hother)
          exact isGenericText_of_mem hrest hdepth ht
  | annotate name arguments =>
      obtain ⟨-, hname, hnames, hvalues⟩ := hclause
      apply Mapping.WellFormed.annotate hsource hname hnames.distinct hnames.parameterNames
      intro p hp
      obtain ⟨a, ha, rfl⟩ := List.mem_map.1 hp
      exact (hvalues a ha).isValueText

end Expression

namespace SourceType

/-- The source type of an expression that a source type is the meaning of. -/
def toSource (s : SourceType) : Source := ⟨s.name, s.format?.map fun text => ⟨text, default⟩⟩

@[simp] theorem toSourceType_toSource (s : SourceType) : s.toSource.toSourceType = s := by
  obtain ⟨name, _ | format⟩ := s <;> rfl

theorem WellFormed.isFormat_toSource {s : SourceType} (h : s.WellFormed) :
    ∀ format ∈ s.toSource.format?, Name.isFormat format.text.toList = true := by
  intro format hformat
  obtain ⟨text, htext, rfl⟩ := Option.map_eq_some_iff.1 hformat
  exact h.format text htext

end SourceType

theorem ParameterNamesWellFormed.toArguments {parameters : List Parameter}
    (h : ParameterNamesWellFormed settings parameters)
    (hdistinct : (parameters.map (·.name)).Nodup) :
    Expression.NamesWellFormed settings (parameters.map (·.toArgument)) := by
  rcases h with hplain | ⟨hallowed, value, rfl⟩
  · left
    constructor
    · intro a ha
      obtain ⟨p, hp, rfl⟩ := List.mem_map.1 ha
      exact ⟨p.name, Parameter.name?_toArgument (hplain p hp), hplain p hp⟩
    · rw [List.Nodup, List.pairwise_map] at hdistinct
      rw [List.Nodup, List.map_map, List.pairwise_map]
      apply hdistinct.imp_of_mem
      intro p q hp hq hne heq
      rw [Function.comp, Function.comp, Parameter.name?_toArgument (hplain p hp),
        Parameter.name?_toArgument (hplain q hq)] at heq
      exact hne (Option.some.inj heq)
  · exact .inr ⟨hallowed, _, rfl, rfl⟩

namespace Mapping

variable {m : Mapping}

theorem WellFormed.exists_expression (h : m.WellFormed settings) :
    ∃ e : Expression, e.WellFormed settings ∧ ofExpression e = m := by
  cases h with
  | @type source target hsource htarget =>
      refine ⟨⟨source.toSource, .map ⟨target, .nil⟩⟩,
        ⟨hsource.name, hsource.isFormat_toSource, ?_, ?_⟩, ?_⟩
      · intro name hname
        obtain rfl := List.mem_singleton.1 hname
        exact htarget
      · exact Nat.zero_le _
      · rw [ofExpression, SourceType.toSourceType_toSource]
  | @map source target generics hsource htarget hne hgenerics =>
      obtain ⟨ts, rfl, hnames, hdepth⟩ := exists_targets hgenerics
      refine ⟨⟨source.toSource, .map ⟨target, .ofList ts⟩⟩,
        ⟨hsource.name, hsource.isFormat_toSource, ?_, hdepth⟩, ?_⟩
      · intro name hname
        rcases List.mem_cons.1 hname with rfl | hname
        · exact htarget
        · exact hnames name hname
      · have hlist : Generics.ofList ts ≠ .nil := by
          intro hnil
          have htoList := Generics.toList_ofList ts
          rw [hnil] at htoList
          exact hne (by rw [← htoList]; rfl)
        rw [ofExpression_map hlist, SourceType.toSourceType_toSource, Generics.toList_ofList]
  | @annotate sourceName typeName parameters hsource htype hdistinct hnames hvalues =>
      refine ⟨⟨⟨sourceName, none⟩, .annotate typeName (parameters.map (·.toArgument))⟩,
        ⟨hsource, rfl, htype, hnames.toArguments hdistinct, ?_⟩, ?_⟩
      · intro a ha
        obtain ⟨p, hp, rfl⟩ := List.mem_map.1 ha
        exact Parameter.wellFormed_toArgument (hvalues p hp)
      · simp [ofExpression, Function.comp_def]

/-- A well-formed mapping is read off its canonical text. -/
theorem WellFormed.parse_canonical (hpackage : settings.package? = none)
    (h : m.WellFormed settings) : parse settings m.text = .ok m := by
  obtain ⟨e, he, rfl⟩ := h.exists_expression
  exact parse_text_ofExpression hpackage he

end Mapping

/-- Without a package exactly the well-formed mappings are read off texts. -/
theorem exists_parse_iff_wellFormed (settings : Settings) (hpackage : settings.package? = none)
    (m : Mapping) : (∃ text, Mapping.parse settings text = .ok m) ↔ m.WellFormed settings := by
  constructor
  · rintro ⟨text, hparse⟩
    obtain ⟨e, he, rfl⟩ := Mapping.exists_expression_of_parse hpackage hparse
    exact he.ofExpression
  · exact fun h => ⟨m.text, h.parse_canonical hpackage⟩

/-- The inner list of the first argument uses up the second level. -/
theorem exists_parse_iff_wellFormed_nested :
    Mapping.parse { maxDepth := 2 } "A(x-1) => B<C<D, E>, F>" =
        .ok (.map ⟨"A", some "x-1"⟩ "B" ["C<D,E>", "F"]) ∧
      Mapping.WellFormed { maxDepth := 2 } (.map ⟨"A", some "x-1"⟩ "B" ["C<D,E>", "F"]) := by
  have hparse : Mapping.parse { maxDepth := 2 } "A(x-1) => B<C<D, E>, F>" =
      .ok (.map ⟨"A", some "x-1"⟩ "B" ["C<D,E>", "F"]) := by
    decide +kernel
  exact ⟨hparse, (exists_parse_iff_wellFormed { maxDepth := 2 } rfl _).1 ⟨_, hparse⟩⟩

end Typemap

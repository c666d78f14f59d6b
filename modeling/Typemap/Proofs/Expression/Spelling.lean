import Typemap.Expression.Grammar
import Typemap.Expression.Unplaced
import Typemap.Expression.WellFormed
import Typemap.Proofs.Name
import Typemap.Proofs.Token.Spelling

/-!
# Canonical texts have derivations

Each part of a well-formed expression has a text that spells a derivation of the
same part. Generic lists are written without blanks inside a list and with them
at the top, which is why the lemmas on lists leave the separator open.
-/

namespace Typemap

namespace Generics

/-- Behind its first argument a list is text that its last bracket ends. -/
theorem intercalate_cons_append (item : String) (g : Generics) :
    ",".intercalate (item :: g.toList.map Target.text) ++ ">" = item ++ g.text false := by
  induction g generalizing item with
  | nil => simp [toList, text]
  | cons name inner rest _ ih =>
      rw [toList, List.map_cons, String.intercalate_cons_cons, String.append_assoc, ih]
      simp [Target.text, text, String.append_assoc]

theorem text_true_of_ne_nil {g : Generics} (h : g ≠ nil) :
    g.text true = "<" ++ ",".intercalate (g.toList.map Target.text) ++ ">" := by
  cases g with
  | nil => exact absurd rfl h
  | cons name inner rest =>
      rw [toList, List.map_cons, String.append_assoc, intercalate_cons_append]
      simp [Target.text, text, String.append_assoc]

end Generics

open Token Grammar

namespace Grammar

theorem isName_of_isQualified {name : String} {span : Span} (h : Name.IsQualified name.toList) :
    IsName ⟨.word, name, span⟩ :=
  ⟨rfl, h⟩

theorem spells_source {s : Source} (hname : Name.IsQualified s.name.toList)
    (hformat : ∀ format ∈ s.format?, Name.isFormat format.text.toList = true) :
    Spells s.toSourceType.text .word
      fun us => ∃ d : SourceTree, d.tokens = us ∧ d.source.unplaced = s.unplaced := by
  have hword := spells_lexeme (Name.isLexeme_of_isQualified hname)
  obtain ⟨name, _ | format⟩ := s
  · apply hword.imp
    rintro _ ⟨span, rfl⟩
    exact ⟨.plain _ (isName_of_isQualified hname), rfl, rfl⟩
  · have hisFormat := hformat format rfl
    have hopen := hword.append (spells_sign .lparen "(" rfl (by decide) .comma)
      fun rest => endsBefore_cons rfl rest
    have htext := hopen.append (spells_lexeme (Name.isLexeme_of_isFormat hisFormat))
      fun _ => trivial
    apply (htext.append (spells_sign .rparen ")" rfl (by decide) .word)
      fun rest => endsBefore_cons rfl rest).imp
    rintro _ ⟨_, _, ⟨_, _, ⟨_, _, ⟨span₁, rfl⟩, ⟨span₂, rfl⟩, rfl⟩, ⟨span₃, rfl⟩, rfl⟩,
      ⟨span₄, rfl⟩, rfl⟩
    exact ⟨.formatted _ _ _ _ (isName_of_isQualified hname) rfl rfl hisFormat rfl, rfl, rfl⟩

/-- The tokens of a target type. -/
def IsTarget (t : Target) (us : List Token) : Prop :=
  ∃ d : TargetTree, d.tokens = us ∧ d.target = t

theorem exists_genericsTree {ts : List Target} {us : List Token} (h : Separated IsTarget ts us) :
    ∃ d : GenericsTree, d.tokens = us ∧ d.generics = .ofList ts := by
  induction h with
  | last h =>
      obtain ⟨d, rfl, rfl⟩ := h
      exact ⟨.last d, rfl, rfl⟩
  | more h hcomma _ ih =>
      obtain ⟨d, rfl, rfl⟩ := h
      obtain ⟨list, rfl, hlist⟩ := ih
      refine ⟨.more d _ list hcomma, rfl, ?_⟩
      rw [GenericsTree.generics, hlist]
      rfl

theorem spells_generic {separator name : String} (hseparator : IsSeparator separator)
    (hname : Name.IsQualified name.toList) {g : Generics} (hne : g ≠ .nil)
    (hg : ∀ t ∈ g.toList, Spells t.text .word (IsTarget t)) :
    Spells (name ++ "<" ++ separator.intercalate (g.toList.map Target.text) ++ ">") .word
      (IsTarget ⟨name, g⟩) := by
  have hword := spells_lexeme (Name.isLexeme_of_isQualified hname)
  have hopen := hword.append (spells_sign .langle "<" rfl (by decide) .comma)
    fun rest => endsBefore_cons rfl rest
  have harguments := spells_separated hseparator (Generics.toList_ne_nil hne) hg
  have hlist := hopen.append harguments fun _ => trivial
  apply (hlist.append (spells_sign .rangle ">" rfl (by decide) .word)
    fun rest => endsBefore_cons rfl rest).imp
  rintro _ ⟨_, _, ⟨_, _, ⟨_, _, ⟨span₁, rfl⟩, ⟨span₂, rfl⟩, rfl⟩, htargets, rfl⟩, ⟨span₃, rfl⟩, rfl⟩
  obtain ⟨list, rfl, hgenerics⟩ := exists_genericsTree htargets
  refine ⟨.generic ⟨.word, name, span₁⟩ ⟨.langle, "<", span₂⟩ list ⟨.rangle, ">", span₃⟩
    (isName_of_isQualified hname) rfl rfl, by simp [TargetTree.tokens], ?_⟩
  rw [TargetTree.target, hgenerics, Generics.ofList_toList]

theorem spells_target {t : Target} (hname : Name.IsQualified t.name.toList)
    (hts : ∀ u ∈ t.generics.toList, Spells u.text .word (IsTarget u)) :
    Spells t.text .word (IsTarget t) := by
  obtain ⟨name, generics⟩ := t
  by_cases hne : generics = .nil
  · subst hne
    rw [Target.text, Generics.text, if_pos rfl, String.append_empty]
    apply (spells_lexeme (Name.isLexeme_of_isQualified hname)).imp
    rintro _ ⟨span, rfl⟩
    exact ⟨.plain _ (isName_of_isQualified hname), rfl, rfl⟩
  · rw [Target.text, Generics.text_true_of_ne_nil hne, ← String.append_assoc,
      ← String.append_assoc]
    exact spells_generic isSeparator_comma hname hne hts

theorem spells_members {g : Generics} (h : ∀ name ∈ g.names, Name.IsQualified name.toList) :
    ∀ t ∈ g.toList, Spells t.text .word (IsTarget t) := by
  induction g with
  | nil =>
      intro t ht
      simp [Generics.toList] at ht
  | cons name inner rest ihInner ihRest =>
      simp only [Generics.names, List.mem_append, List.mem_cons] at h
      intro t ht
      rcases List.mem_cons.1 ht with rfl | ht
      · exact spells_target (h name (.inl (.inl rfl)))
          (ihInner fun name hname => h name (.inl (.inr hname)))
      · exact ihRest (fun name hname => h name (.inr hname)) t ht

theorem spells_value {value : Value} (h : value.WellFormed) :
    Spells value.text .word fun us => ∃ d : ValueTree, [d.token] = us ∧ d.value = value := by
  cases value with
  | bare text =>
      apply (spells_lexeme h).imp
      rintro _ ⟨span, rfl⟩
      exact ⟨.bare ⟨.word, text, span⟩ rfl, rfl, rfl⟩
  | quoted text =>
      apply ((spells_lexeme h).ends (fun _ => trivial) .word).imp
      rintro _ ⟨span, rfl⟩
      exact ⟨.quoted ⟨.literal, text, span⟩ rfl, rfl, rfl⟩

/-- The tokens of a named parameter, up to places. -/
def IsNamed (a : Argument) (us : List Token) : Prop :=
  ∃ d : NamedTree, d.tokens = us ∧ d.argument.unplaced = a.unplaced

theorem spells_named {a : Argument} {name : String} (hname : a.name? = some name)
    (hplain : Name.isPlain name.toList = true) (hvalue : a.value.WellFormed) :
    Spells a.toParameter.text .word (IsNamed a) := by
  have htext : a.toParameter.text = name ++ "=" ++ a.value.text := by
    have hne : name ≠ "" := by
      rintro rfl
      simp [Name.isPlain] at hplain
    simp [Argument.toParameter, Parameter.text, Parameter.isPositional, hname, hne]
  have hends (rest : List Char) : EndsBefore (a.value.text.toList ++ rest) .equals := by
    cases hv : a.value with
    | bare text =>
        rw [hv] at hvalue
        exact endsBefore_equals_of_isLexeme hvalue (by decide) rest
    | quoted text =>
        rw [hv] at hvalue
        exact endsBefore_equals_of_isLexeme hvalue (by decide) rest
  have hsign : Spells "=" .equals (Single .equals "=") := spells_lexeme (.sign rfl)
  have hequals := (spells_lexeme (Name.isLexeme_of_isPlain hplain)).append hsign
    fun rest => endsBefore_cons rfl rest
  rw [htext]
  apply (hequals.append (spells_value hvalue) hends).imp
  rintro _ ⟨_, _, ⟨_, _, ⟨span₁, rfl⟩, ⟨span₂, rfl⟩, rfl⟩, ⟨d, rfl, hd⟩, rfl⟩
  refine ⟨⟨⟨.word, name, span₁⟩, ⟨.equals, "=", span₂⟩, d, rfl, hplain, rfl⟩, rfl, ?_⟩
  obtain ⟨_, value, span⟩ := a
  subst hname hd
  rfl

theorem exists_parametersTree {arguments : List Argument} {us : List Token}
    (h : Separated IsNamed arguments us) :
    ∃ d : ParametersTree, d.tokens = us ∧
      d.arguments.map (·.unplaced) = arguments.map (·.unplaced) := by
  induction h with
  | last h =>
      obtain ⟨d, rfl, hd⟩ := h
      exact ⟨.last d, rfl, congrArg (fun a => [a]) hd⟩
  | more h hcomma _ ih =>
      obtain ⟨d, rfl, hd⟩ := h
      obtain ⟨list, rfl, hlist⟩ := ih
      refine ⟨.more d _ list hcomma, rfl, ?_⟩
      rw [ParametersTree.arguments, List.map_cons, List.map_cons, hd, hlist]

variable {settings : Settings}

theorem spells_arguments {arguments : List Argument} (hne : arguments ≠ [])
    (hnames : Expression.NamesWellFormed settings arguments)
    (hvalues : ∀ a ∈ arguments, a.value.WellFormed) :
    Spells (listed (arguments.map (·.toParameter.text))) .word
      fun us => ∃ d : ArgumentsTree settings, d.tokens = us ∧
        d.arguments.map (·.unplaced) = arguments.map (·.unplaced) := by
  rcases hnames with ⟨hnamed, hdistinct⟩ | ⟨hallowed, a, rfl, hname⟩
  · have hitems : ∀ a ∈ arguments, Spells a.toParameter.text .word (IsNamed a) := by
      intro a ha
      obtain ⟨name, hname, hplain⟩ := hnamed a ha
      exact spells_named hname hplain (hvalues a ha)
    rw [listed_eq_intercalate]
    apply (spells_separated isSeparator_comma_blank hne hitems).imp
    intro us hus
    obtain ⟨d, rfl, hd⟩ := exists_parametersTree hus
    have hdnames : d.arguments.map (·.name?) = arguments.map (·.name?) := by
      simpa [Function.comp_def] using congrArg (List.map (·.name?)) hd
    exact ⟨.named d (hdnames ▸ hdistinct), rfl, hd⟩
  · obtain ⟨_, value, span⟩ := a
    subst hname
    apply (spells_value (hvalues _ List.mem_cons_self)).imp
    rintro _ ⟨d, rfl, rfl⟩
    exact ⟨.unnamed d hallowed, rfl, rfl⟩

/-- The tokens of an expression, up to places. -/
def IsExpression (settings : Settings) (e : Expression) (us : List Token) : Prop :=
  ∃ d : Derivation settings, d.tokens = us ∧ d.expression.unplaced = e.unplaced

/-- At the top a list has blanks behind its commas. -/
theorem exists_target_text (source : Source) {target : Target}
    (hnames : ∀ name ∈ target.names, Name.IsQualified name.toList) :
    ∃ text, Spells text .word (IsTarget target) ∧
      (Mapping.ofExpression ⟨source, .map target⟩).text =
        source.toSourceType.text ++ " => " ++ text := by
  obtain ⟨name, generics⟩ := target
  have hname := hnames name List.mem_cons_self
  have hmembers := spells_members fun inner hinner =>
    hnames inner (List.mem_cons_of_mem name hinner)
  cases generics with
  | nil =>
      refine ⟨_, spells_target hname hmembers, ?_⟩
      simp [Target.text, Generics.text, Mapping.ofExpression, Mapping.text]
  | cons first inner rest =>
      refine ⟨_, spells_generic isSeparator_comma_blank hname Generics.noConfusion hmembers, ?_⟩
      simp [Mapping.ofExpression, Mapping.text, listed_eq_intercalate, String.append_assoc]

theorem spells_map {source : Source} (hname : Name.IsQualified source.name.toList)
    {target : Target} (h : Expression.ClauseWellFormed settings source (.map target)) :
    Spells (Mapping.ofExpression ⟨source, .map target⟩).text .word
      (IsExpression settings ⟨source, .map target⟩) := by
  obtain ⟨hformat, hnames, hdepth⟩ := h
  obtain ⟨text, htarget, htext⟩ := exists_target_text source hnames
  have harrow := (spells_source hname hformat).append
    (spells_spaced .arrow "=>" rfl (by decide) .comma) fun rest => endsBefore_cons rfl _
  rw [htext]
  apply (harrow.append htarget fun _ => trivial).imp
  rintro _ ⟨_, _, ⟨_, _, ⟨d, rfl, hd⟩, ⟨span, rfl⟩, rfl⟩, ⟨d', rfl, rfl⟩, rfl⟩
  refine ⟨.map d ⟨.arrow, "=>", span⟩ d' rfl hdepth, by simp [Derivation.tokens], ?_⟩
  simp [Derivation.expression, Expression.unplaced, hd]

/-- The tokens of an annotation up to its name. -/
def IsAnnotated (sourceName name : String) (us : List Token) : Prop :=
  ∃ (d : SourceTree) (mark nameToken : Token), d.tokens ++ [mark, nameToken] = us ∧
    d.source = ⟨sourceName, none⟩ ∧ mark.kind = .atSign ∧ IsName nameToken ∧
      nameToken.lexeme = name

theorem spells_annotated {sourceName name : String} (hsource : Name.IsQualified sourceName.toList)
    (hname : Name.IsQualified name.toList) :
    Spells (sourceName ++ " @ " ++ name) .word (IsAnnotated sourceName name) := by
  have hword := spells_lexeme (Name.isLexeme_of_isQualified hsource)
  have hmark := hword.append (spells_spaced .atSign "@" rfl (by decide) .comma)
    fun rest => endsBefore_cons rfl _
  apply (hmark.append (spells_lexeme (Name.isLexeme_of_isQualified hname)) fun _ => trivial).imp
  rintro _ ⟨_, _, ⟨_, _, ⟨span₁, rfl⟩, ⟨span₂, rfl⟩, rfl⟩, ⟨span₃, rfl⟩, rfl⟩
  exact ⟨.plain ⟨.word, sourceName, span₁⟩ (isName_of_isQualified hsource), _, _, rfl, rfl, rfl,
    isName_of_isQualified hname, rfl⟩

theorem spells_annotate {source : Source} (hname : Name.IsQualified source.name.toList)
    {name : String} {arguments : List Argument}
    (h : Expression.ClauseWellFormed settings source (.annotate name arguments)) :
    Spells (Mapping.ofExpression ⟨source, .annotate name arguments⟩).text .word
      (IsExpression settings ⟨source, .annotate name arguments⟩) := by
  obtain ⟨sourceName, format?⟩ := source
  obtain ⟨hformat, htypeName, hnames, hvalues⟩ := h
  obtain rfl : format? = none := hformat
  have hannotated := spells_annotated hname htypeName
  by_cases hne : arguments = []
  · subst hne
    apply hannotated.imp
    rintro _ ⟨d, mark, nameToken, rfl, hd, hmark, hisName, rfl⟩
    refine ⟨.annotate d mark nameToken (by rw [hd]) hmark hisName, rfl, ?_⟩
    rw [Derivation.expression, hd]
  · have hopen := hannotated.append (spells_sign .lparen "(" rfl (by decide) .comma)
      fun rest => endsBefore_cons rfl rest
    have hlist := hopen.append (spells_arguments hne hnames hvalues) fun _ => trivial
    have htext : (Mapping.ofExpression ⟨⟨sourceName, none⟩, .annotate name arguments⟩).text =
        sourceName ++ " @ " ++ name ++ "(" ++ listed (arguments.map (·.toParameter.text)) ++
          ")" := by
      simp [Mapping.ofExpression, Mapping.text, Annotation.text, hne, Function.comp_def,
        String.append_assoc]
    rw [htext]
    apply (hlist.append (spells_sign .rparen ")" rfl (by decide) .word)
      fun rest => endsBefore_cons rfl rest).imp
    rintro _ ⟨_, _, ⟨_, _, ⟨_, _, ⟨d, mark, nameToken, rfl, hd, hmark, hisName, rfl⟩, ⟨span₁, rfl⟩,
      rfl⟩, ⟨list, rfl, hlist⟩, rfl⟩, ⟨span₂, rfl⟩, rfl⟩
    refine ⟨.annotateWith d mark nameToken ⟨.lparen, "(", span₁⟩ list ⟨.rparen, ")", span₂⟩
      (by rw [hd]) hmark hisName rfl rfl, by simp [Derivation.tokens], ?_⟩
    rw [Derivation.expression, Expression.unplaced, Clause.unplaced, hlist, hd]
    rfl

/-- The canonical text of a well-formed expression spells a derivation of it. -/
theorem spells_expression {e : Expression} (h : e.WellFormed settings) :
    Spells (Mapping.ofExpression e).text .word (IsExpression settings e) := by
  obtain ⟨source, clause⟩ := e
  cases clause with
  | map target => exact spells_map h.source h.clause
  | annotate name arguments => exact spells_annotate h.source h.clause

end Grammar

end Typemap

import Typemap.Expression.WellFormed
import Typemap.Proofs.Expression.Recognition
import Typemap.Proofs.Token.Tiling

/-!
# Expressions that are read are well formed

The side conditions of the grammar are those of well-formed expressions. Only
the values need the tokens to be lexemes, which those of a scanned text are.
-/

namespace Typemap

open Token Grammar

variable {settings : Settings}

namespace Grammar

theorem SourceTree.isQualified (d : SourceTree) : Name.IsQualified d.source.name.toList := by
  cases d with
  | plain name hname => exact hname.isQualified
  | formatted name opening format closing hname => exact hname.isQualified

theorem SourceTree.isFormat (d : SourceTree) :
    ∀ format ∈ d.source.format?, Name.isFormat format.text.toList = true := by
  cases d with
  | plain name hname => simp [source]
  | formatted name opening format closing hname hopening hword hformat =>
      intro f hf
      obtain rfl := Option.some.inj hf
      exact hformat

mutual

theorem TargetTree.isQualified (d : TargetTree) :
    ∀ name ∈ d.target.names, Name.IsQualified name.toList := by
  intro inner hinner
  cases d with
  | plain name hname =>
      obtain rfl := List.mem_singleton.1 hinner
      exact hname.isQualified
  | generic name opening list closing hname =>
      rcases List.mem_cons.1 hinner with rfl | hinner
      · exact hname.isQualified
      · exact GenericsTree.isQualified list inner hinner

theorem GenericsTree.isQualified (d : GenericsTree) :
    ∀ name ∈ d.generics.names, Name.IsQualified name.toList := by
  intro inner hinner
  cases d with
  | last target =>
      rw [GenericsTree.generics, Generics.names, Generics.names, List.append_nil] at hinner
      exact TargetTree.isQualified target inner hinner
  | more target comma rest hcomma =>
      rw [GenericsTree.generics, Generics.names] at hinner
      rcases List.mem_append.1 hinner with hinner | hinner
      · exact TargetTree.isQualified target inner hinner
      · exact GenericsTree.isQualified rest inner hinner

end

theorem ValueTree.wellFormed {d : ValueTree} (h : IsLexeme d.token.kind d.token.lexeme.toList) :
    d.value.WellFormed := by
  cases d with
  | bare token hword =>
      rw [ValueTree.token, hword] at h
      exact h
  | quoted token hliteral =>
      rw [ValueTree.token, hliteral] at h
      exact h

theorem ParametersTree.exists_isPlain (d : ParametersTree) :
    ∀ a ∈ d.arguments, ∃ name, a.name? = some name ∧ Name.isPlain name.toList = true := by
  induction d with
  | last parameter =>
      intro a ha
      obtain rfl := List.mem_singleton.1 ha
      exact ⟨_, rfl, parameter.isPlain⟩
  | more parameter comma rest hcomma ih =>
      intro a ha
      rcases List.mem_cons.1 ha with rfl | ha
      · exact ⟨_, rfl, parameter.isPlain⟩
      · exact ih a ha

theorem ParametersTree.wellFormed {d : ParametersTree}
    (h : ∀ t ∈ d.tokens, IsLexeme t.kind t.lexeme.toList) :
    ∀ a ∈ d.arguments, a.value.WellFormed := by
  induction d with
  | last parameter =>
      intro a ha
      obtain rfl := List.mem_singleton.1 ha
      exact ValueTree.wellFormed (h _ (by simp [tokens, NamedTree.tokens]))
  | more parameter comma rest hcomma ih =>
      intro a ha
      rcases List.mem_cons.1 ha with rfl | ha
      · exact ValueTree.wellFormed (h _ (by simp [tokens, NamedTree.tokens]))
      · exact ih (fun t ht => h t (by simp [tokens, ht])) a ha

theorem ArgumentsTree.namesWellFormed (d : ArgumentsTree settings) :
    Expression.NamesWellFormed settings d.arguments := by
  cases d with
  | named list hdistinct => exact .inl ⟨list.exists_isPlain, hdistinct⟩
  | unnamed value hallowed => exact .inr ⟨hallowed, _, rfl, rfl⟩

theorem ArgumentsTree.wellFormed {d : ArgumentsTree settings}
    (h : ∀ t ∈ d.tokens, IsLexeme t.kind t.lexeme.toList) :
    ∀ a ∈ d.arguments, a.value.WellFormed := by
  cases d with
  | named list hdistinct => exact ParametersTree.wellFormed h
  | unnamed value hallowed =>
      intro a ha
      obtain rfl := List.mem_singleton.1 ha
      exact ValueTree.wellFormed (h _ List.mem_cons_self)

/-- The side conditions of the grammar and the lexemes of the tokens make the
expression well formed. -/
theorem Derivation.wellFormed {d : Derivation settings}
    (h : ∀ t ∈ d.tokens, IsLexeme t.kind t.lexeme.toList) : d.expression.WellFormed settings := by
  cases d with
  | map source arrow target harrow hdepth =>
      exact ⟨source.isQualified, source.isFormat, target.isQualified, hdepth⟩
  | annotate source mark name hplain hmark hname =>
      exact ⟨source.isQualified, hplain, hname.isQualified, .inl ⟨by simp, List.nodup_nil⟩, by simp⟩
  | annotateWith source mark name opening arguments closing hplain hmark hname =>
      exact ⟨source.isQualified, hplain, hname.isQualified, arguments.namesWellFormed,
        ArgumentsTree.wellFormed fun t ht => h t (by simp [tokens, ht])⟩

end Grammar

namespace Expression

/-- A text that is read is tiled by the tokens of a derivation. -/
theorem exists_derivation_of_parse {text : String} {e : Expression}
    (h : parse settings text = .ok e) :
    ∃ d : Derivation settings, d.expression = e ∧
      Tiled 0 text.toList (d.tokens ++ [Token.eof text.length]) ∧
        ∀ t ∈ d.tokens, IsLexeme t.kind t.lexeme.toList := by
  unfold parse at h
  split at h
  · simp at h
  · rename_i ts hscan
    have htiled := tiled_of_scan hscan
    obtain ⟨us, rfl, hus⟩ := htiled.eq_append_eof
    obtain ⟨d, rfl, hd⟩ := exists_derivation_of_ofTokens
      (fun t ht => ne_eof_of_isLexeme (hus t ht)) rfl h
    rw [Nat.zero_add, String.length_toList] at htiled
    exact ⟨d, hd, htiled, hus⟩

theorem wellFormed_of_parse {text : String} {e : Expression} (h : parse settings text = .ok e) :
    e.WellFormed settings := by
  obtain ⟨d, rfl, -, hlexemes⟩ := exists_derivation_of_parse h
  exact Derivation.wellFormed hlexemes

end Expression

/-- Without a package a mapping that was read is the meaning of a well-formed
expression. -/
theorem Mapping.exists_expression_of_parse (hpackage : settings.package? = none) {text : String}
    {m : Mapping} (h : parse settings text = .ok m) :
    ∃ e : Expression, e.WellFormed settings ∧ ofExpression e = m := by
  rw [parse] at h
  cases hparse : Expression.parse settings text with
  | error failure => simp [hparse, Except.map] at h
  | ok e =>
      have hm : ofExpression e = m := by
        simpa [hparse, Except.map, resolveWith, hpackage] using h
      exact ⟨e, Expression.wellFormed_of_parse hparse, hm⟩

end Typemap

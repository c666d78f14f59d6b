import Typemap.Proofs.Expression.Spelling
import Typemap.Proofs.Expression.WellFormed

/-!
# The canonical form of a mapping

A well-formed expression is read back from the text of its mapping. Every
expression that is read off a text is well formed, so the canonical form of any
mapping stands for that mapping.
-/

namespace Typemap

variable {settings : Settings}

theorem Expression.exists_parse_text {e : Expression} (h : e.WellFormed settings) :
    ∃ e', parse settings (Mapping.ofExpression e).text = .ok e' ∧ e'.unplaced = e.unplaced := by
  obtain ⟨_, ⟨d, rfl, hd⟩, hscan⟩ := (Grammar.spells_expression h).exists_scan
  refine ⟨d.expression, ?_, hd⟩
  rw [parse, hscan]
  exact ofTokens_of_derivation d rfl

/-- The canonical text of an expression is read with whatever package the
settings name in place. -/
theorem Mapping.parse_text_resolveWith {e : Expression} (h : e.WellFormed settings) :
    parse settings (ofExpression e).text = .ok ((ofExpression e).resolveWith settings) := by
  obtain ⟨e', hparse, he'⟩ := Expression.exists_parse_text h
  rw [parse, hparse, Except.map, ofExpression_eq_of_unplaced he']

theorem Mapping.parse_text_ofExpression (hpackage : settings.package? = none) {e : Expression}
    (h : e.WellFormed settings) : parse settings (ofExpression e).text = .ok (ofExpression e) := by
  rw [parse_text_resolveWith h, resolveWith, hpackage]

/-- Without a package, reading undoes writing: up to places for expressions, and
exactly for mappings that were read themselves. -/
theorem parse_text (settings : Settings) (hpackage : settings.package? = none) :
    (∀ e : Expression, e.WellFormed settings →
        ∃ e', Expression.parse settings (Mapping.ofExpression e).text = .ok e' ∧
          e'.unplaced = e.unplaced) ∧
      ∀ (text : String) (m : Mapping), Mapping.parse settings text = .ok m →
        Mapping.parse settings m.text = .ok m := by
  refine ⟨fun e he => Expression.exists_parse_text he, ?_⟩
  intro text m h
  rw [Mapping.parse] at h
  generalize hparse : Expression.parse settings text = result at h
  cases result with
  | error failure => simp [Except.map] at h
  | ok e =>
      have hm : Mapping.ofExpression e = m := by
        simpa [Except.map, Mapping.resolveWith, hpackage] using h
      subst hm
      exact Mapping.parse_text_ofExpression hpackage (Expression.wellFormed_of_parse hparse)

/-- A nested list, written without blanks, and its neighbour behind a comma and
a blank. -/
theorem parse_text_nested :
    ∃ e', Expression.parse {} "List(x) => a.B<C<D>, E>" = .ok e' ∧
      e'.unplaced = ⟨⟨"List", some ⟨"x", default⟩⟩,
        .map ⟨"a.B", .cons "C" (.cons "D" .nil .nil) (.cons "E" .nil .nil)⟩⟩ :=
  (parse_text {} rfl).1 ⟨⟨"List", some ⟨"x", default⟩⟩,
      .map ⟨"a.B", .cons "C" (.cons "D" .nil .nil) (.cons "E" .nil .nil)⟩⟩
    ⟨by decide, by decide, by decide, by decide⟩

end Typemap

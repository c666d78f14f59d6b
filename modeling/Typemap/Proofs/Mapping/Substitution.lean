import Typemap.Proofs.Mapping.Resolution

/-!
# Resolving is substitution in the tree

Generic arguments are flattened to text before a package is put in. No name runs
on into the signs beside it, so the package goes into each name of the tree on
its own. All that surrounds the names stays, and within a qualified name only
the segments change that are placeholders.
-/

namespace Typemap

namespace Generics

/-- A list is settled by its shape and its names from left to right. -/
theorem eq_of_names {g g' : Generics}
    (hshape : g.mapNames (fun _ => "") = g'.mapNames fun _ => "") (hnames : g.names = g'.names) :
    g = g' := by
  induction g generalizing g' with
  | nil =>
      cases g' with
      | nil => rfl
      | cons => simp [mapNames] at hshape
  | cons name inner rest ihInner ihRest =>
      cases g' with
      | nil => simp [mapNames] at hshape
      | cons name' inner' rest' =>
          simp only [mapNames, cons.injEq, true_and] at hshape
          simp only [names, List.cons_append, List.cons.injEq] at hnames
          have hlength : inner.names.length = inner'.names.length := by
            simpa using congrArg (·.names.length) hshape.1
          obtain ⟨hinner, hrest⟩ := List.append_inj hnames.2 hlength
          rw [hnames.1, ihInner hshape.1 hinner, ihRest hshape.2 hrest]

end Generics

namespace Clause

theorem eq_of_names {c c' : Clause} (hshape : c.nameless = c'.nameless)
    (hnames : c.names = c'.names) : c = c' := by
  cases c with
  | map target =>
      cases c' with
      | map target' =>
          simp only [nameless, Target.mapNames, map.injEq, Target.mk.injEq, true_and] at hshape
          simp only [names, Target.names, List.cons.injEq] at hnames
          have hgenerics := Generics.eq_of_names hshape hnames.2
          exact congrArg map (congr (congrArg Target.mk hnames.1) hgenerics)
      | annotate => simp [nameless] at hshape
  | annotate name arguments =>
      cases c' with
      | map => simp [nameless] at hshape
      | annotate name' arguments' =>
          obtain ⟨-, rfl⟩ := annotate.inj hshape
          obtain rfl := List.singleton_inj.1 hnames
          rfl

@[simp] theorem nameless_resolve (package : String) (c : Clause) :
    (c.resolve package).nameless = c.nameless := by
  cases c with
  | map target => simp [resolve, nameless, Target.mapNames, Function.comp_def]
  | annotate name arguments => rfl

@[simp] theorem names_resolve (package : String) (c : Clause) :
    (c.resolve package).names = c.names.map (Placeholder.resolve package) := by
  cases c with
  | map target => simp [resolve, names, Target.names, Target.mapNames]
  | annotate name arguments => rfl

end Clause

namespace Expression

theorem isFilled_iff {package : String} {e e' : Expression} :
    IsFilled package e e' ↔ e' = e.resolve package := by
  constructor
  · intro h
    have hclause : e'.clause = e.clause.resolve package := by
      apply Clause.eq_of_names
      · rw [h.nameless, Clause.nameless_resolve]
      · rw [h.names, Clause.names_resolve]
    exact congr (congrArg Expression.mk h.source) hclause
  · rintro rfl
    exact ⟨rfl, e.clause.nameless_resolve package, e.clause.names_resolve package⟩

end Expression

namespace Placeholder

/-- In a qualified name the package takes the place of the segments that are
placeholders. -/
theorem resolve_of_isQualified {name : String} (h : Name.IsQualified name.toList)
    (package : String) :
    (resolve package name).toList =
      ['.'].intercalate ((Name.pieces name.toList).map fun piece =>
        if piece = text then package.toList else piece) := by
  have hsegments := Name.isSegment_of_isQualified h
  have hpieces : (Name.pieces name.toList).map (fill package.toList) =
      (Name.pieces name.toList).map fun piece =>
        if piece = text then package.toList else piece :=
    List.map_congr_left fun piece hpiece => Name.fill_of_isSegment (hsegments piece hpiece)
  have hfill := fill_intercalate package.toList (by decide : '.' ∉ text) (Name.pieces name.toList)
  rw [Name.intercalate_pieces] at hfill
  rw [resolve, String.toList_ofList, hfill, hpieces]

end Placeholder

/-- A package in the text of a mapping is the package in each name of the tree on
its own, and there is a tree that is filled in this way. In a qualified name
exactly the segments that are placeholders make room. -/
theorem resolve_ofExpression_of_isFilled (package : String) (e : Expression) :
    (∃ e', Expression.IsFilled package e e') ∧
      (∀ e', Expression.IsFilled package e e' →
        (Mapping.ofExpression e).resolve package = Mapping.ofExpression e') ∧
        ∀ name : String, Name.IsQualified name.toList →
          (Placeholder.resolve package name).toList =
            ['.'].intercalate ((Name.pieces name.toList).map fun piece =>
              if piece = Placeholder.text then package.toList else piece) := by
  refine ⟨⟨e.resolve package, Expression.isFilled_iff.2 rfl⟩, ?_, ?_⟩
  · intro e' he'
    rw [Expression.isFilled_iff.1 he']
    exact Mapping.resolve_ofExpression package e
  · exact fun name hname => Placeholder.resolve_of_isQualified hname package

/-- The source type keeps its placeholder. Of the names of the target type two
have one, and one of these stands inside the generic arguments. -/
theorem resolve_ofExpression_of_isFilled_nested :
    Expression.IsFilled "io.gen"
        ⟨⟨"\x7bpackage-name\x7d.A", none⟩,
          .map ⟨"\x7bpackage-name\x7d.B", .cons "\x7bpackage-name\x7d" (.cons "C" .nil .nil) .nil⟩⟩
        ⟨⟨"\x7bpackage-name\x7d.A", none⟩,
          .map ⟨"io.gen.B", .cons "io.gen" (.cons "C" .nil .nil) .nil⟩⟩ ∧
      (Mapping.map ⟨"\x7bpackage-name\x7d.A", none⟩ "\x7bpackage-name\x7d.B"
          ["\x7bpackage-name\x7d<C>"]).resolve "io.gen" =
        .map ⟨"\x7bpackage-name\x7d.A", none⟩ "io.gen.B" ["io.gen<C>"] ∧
      Name.IsQualified "\x7bpackage-name\x7d.B".toList ∧
        (Placeholder.resolve "io.gen" "\x7bpackage-name\x7d.B").toList = "io.gen.B".toList := by
  have hnames : ["\x7bpackage-name\x7d.B", "\x7bpackage-name\x7d", "C"].map
      (Placeholder.resolve "io.gen") = ["io.gen.B", "io.gen", "C"] := by
    decide +kernel
  have hfilled : Expression.IsFilled "io.gen"
      ⟨⟨"\x7bpackage-name\x7d.A", none⟩,
        .map ⟨"\x7bpackage-name\x7d.B", .cons "\x7bpackage-name\x7d" (.cons "C" .nil .nil) .nil⟩⟩
      ⟨⟨"\x7bpackage-name\x7d.A", none⟩,
        .map ⟨"io.gen.B", .cons "io.gen" (.cons "C" .nil .nil) .nil⟩⟩ :=
    ⟨rfl, rfl, hnames.symm⟩
  have hqualified : Name.IsQualified "\x7bpackage-name\x7d.B".toList := by decide
  have hresolve := (resolve_ofExpression_of_isFilled "io.gen" _).2.1 _ hfilled
  have hname := (resolve_ofExpression_of_isFilled "io.gen" default).2.2 _ hqualified
  exact ⟨hfilled, hresolve, hqualified, hname⟩

end Typemap

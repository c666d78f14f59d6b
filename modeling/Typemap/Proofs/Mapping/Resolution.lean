import Mathlib.Data.List.Basic
import Typemap.Proofs.Expression.WellFormed
import Typemap.Proofs.Placeholder

/-!
# Resolving packages

The type names of a mapping are qualified names, and those of a generic argument
stand between characters that no placeholder has. So the text of a target type
is filled name by name, and packages put in one after the other act like one
package that was filled before.
-/

namespace Typemap

namespace Placeholder

theorem resolve_append (package text : String) {more : String}
    (h : ∀ c ∈ more.toList.head?, c ∉ Placeholder.text) :
    resolve package (text ++ more) = resolve package text ++ resolve package more := by
  rw [resolve, String.toList_append, fill_append text.toList h, String.ofList_append]
  rfl

theorem resolve_eq_self {text : String} (h : ¬ Placeholder.text <:+: text.toList)
    (package : String) : resolve package text = text := by
  rw [resolve, fill_eq_self h, String.ofList_toList]

/-- A sign that no placeholder has stays where it is. -/
theorem resolve_sign {sign : String} {c : Char} (hsign : sign.toList = [c])
    (hc : c ∉ Placeholder.text) (package text : String) :
    resolve package (sign ++ text) = sign ++ resolve package text := by
  have hfill : fill package.toList (c :: text.toList) = c :: fill package.toList text.toList := by
    simpa using fill_append_cons [] hc text.toList
  rw [resolve, String.toList_append, hsign, ← String.toList_inj]
  simpa [resolve, hsign] using hfill

theorem resolve_resolve_of_isQualified {name : String} (h : Name.IsQualified name.toList)
    (package later : String) :
    resolve later (resolve package name) = resolve (resolve later package) name := by
  have hsegments := Name.isSegment_of_isQualified h
  have hseamless : Seamless name.toList := by
    rw [← Name.intercalate_pieces name.toList]
    apply Seamless.intercalate (by decide)
    intro piece hpiece
    rcases Bool.or_eq_true_iff.1 (hsegments piece hpiece) with hplain | htext
    · exact seamless_of_not_infix (Name.not_infix_of_isPlain hplain)
    · rw [eq_of_beq htext]
      exact seamless_text
  simp [resolve, hseamless package.toList later.toList]

end Placeholder

namespace Generics

theorem mapNames_congr {f f' : String → String} {g : Generics}
    (h : ∀ name ∈ g.names, f name = f' name) : g.mapNames f = g.mapNames f' := by
  induction g with
  | nil => rfl
  | cons name inner rest ihInner ihRest =>
      simp only [names, List.mem_append, List.mem_cons] at h
      have hname := h name (.inl (.inl rfl))
      have hinner := ihInner fun other hother => h other (.inl (.inr hother))
      have hrest := ihRest fun other hother => h other (.inr hother)
      rw [mapNames, mapNames, hname, hinner, hrest]

@[simp] theorem mapNames_mapNames (f f' : String → String) (g : Generics) :
    (g.mapNames f).mapNames f' = g.mapNames (f' ∘ f) := by
  induction g with
  | nil => rfl
  | cons name inner rest ihInner ihRest => simp [mapNames, ihInner, ihRest]

@[simp] theorem toList_mapNames (f : String → String) (g : Generics) :
    (g.mapNames f).toList = g.toList.map (·.mapNames f) := by
  induction g with
  | nil => rfl
  | cons name inner rest _ ihRest => simp [mapNames, toList, Target.mapNames, ihRest]

/-- The text of a list begins with a sign that no placeholder has. -/
theorem head_text_not_mem (first : Bool) (g : Generics) :
    ∀ c ∈ (g.text first).toList.head?, c ∉ Placeholder.text := by
  intro c hc
  cases g with
  | nil =>
      cases first <;> simp [text] at hc
      subst hc
      decide
  | cons name inner rest =>
      cases first <;> simp [text] at hc <;> subst hc <;> decide

/-- The package goes into the text of a list name by name. -/
theorem resolve_text (package : String) (first : Bool) (g : Generics) :
    Placeholder.resolve package (g.text first) =
      (g.mapNames (Placeholder.resolve package)).text first := by
  induction g generalizing first with
  | nil =>
      cases first with
      | false => exact Placeholder.resolve_eq_self (by decide) package
      | true => exact Placeholder.resolve_eq_self (by decide) package
  | cons name inner rest ihInner ihRest =>
      have hsign : Placeholder.resolve package ((if first then "<" else ",") ++ name) =
          (if first then "<" else ",") ++ Placeholder.resolve package name := by
        cases first with
        | false => exact Placeholder.resolve_sign rfl (by decide) package name
        | true => exact Placeholder.resolve_sign rfl (by decide) package name
      rw [text, Placeholder.resolve_append package _ (head_text_not_mem false rest),
        Placeholder.resolve_append package _ (head_text_not_mem true inner), hsign, ihInner,
        ihRest, mapNames, text]

end Generics

namespace Target

theorem resolve_text (package : String) (t : Target) :
    Placeholder.resolve package t.text = (t.mapNames (Placeholder.resolve package)).text := by
  rw [text, Placeholder.resolve_append package _ (Generics.head_text_not_mem true t.generics),
    Generics.resolve_text]
  rfl

end Target

namespace Mapping

/-- A package goes into the names of an expression, whichever side of its
meaning it is put in. -/
theorem resolve_ofExpression (package : String) (e : Expression) :
    (ofExpression e).resolve package = ofExpression (e.resolve package) := by
  obtain ⟨source, clause⟩ := e
  cases clause with
  | map target =>
      obtain ⟨name, generics⟩ := target
      cases generics with
      | nil => rfl
      | cons first inner rest =>
          have htexts : ((Generics.cons first inner rest).toList.map (·.text)).map
                (Placeholder.resolve package) =
              ((Generics.cons first inner rest).mapNames (Placeholder.resolve package)).toList.map
                (·.text) := by
            rw [Generics.toList_mapNames, List.map_map, List.map_map]
            exact List.map_congr_left fun t _ => t.resolve_text package
          exact congrArg (Mapping.map source.toSourceType (Placeholder.resolve package name)) htexts
  | annotate name arguments => rfl

end Mapping

namespace Clause

theorem resolve_resolve {clause : Clause}
    (h : ∀ name ∈ clause.names, Name.IsQualified name.toList) (package later : String) :
    (clause.resolve package).resolve later =
      clause.resolve (Placeholder.resolve later package) := by
  have hnames : ∀ name ∈ clause.names,
      (Placeholder.resolve later ∘ Placeholder.resolve package) name =
        Placeholder.resolve (Placeholder.resolve later package) name :=
    fun name hname => Placeholder.resolve_resolve_of_isQualified (h name hname) package later
  cases clause with
  | map target =>
      have htarget := hnames target.name List.mem_cons_self
      have hgenerics := Generics.mapNames_congr fun name hname =>
        hnames name (List.mem_cons_of_mem target.name hname)
      simpa [resolve, Target.mapNames, ← hgenerics] using htarget
  | annotate name arguments =>
      have hname := hnames name List.mem_cons_self
      simpa [resolve] using hname

end Clause

namespace Expression

variable {settings : Settings} {e : Expression}

theorem WellFormed.isQualified (h : e.WellFormed settings) :
    ∀ name ∈ e.clause.names, Name.IsQualified name.toList := by
  obtain ⟨source, clause⟩ := e
  cases clause with
  | map target => exact h.clause.2.1
  | annotate name arguments =>
      intro other hother
      obtain rfl := List.mem_singleton.1 hother
      exact h.clause.2.1

theorem WellFormed.resolve_resolve (h : e.WellFormed settings) (package later : String) :
    (e.resolve package).resolve later = e.resolve (Placeholder.resolve later package) := by
  rw [resolve, resolve, resolve, Clause.resolve_resolve h.isQualified]

end Expression

namespace Mapping

variable {settings : Settings} {e : Expression}

theorem resolve_resolve (h : e.WellFormed settings) (package later : String) :
    ((ofExpression e).resolve package).resolve later =
      (ofExpression e).resolve (Placeholder.resolve later package) := by
  rw [resolve_ofExpression, resolve_ofExpression, resolve_ofExpression, h.resolve_resolve]

theorem foldl_resolve (h : e.WellFormed settings) (package : String) (later : List String) :
    later.foldl (fun m package => m.resolve package) ((ofExpression e).resolve package) =
      (ofExpression e).resolve
        (later.foldl (fun filled package => Placeholder.resolve package filled) package) := by
  induction later generalizing package with
  | nil => rfl
  | cons next later ih => rw [List.foldl_cons, List.foldl_cons, resolve_resolve h, ih]

end Mapping

/-- Packages that are put into a mapping one after the other are one package,
into which the later ones are put first. A package without a placeholder leaves
nothing to later ones. -/
theorem foldl_resolve_of_parse (settings : Settings) (hpackage : settings.package? = none)
    (text : String) (m : Mapping) (h : Mapping.parse settings text = .ok m) (package : String) :
    (∀ later : List String,
        later.foldl (fun m package => m.resolve package) (m.resolve package) =
          m.resolve
            (later.foldl (fun filled package => Placeholder.resolve package filled) package)) ∧
      (¬ Placeholder.text <:+: package.toList →
        ∀ later : String, (m.resolve package).resolve later = m.resolve package) := by
  obtain ⟨e, hwellFormed, rfl⟩ := Mapping.exists_expression_of_parse hpackage h
  constructor
  · exact Mapping.foldl_resolve hwellFormed package
  · intro habsent later
    rw [Mapping.resolve_resolve hwellFormed, Placeholder.resolve_eq_self habsent]

/-- A package with a whole placeholder leaves it to a later package. One that ends
with the front half of a placeholder leaves nothing to one with the other half. -/
theorem foldl_resolve_of_parse_halves :
    Mapping.parse {} "A => \x7bpackage-name\x7d.B" =
        .ok (.type ⟨"A", none⟩ "\x7bpackage-name\x7d.B") ∧
      ["x"].foldl (fun filled package => Placeholder.resolve package filled)
          "\x7bpackage-name\x7d.y" = "x.y" ∧
      ["x"].foldl (fun m package => m.resolve package)
          ((Mapping.type ⟨"A", none⟩ "\x7bpackage-name\x7d.B").resolve "\x7bpackage-name\x7d.y") =
        .type ⟨"A", none⟩ "x.y.B" ∧
      ["name\x7d", "x"].foldl (fun m package => m.resolve package)
          ((Mapping.type ⟨"A", none⟩ "\x7bpackage-name\x7d.B").resolve "\x7bpackage-") =
        .type ⟨"A", none⟩ "\x7bpackage-.B" ∧
      ((Mapping.type ⟨"A", none⟩ "\x7bpackage-name\x7d.B").resolve "\x7bpackage-").resolve
          "name\x7d" = .type ⟨"A", none⟩ "\x7bpackage-.B" := by
  have hparse : Mapping.parse {} "A => \x7bpackage-name\x7d.B" =
      .ok (.type ⟨"A", none⟩ "\x7bpackage-name\x7d.B") := by
    decide +kernel
  have habsent : ¬ Placeholder.text <:+: "\x7bpackage-".toList := by
    intro hpart
    exact absurd hpart.length_le (by decide)
  have hfilled : ["x"].foldl (fun filled package => Placeholder.resolve package filled)
      "\x7bpackage-name\x7d.y" = "x.y" := by
    decide +kernel
  have hwhole := (foldl_resolve_of_parse {} rfl _ _ hparse "\x7bpackage-name\x7d.y").1 ["x"]
  have hhalf := foldl_resolve_of_parse {} rfl _ _ hparse "\x7bpackage-"
  rw [hfilled] at hwhole
  exact ⟨hparse, hfilled, hwhole.trans (by decide +kernel),
    (hhalf.1 ["name\x7d", "x"]).trans (by decide +kernel),
    (hhalf.2 habsent "name\x7d").trans (by decide +kernel)⟩

end Typemap

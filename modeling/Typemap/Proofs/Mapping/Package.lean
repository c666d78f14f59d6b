import Mathlib.Data.List.Basic
import Typemap.Proofs.Mapping.Resolution
import Typemap.Proofs.Mapping.WellFormed
import Typemap.Proofs.Parse
import Typemap.Proofs.Token.Places

/-!
# Packages that are names

A package that is a qualified name keeps names qualified, at every place where
it is put. So it keeps mappings well formed, and their canonical texts are read
back. Settings that name a package put it in again when they read a canonical
text. Then a package that is no qualified name spoils the text of some mapping,
and so does one that holds a placeholder beside other segments.
-/

namespace Typemap

variable {settings : Settings} {package : String}

theorem Placeholder.isQualified_resolve (hpackage : Name.IsQualified package.toList) {name : String}
    (hname : Name.IsQualified name.toList) : Name.IsQualified (resolve package name).toList := by
  rw [resolve, String.toList_ofList]
  exact hname.fill hpackage

@[simp] theorem Target.names_mapNames (f : String → String) (t : Target) :
    (t.mapNames f).names = t.names.map f := by
  simp [mapNames, names]

namespace Expression

variable {e : Expression}

theorem WellFormed.resolve (h : e.WellFormed settings)
    (hpackage : Name.IsQualified package.toList) : (e.resolve package).WellFormed settings := by
  obtain ⟨source, clause⟩ := e
  obtain ⟨hsource, hclause⟩ := h
  cases clause with
  | map target =>
      obtain ⟨hformat, hnames, hdepth⟩ := hclause
      refine ⟨hsource, hformat, ?_, ?_⟩
      · intro name hname
        rw [Target.names_mapNames] at hname
        obtain ⟨other, hother, rfl⟩ := List.mem_map.1 hname
        exact Placeholder.isQualified_resolve hpackage (hnames other hother)
      · rwa [Target.mapNames, Generics.depth_mapNames]
  | annotate name arguments =>
      obtain ⟨hplain, hname, harguments⟩ := hclause
      exact ⟨hsource, hplain, Placeholder.isQualified_resolve hpackage hname, harguments⟩

end Expression

/-- A package that is a qualified name leaves a mapping well formed, and it is
read back from its canonical text. -/
theorem wellFormed_resolve_of_parse (settings : Settings) (hpackage : settings.package? = none)
    (text : String) (m : Mapping) (h : Mapping.parse settings text = .ok m) (package : String)
    (hname : Name.IsQualified package.toList) :
    (m.resolve package).WellFormed settings ∧
      Mapping.parse settings (m.resolve package).text = .ok (m.resolve package) := by
  obtain ⟨e, he, rfl⟩ := Mapping.exists_expression_of_parse hpackage h
  have hresolved : ((Mapping.ofExpression e).resolve package).WellFormed settings := by
    rw [Mapping.resolve_ofExpression]
    exact (he.resolve hname).ofExpression
  exact ⟨hresolved, hresolved.parse_canonical hpackage⟩

/-- The package keeps the placeholder open, inside a nested list too. -/
theorem wellFormed_resolve_of_parse_open :
    Mapping.parse {} "A => \x7bpackage-name\x7d.B<C<\x7bpackage-name\x7d>, D>" =
        .ok (.map ⟨"A", none⟩ "\x7bpackage-name\x7d.B" ["C<\x7bpackage-name\x7d>", "D"]) ∧
      (Mapping.map ⟨"A", none⟩ "\x7bpackage-name\x7d.B" ["C<\x7bpackage-name\x7d>", "D"]).resolve
          "x.\x7bpackage-name\x7d" =
        .map ⟨"A", none⟩ "x.\x7bpackage-name\x7d.B" ["C<x.\x7bpackage-name\x7d>", "D"] ∧
      Mapping.WellFormed {} (.map ⟨"A", none⟩ "x.\x7bpackage-name\x7d.B"
          ["C<x.\x7bpackage-name\x7d>", "D"]) ∧
        Mapping.parse {} "A => x.\x7bpackage-name\x7d.B<C<x.\x7bpackage-name\x7d>, D>" =
          .ok (.map ⟨"A", none⟩ "x.\x7bpackage-name\x7d.B"
            ["C<x.\x7bpackage-name\x7d>", "D"]) := by
  have hparse : Mapping.parse {} "A => \x7bpackage-name\x7d.B<C<\x7bpackage-name\x7d>, D>" =
      .ok (.map ⟨"A", none⟩ "\x7bpackage-name\x7d.B" ["C<\x7bpackage-name\x7d>", "D"]) := by
    decide +kernel
  have hresolve : (Mapping.map ⟨"A", none⟩ "\x7bpackage-name\x7d.B"
        ["C<\x7bpackage-name\x7d>", "D"]).resolve "x.\x7bpackage-name\x7d" =
      .map ⟨"A", none⟩ "x.\x7bpackage-name\x7d.B" ["C<x.\x7bpackage-name\x7d>", "D"] := by
    decide +kernel
  have h := wellFormed_resolve_of_parse {} rfl _ _ hparse "x.\x7bpackage-name\x7d" (by decide)
  rw [hresolve] at h
  exact ⟨hparse, hresolve, h⟩

namespace Grammar

/-- The tokens of a plain name behind an arrow. -/
theorem Derivation.tokens_of_plain {d : Derivation settings} {source target : String}
    (h : d.expression = ⟨⟨source, none⟩, .map ⟨target, .nil⟩⟩) :
    ∃ name arrow word, d.tokens = [name, arrow, word] ∧ name.lexeme = source ∧
      arrow.kind = .arrow ∧ word.lexeme = target := by
  cases d with
  | annotate _ _ _ _ _ _ => simp [expression] at h
  | annotateWith _ _ _ _ _ _ _ _ _ _ _ => simp [expression] at h
  | map head arrow tail harrow hdepth =>
      obtain ⟨hhead, htail⟩ := Expression.mk.inj h
      cases head with
      | formatted _ _ _ _ _ _ _ _ _ => simp [SourceTree.source] at hhead
      | plain name _ =>
          cases tail with
          | generic _ _ list _ _ _ _ =>
              cases list <;> simp [TargetTree.target, GenericsTree.generics] at htail
          | plain word _ =>
              simp only [SourceTree.source, Source.mk.injEq, and_true] at hhead
              simp only [TargetTree.target, Clause.map.injEq, Target.mk.injEq, and_true] at htail
              exact ⟨name, arrow, word, rfl, hhead, harrow, htail⟩

end Grammar

namespace Expression

/-- A target without generic arguments is read as it stands, if it does not begin
or end with a blank. -/
theorem target_of_parse {source target target' : String}
    (h : parse settings (Mapping.type ⟨source, none⟩ target).text =
      .ok ⟨⟨source, none⟩, .map ⟨target', .nil⟩⟩)
    (hfirst : ∀ c ∈ target.toList.head?, isBlank c = false)
    (hlast : ∀ c ∈ target.toList.getLast?, isBlank c = false) : target' = target := by
  have hsource := Name.isLexeme_of_isQualified (wellFormed_of_parse h).source
  obtain ⟨d, hd, htiled, -⟩ := exists_derivation_of_parse h
  obtain ⟨name, arrow, word, htokens, rfl, harrow, rfl⟩ := d.tokens_of_plain hd
  have htext : (Mapping.type ⟨name.lexeme, none⟩ target).text.toList =
      [] ++ (name.lexeme.toList ++ ([' '] ++ (['=', '>'] ++ ([' '] ++ target.toList)))) := by
    simp [Mapping.text, SourceType.text]
  rw [htokens, htext] at htiled
  have hblank : ∀ c ∈ [' '], isBlank c = true := by
    intro c hc
    rw [List.mem_singleton.1 hc]
    rfl
  obtain ⟨rest, hrest, -, htiled⟩ := htiled.exists_rest (List.cons_ne_nil _ _) (by simp)
    (Token.isBlank_eq_false_of_isLexeme hsource _)
  obtain rfl := List.append_cancel_left hrest
  have hmark : Token.IsLexeme .arrow ['=', '>'] := .sign rfl
  obtain ⟨rest, hrest, hlexeme, htiled⟩ := htiled.exists_rest (List.cons_ne_nil _ _) hblank
    (Token.isBlank_eq_false_of_isLexeme hmark _)
  rw [harrow] at hlexeme
  rw [hlexeme.eq_of_sign rfl] at hrest
  obtain rfl := List.append_cancel_left hrest
  rw [← String.toList_inj]
  exact htiled.lexeme_eq hblank hfirst hlast

end Expression

namespace Mapping

variable {e : Expression}

theorem resolveWith_of_package (h : settings.package? = some package) (m : Mapping) :
    m.resolveWith settings = m.resolve package := by
  rw [resolveWith, h]

/-- A mapping with a qualified package in place gets the package once more. -/
theorem parse_text_of_package (hpackage : settings.package? = some package)
    (hname : Name.IsQualified package.toList) {text : String} {m : Mapping}
    (h : parse settings text = .ok m) : parse settings m.text = .ok (m.resolve package) := by
  obtain ⟨e, he, rfl⟩ := parse_eq_ok_iff.1 h
  have hwellFormed := (Expression.wellFormed_of_parse he).resolve hname
  rw [resolveWith_of_package hpackage, resolve_ofExpression, parse_text_resolveWith hwellFormed,
    resolveWith_of_package hpackage]

theorem exists_target_of_resolve {sourceName target : String}
    (h : (ofExpression e).resolve package = type ⟨sourceName, none⟩ target) :
    ∃ target', e = ⟨⟨sourceName, none⟩, .map ⟨target', .nil⟩⟩ ∧
      Placeholder.resolve package target' = target := by
  obtain ⟨⟨name, format?⟩, clause⟩ := e
  cases clause with
  | annotate _ _ => simp [ofExpression, resolve] at h
  | map written =>
      obtain ⟨target', generics⟩ := written
      cases generics with
      | cons _ _ _ => simp [ofExpression, resolve] at h
      | nil =>
          obtain ⟨⟨rfl, rfl⟩, htarget⟩ : (name = sourceName ∧ format? = none) ∧
              Placeholder.resolve package target' = target := by
            simpa [ofExpression, resolve, Source.toSourceType] using h
          exact ⟨target', rfl, htarget⟩

/-- Only a name that the package leaves alone is read back as a target. -/
theorem target_of_reread (hpackage : settings.package? = some package) {source target : String}
    (h : parse settings (type ⟨source, none⟩ target).text = .ok (type ⟨source, none⟩ target))
    (hfirst : ∀ c ∈ target.toList.head?, isBlank c = false)
    (hlast : ∀ c ∈ target.toList.getLast?, isBlank c = false) :
    Name.IsQualified target.toList ∧ Placeholder.resolve package target = target := by
  obtain ⟨e, hparse, he⟩ := parse_eq_ok_iff.1 h
  rw [resolveWith_of_package hpackage] at he
  obtain ⟨target', rfl, htarget⟩ := exists_target_of_resolve he
  obtain rfl := Expression.target_of_parse hparse hfirst hlast
  exact ⟨(Expression.wellFormed_of_parse hparse).isQualified _ List.mem_cons_self, htarget⟩

end Mapping

namespace Name

/-- A text as the middle one of three pieces. -/
def framed (cs : List Char) : List Char := ['B'] ++ '.' :: (cs ++ '.' :: ['C'])

variable {cs : List Char}

theorem head?_framed : (framed cs).head? = some 'B' := rfl

theorem getLast?_framed : (framed cs).getLast? = some 'C' := by
  simp [framed, List.getLast?_cons]

theorem isQualified_framed : IsQualified (framed cs) ↔ IsQualified cs := by
  have hfront : IsQualified ['B'] := by decide
  have hback : IsQualified ['C'] := by decide
  rw [framed, isQualified_append_cons, isQualified_append_cons, and_iff_right hfront,
    and_iff_left hback]

theorem framed_inj {cs' : List Char} : framed cs = framed cs' ↔ cs = cs' := by
  simp [framed]

theorem fill_framed (package cs : List Char) :
    Placeholder.fill package (framed cs) = framed (Placeholder.fill package cs) := by
  have hdot : '.' ∉ Placeholder.text := by decide
  have hplain {piece : List Char} (h : isPlain piece = true) :
      Placeholder.fill package piece = piece :=
    Placeholder.fill_eq_self (not_infix_of_isPlain h)
  have hfront : Placeholder.fill package ['B'] = ['B'] := hplain rfl
  have hback : Placeholder.fill package ['C'] = ['C'] := hplain rfl
  rw [framed, Placeholder.fill_append_cons _ hdot, Placeholder.fill_append_cons _ hdot, hfront,
    hback, framed]

end Name

/-- With a package, canonical texts are read back if and only if the package is a
qualified name that holds no placeholder beside other segments. -/
theorem parse_text_iff_of_package (settings : Settings) (package : String)
    (hpackage : settings.package? = some package) :
    (∀ (text : String) (m : Mapping), Mapping.parse settings text = .ok m →
        Mapping.parse settings m.text = .ok m) ↔
      Name.IsQualified package.toList ∧
        (Placeholder.text <:+: package.toList → package.toList = Placeholder.text) := by
  constructor
  · intro h
    -- Between two other pieces the package can only be read as a part of one word.
    have he : Expression.WellFormed settings
        ⟨⟨"A", none⟩, .map ⟨"B.\x7bpackage-name\x7d.C", .nil⟩⟩ :=
      ⟨by decide, by simp, by decide, Nat.zero_le _⟩
    have hparse := Mapping.parse_text_resolveWith he
    rw [Mapping.resolveWith_of_package hpackage] at hparse
    have htarget : (Placeholder.resolve package "B.\x7bpackage-name\x7d.C").toList =
        Name.framed package.toList := by
      have hfilled := Name.fill_framed package.toList Placeholder.text
      rw [Placeholder.fill_text] at hfilled
      rw [Placeholder.resolve, String.toList_ofList]
      exact hfilled
    have hfirst : isBlank 'B' = false := rfl
    have hlast : isBlank 'C' = false := rfl
    obtain ⟨hqualified, hsettled⟩ := Mapping.target_of_reread hpackage (h _ _ hparse)
      (by simp [htarget, Name.head?_framed, hfirst])
      (by simp [htarget, Name.getLast?_framed, hlast])
    rw [← String.toList_inj, Placeholder.resolve, String.toList_ofList, htarget, Name.fill_framed,
      Name.framed_inj] at hsettled
    rw [htarget, Name.isQualified_framed] at hqualified
    exact ⟨hqualified, Placeholder.fill_self_iff.1 hsettled⟩
  · rintro ⟨hname, hplaceholder⟩ text m h
    rw [Mapping.parse_text_of_package hpackage hname h]
    obtain ⟨e, he, rfl⟩ := Mapping.parse_eq_ok_iff.1 h
    rw [Mapping.resolveWith_of_package hpackage,
      Mapping.resolve_resolve (Expression.wellFormed_of_parse he), Placeholder.resolve,
      Placeholder.fill_self_iff.2 hplaceholder, String.ofList_toList]

/-- A package of two plain segments. -/
theorem parse_text_iff_of_package_dotted :
    Mapping.parse { package? := some "io.gen" } "A @ \x7bpackage-name\x7d.B" =
        .ok (.annotate "A" ⟨"io.gen.B", []⟩) ∧
      Mapping.parse { package? := some "io.gen" } (Mapping.annotate "A" ⟨"io.gen.B", []⟩).text =
        .ok (.annotate "A" ⟨"io.gen.B", []⟩) := by
  have hparse : Mapping.parse { package? := some "io.gen" } "A @ \x7bpackage-name\x7d.B" =
      .ok (.annotate "A" ⟨"io.gen.B", []⟩) := by
    decide +kernel
  have hplaceholder : Placeholder.text <:+: "io.gen".toList →
      "io.gen".toList = Placeholder.text := by
    intro hpart
    exact absurd hpart.length_le (by decide)
  exact ⟨hparse, (parse_text_iff_of_package _ "io.gen" rfl).2 ⟨by decide, hplaceholder⟩ _ _ hparse⟩

/-- Packages that pass the check of the settings: one has a blank inside and the
other a placeholder in front of a segment. -/
theorem parse_text_ne_of_package :
    (Settings.check { package? := some "a b" } = .ok { package? := some "a b" } ∧
        Mapping.parse { package? := some "a b" } "A => \x7bpackage-name\x7d" =
            .ok (.type ⟨"A", none⟩ "a b") ∧
          Mapping.parse { package? := some "a b" } (Mapping.type ⟨"A", none⟩ "a b").text ≠
            .ok (.type ⟨"A", none⟩ "a b")) ∧
      Settings.check { package? := some "\x7bpackage-name\x7d.b" } =
          .ok { package? := some "\x7bpackage-name\x7d.b" } ∧
        Mapping.parse { package? := some "\x7bpackage-name\x7d.b" } "A => \x7bpackage-name\x7d" =
            .ok (.type ⟨"A", none⟩ "\x7bpackage-name\x7d.b") ∧
          Mapping.parse { package? := some "\x7bpackage-name\x7d.b" }
              (Mapping.type ⟨"A", none⟩ "\x7bpackage-name\x7d.b").text =
            .ok (.type ⟨"A", none⟩ "\x7bpackage-name\x7d.b.b") := by
  refine ⟨⟨?_, ?_, ?_⟩, ?_, ?_, ?_⟩ <;> decide +kernel

end Typemap

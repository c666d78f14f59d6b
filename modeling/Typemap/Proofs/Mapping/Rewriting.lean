import Typemap.Proofs.Expression.Moved
import Typemap.Proofs.Mapping.Parameters
import Typemap.Proofs.Parse
import Typemap.Proofs.Token.Bare
import Typemap.Proofs.Token.Swapping

/-!
# Values written anew are read alike

The scan and the rule for contents take a literal apart in the same way: into
items, whose shields are all that the content lacks. When the content of a value
is written in its place, the rest of the expression keeps its derivation, so the
mapping changes in this value alone.
-/

namespace Typemap

open Grammar Token

variable {settings : Settings}

namespace Literal

/-- The inside of a literal is made of items, and dropping its shields leaves
their characters. -/
theorem exists_items {q : Char} {body : List Char} (h : IsBody q body) :
    ∃ items : List Item, (∀ item ∈ items, item.Fits q) ∧ items.flatMap (·.text) = body ∧
      items.map (·.char) = unescape body := by
  induction h with
  | nil => exact ⟨[], by simp, rfl, rfl⟩
  | @plain c cs hquote hshield _ ih =>
      obtain ⟨items, hfits, rfl, hchars⟩ := ih
      refine ⟨⟨c, false⟩ :: items, List.forall_mem_cons.2 ⟨.inr ⟨hquote, hshield⟩, hfits⟩, rfl, ?_⟩
      rw [List.map_cons, hchars, unescape]
      · exact fun h _ => hshield h
      · exact fun _ _ h _ => hshield h
  | @shielded c cs _ ih =>
      obtain ⟨items, hfits, rfl, hchars⟩ := ih
      refine ⟨⟨c, true⟩ :: items, List.forall_mem_cons.2 ⟨.inl rfl, hfits⟩, rfl, ?_⟩
      rw [List.map_cons, hchars, unescape]

theorem standsFor_content {text : List Char} (h : IsLexeme .literal text) :
    StandsFor text (content text) := by
  cases h with
  | sign hsign => simp [Kind.sign?] at hsign
  | @literal q body hq hbody =>
      obtain ⟨items, hfits, rfl, hchars⟩ := exists_items hbody
      have hcontent : content (q :: items.flatMap (·.text) ++ [q]) = items.map (·.char) := by
        rw [content, if_pos (isQuoted_delimited hq _), hchars]
        simp
      rw [hcontent]
      exact .items hq hfits

end Literal

namespace Grammar

variable {i : Nat} {v : ValueTree}

/-- Another value in a list of parameters. -/
theorem ParametersTree.exists_swapped {d : ParametersTree}
    (h : (d.parameters.map (·.value))[i]? = some v) (w : ValueTree) :
    ∃ d' : ParametersTree,
      (∀ closing : Token, closing.kind.Borders →
        Swapped v.token w.token (d.tokens ++ [closing]) (d'.tokens ++ [closing])) ∧
      d'.arguments.map (·.name?) = d.arguments.map (·.name?) ∧
        d'.arguments.map (·.toParameter) = (d.arguments.map (·.toParameter)).modify i
          fun p => { p with value := w.token.lexeme } := by
  induction d generalizing i with
  | last parameter =>
      cases i with
      | succ i => simp [parameters] at h
      | zero =>
          obtain rfl : parameter.value = v := by simpa [parameters] using h
          refine ⟨.last { parameter with value := w }, fun closing hclosing => ?_, rfl, ?_⟩
          · have hswapped : Swapped parameter.value.token w.token
                ([parameter.name] ++ parameter.equals :: parameter.value.token :: [closing]) _ :=
              .mk (.inl parameter.isEquals) hclosing
            exact hswapped
          · simp [arguments, NamedTree.toParameter_argument]
  | more parameter comma rest hcomma ih =>
      cases i with
      | zero =>
          obtain rfl : parameter.value = v := by simpa [parameters] using h
          refine ⟨.more { parameter with value := w } comma rest hcomma, fun closing _ => ?_, rfl,
            ?_⟩
          · have hswapped : Swapped parameter.value.token w.token
                ([parameter.name] ++ parameter.equals :: parameter.value.token :: comma ::
                  (rest.tokens ++ [closing])) _ :=
              .mk (.inl parameter.isEquals) (.inr (.inr (.inl hcomma)))
            exact hswapped
          · simp [arguments, NamedTree.toParameter_argument]
      | succ i =>
          obtain ⟨rest', hswapped, hnames, hparameters⟩ := ih (by simpa [parameters] using h)
          refine ⟨.more parameter comma rest' hcomma, fun closing hclosing => ?_, ?_, ?_⟩
          · simpa [tokens] using (hswapped closing hclosing).append (parameter.tokens ++ [comma]) []
          · simp [arguments, hnames]
          · simp [arguments, hparameters]

theorem ArgumentsTree.exists_swapped {d : ArgumentsTree settings} (h : d.values[i]? = some v)
    (w : ValueTree) :
    ∃ d' : ArgumentsTree settings,
      (∀ opening closing : Token, opening.kind.Borders → closing.kind.Borders →
        Swapped v.token w.token (opening :: d.tokens ++ [closing])
          (opening :: d'.tokens ++ [closing])) ∧
      d'.arguments.map (·.toParameter) = (d.arguments.map (·.toParameter)).modify i
        fun p => { p with value := w.token.lexeme } := by
  cases d with
  | named list hdistinct =>
      obtain ⟨list', hswapped, hnames, hparameters⟩ := list.exists_swapped h w
      refine ⟨.named list' (by rwa [hnames]), fun opening closing _ hclosing => ?_, hparameters⟩
      simpa [tokens] using (hswapped closing hclosing).append [opening] []
  | unnamed value hallowed =>
      cases i with
      | succ i => simp [values] at h
      | zero =>
          obtain rfl : value = v := by simpa [values] using h
          refine ⟨.unnamed w hallowed, fun opening closing hopening hclosing => ?_, ?_⟩
          · have hswapped : Swapped value.token w.token
                ([] ++ opening :: value.token :: closing :: []) _ :=
              .mk hopening hclosing
            exact hswapped
          · simp [arguments, Argument.toParameter, ValueTree.text_value]

/-- Another value in an expression. -/
theorem Derivation.exists_swapped {d : Derivation settings} (h : d.values[i]? = some v)
    (w : ValueTree) :
    ∃ d' : Derivation settings, Swapped v.token w.token d.tokens d'.tokens ∧
      Mapping.ofExpression d'.expression =
        (Mapping.ofExpression d.expression).withValue i w.token.lexeme := by
  cases d with
  | map => simp [values] at h
  | annotate => simp [values] at h
  | annotateWith source mark name opening arguments closing hplain hmark hname hopening hclosing =>
      obtain ⟨arguments', hswapped, hparameters⟩ := arguments.exists_swapped h w
      refine ⟨.annotateWith source mark name opening arguments' closing hplain hmark hname hopening
        hclosing, ?_, ?_⟩
      · have hinside := hswapped opening closing (.inr (.inl hopening))
          (.inr (.inr (.inr hclosing)))
        simpa [tokens] using hinside.append (source.tokens ++ [mark, name]) []
      · exact congrArg (fun parameters => Mapping.annotate source.source.name
          ⟨name.lexeme, parameters⟩) hparameters

theorem ArgumentsTree.map_value (d : ArgumentsTree settings) :
    d.arguments.map (·.value) = d.values.map (·.value) := by
  cases d with
  | named list hdistinct =>
      rw [arguments, values, list.arguments_eq_map, List.map_map, List.map_map]
      rfl
  | unnamed value hallowed => rfl

theorem Derivation.map_value (d : Derivation settings) :
    d.expression.arguments.map (·.value) = d.values.map (·.value) := by
  cases d with
  | map => rfl
  | annotate => rfl
  | annotateWith source mark name opening arguments => exact arguments.map_value

/-- The token that the value of an argument is read from. -/
theorem Derivation.exists_value {d : Derivation settings} {a : Argument}
    (h : d.expression.arguments[i]? = some a) : ∃ v, d.values[i]? = some v ∧ v.value = a.value := by
  have hvalue : (d.expression.arguments.map (·.value))[i]? = some a.value := by
    rw [List.getElem?_map, h]
    rfl
  rwa [d.map_value, List.getElem?_map, Option.map_eq_some_iff] at hvalue

end Grammar

theorem Mapping.parameters_ofExpression (e : Expression) :
    (ofExpression e).parameters = e.arguments.map (·.toParameter) := by
  obtain ⟨source, clause⟩ := e
  cases clause with
  | map target => obtain ⟨name, _ | _⟩ := target <;> rfl
  | annotate name arguments => rfl

/-- Moved tokens of a derivation are read as the moved expression. -/
theorem Expression.parse_of_moved {text : String} {d : Derivation settings} {mark : Token}
    {place : Nat → Nat}
    (hscan : scan text = .ok ((d.tokens ++ [mark]).map (·.moved place))) :
    parse settings text = .ok (d.expression.moved place) := by
  rw [List.map_append, List.map_singleton] at hscan
  obtain ⟨hmark, hus⟩ := Token.kind_of_scan hscan
  have hplain : ∀ t ∈ d.tokens, t.kind ≠ .eof :=
    fun t ht => hus (t.moved place) (List.mem_map_of_mem ht)
  have hrun : Reader.run settings 0 .start (d.tokens ++ [mark.moved place]) = .ok d.expression :=
    Reader.run_eq_ok_of_derivation d hmark []
  obtain ⟨s, hpath, hresult⟩ := (Reader.run_eq_ok_iff hplain hmark).1 hrun
  apply (parse_eq_ok_iff hscan).2
  refine ⟨s.moved place, hpath.moved, ?_⟩
  rw [Reader.State.result?_moved, hresult]
  rfl

theorem Value.isQuoted_iff {value : Value} (h : value.WellFormed) :
    Literal.isQuoted value.text.toList = true ↔ value = .quoted value.text := by
  cases value with
  | bare text =>
      have hword : Literal.isQuoted text.toList = false :=
        Literal.isQuoted_of_word (isLexeme_word_iff.1 h).2
      simp [Value.text, hword]
  | quoted text =>
      refine ⟨fun _ => rfl, fun _ => ?_⟩
      rw [WellFormed] at h
      rw [Value.text]
      generalize text.toList = cs at h
      cases h with
      | sign hsign => simp [Kind.sign?] at hsign
      | literal hq hbody => exact Literal.isQuoted_delimited hq _

/-- The token of a written value in place of another token. -/
def Token.writtenAt (t : Token) (content : String) : Token :=
  ⟨writtenKind content, written content, ⟨t.span.offset, (written content).length⟩⟩

theorem exists_valueTree_writtenAt (t : Token) (content : String) :
    ∃ w : ValueTree, w.token = t.writtenAt content := by
  have hvalue : Reader.IsValue (t.writtenAt content) := by
    unfold Reader.IsValue Token.writtenAt writtenKind
    split
    · exact .inr rfl
    · exact .inl rfl
  obtain ⟨w, hw, -⟩ := Reader.exists_valueTree hvalue
  exact ⟨w, hw⟩

/-- Writing a content anew in place of the token that a value is read from. -/
theorem Mapping.parse_replace {text : String} {d : Derivation settings} {i : Nat} {v : ValueTree}
    (hpackage : settings.package? = none)
    (hscan : scan text = .ok (d.tokens ++ [Token.eof text.length])) (hv : d.values[i]? = some v)
    (content : String) :
    parse settings (v.token.span.replace (written content) text) =
      .ok ((ofExpression d.expression).withValue i (written content)) := by
  obtain ⟨w, hw⟩ := exists_valueTree_writtenAt v.token content
  obtain ⟨d', hswapped, hmapping⟩ := Derivation.exists_swapped hv w
  rw [hw] at hswapped hmapping
  have hkind : (v.token.writtenAt content).kind ≠ .rangle := by
    unfold Token.writtenAt writtenKind
    split <;> simp
  have hreplaced := hswapped.scan_replace hscan rfl (isLexeme_written content) hkind
  apply parse_eq_ok_iff.2
  refine ⟨_, Expression.parse_of_moved hreplaced, ?_⟩
  rw [resolveWith, hpackage, ofExpression_moved, hmapping]
  rfl

/-- A parameter of a mapping is read from one token. It counts as quoted exactly
if that token is a literal; then its content is the inside of the literal without
the shields. With the content written anew in place of the token, the text is
read as the mapping in which that value alone has changed, and its content has
not. -/
theorem parse_replace_written (settings : Settings) (hpackage : settings.package? = none)
    (text : String) (m : Mapping) (hparse : Mapping.parse settings text = .ok m) (i : Nat)
    (p : Parameter) (hp : m.parameters[i]? = some p) :
    ∃ (d : Derivation settings) (v : ValueTree),
      scan text = .ok (d.tokens ++ [Token.eof text.length]) ∧
        Expression.parse settings text = .ok d.expression ∧
          (d.expression.arguments.map (·.value))[i]? = some v.value ∧ d.values[i]? = some v ∧
            v.token.lexeme = p.value ∧ (p.isQuoted = true ↔ v.value = .quoted p.value) ∧
              (p.isQuoted = true → Literal.StandsFor p.value.toList p.content.toList) ∧
                Mapping.parse settings (v.token.span.replace (written p.content) text) =
                    .ok (m.withValue i (written p.content)) ∧
                  Parameter.content ⟨p.name, written p.content⟩ = p.content := by
  obtain ⟨e, he, hm⟩ := Mapping.parse_eq_ok_iff.1 hparse
  obtain ⟨d, rfl, htiled, hlexemes⟩ := Expression.exists_derivation_of_parse he
  obtain rfl : Mapping.ofExpression d.expression = m := by
    rwa [Mapping.resolveWith, hpackage] at hm
  rw [Mapping.parameters_ofExpression, List.getElem?_map, Option.map_eq_some_iff] at hp
  obtain ⟨a, ha, rfl⟩ := hp
  obtain ⟨v, hv, hva⟩ := Derivation.exists_value ha
  have hscan := scan_eq_ok_of_tiled htiled
  have hwellFormed : v.value.WellFormed := by
    obtain ⟨d', hswapped, -⟩ := Derivation.exists_swapped hv v
    exact ValueTree.wellFormed (hlexemes _ hswapped.mem)
  have hlexeme : v.token.lexeme = a.toParameter.value := by
    rw [← v.text_value, hva]
    rfl
  have hquoted : a.toParameter.isQuoted = true ↔ v.value = .quoted a.toParameter.value := by
    rw [Parameter.isQuoted, ← hlexeme, ← v.text_value]
    exact Value.isQuoted_iff hwellFormed
  refine ⟨d, v, hscan, he, ?_, hv, hlexeme, hquoted, fun h => ?_,
    Mapping.parse_replace hpackage hscan hv _, Parameter.content_written _ _⟩
  · rw [List.getElem?_map, ha, hva]
    rfl
  · rw [hquoted.1 h] at hwellFormed
    rw [Parameter.content, String.toList_ofList]
    exact Literal.standsFor_content hwellFormed

/-- Single quotes and the shield of one of them go, and double quotes come. -/
theorem parse_replace_written_single :
    Mapping.parse {} "A @ B(x='a\\'b' , y=1)" =
        .ok (.annotate "A" ⟨"B", [⟨"x", "'a\\'b'"⟩, ⟨"y", "1"⟩]⟩) ∧
      Literal.StandsFor "'a\\'b'".toList "a'b".toList ∧
        ∃ (d : Derivation {}) (v : ValueTree), d.values[0]? = some v ∧
          v.value = .quoted "'a\\'b'" ∧
            Mapping.parse {} (v.token.span.replace "\"a'b\"" "A @ B(x='a\\'b' , y=1)") =
              .ok (.annotate "A" ⟨"B", [⟨"x", "\"a'b\""⟩, ⟨"y", "1"⟩]⟩) := by
  have hparse : Mapping.parse {} "A @ B(x='a\\'b' , y=1)" =
      .ok (.annotate "A" ⟨"B", [⟨"x", "'a\\'b'"⟩, ⟨"y", "1"⟩]⟩) := by
    decide +kernel
  obtain ⟨d, v, -, -, -, hv, -, hquoted, hstands, hreplaced, -⟩ :=
    parse_replace_written {} rfl _ _ hparse 0 ⟨"x", "'a\\'b'"⟩ rfl
  have hcontent : Parameter.content ⟨"x", "'a\\'b'"⟩ = "a'b" := by decide
  have hwritten : written "a'b" = "\"a'b\"" := by decide
  rw [hcontent] at hstands
  rw [hcontent, hwritten] at hreplaced
  exact ⟨hparse, hstands (by decide), d, v, hv, hquoted.1 (by decide), hreplaced⟩

end Typemap

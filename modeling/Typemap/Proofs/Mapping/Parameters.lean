import Mathlib.Data.List.Induction
import Mathlib.Data.List.Nodup
import Mathlib.Data.Option.Basic
import Typemap.Proofs.Expression.Recognition
import Typemap.Proofs.Expression.Refusals

/-!
# Lists of named parameters

The reader keeps the parameters that it has read and looks for the next name
among them. So a list in which a name is repeated is refused at the first name
that occurs before, whatever follows its value. Any other list is kept as it
stands, and every value in it is found by its name.
-/

namespace Typemap

open Grammar

variable {settings : Settings} {stop : Nat}

/-- Where images repeat, there is a first one that occurs before. -/
theorem exists_first_repeat {α β : Type} {f : α → β} {items : List α}
    (h : ¬ (items.map f).Nodup) :
    ∃ front a back, items = front ++ a :: back ∧ (front.map f).Nodup ∧ f a ∈ front.map f := by
  induction items using List.reverseRecOn with
  | nil => exact absurd List.nodup_nil h
  | append_singleton items a ih =>
      by_cases hitems : (items.map f).Nodup
      · refine ⟨items, a, [], rfl, hitems, ?_⟩
        by_contra ha
        apply h
        rw [List.map_append, List.map_singleton, ← List.concat_eq_append]
        exact hitems.concat ha
      · obtain ⟨front, b, back, rfl, hfront, hb⟩ := ih hitems
        exact ⟨front, b, back ++ [a], by simp, hfront, hb⟩

namespace Reader

/-- The tokens in front of the first parameter. -/
theorem run_parametersOpening {source mark name opening : Token} (hsource : IsName source)
    (hmark : mark.kind = .atSign) (hname : IsName name) (hopening : opening.kind = .lparen)
    (ts : List Token) :
    run settings stop .start (source :: mark :: name :: opening :: ts) =
      run settings stop (.parameter ⟨source.lexeme, none⟩ name.lexeme []) ts := by
  calc
    _ = run settings stop (.sourceType ⟨source.lexeme, none⟩) (mark :: name :: opening :: ts) :=
      run_of_moves (.sourceType hsource) stop _
    _ = run settings stop (.annotating ⟨source.lexeme, none⟩) (name :: opening :: ts) :=
      run_of_moves (.atSign hmark) stop _
    _ = run settings stop (.annotated ⟨source.lexeme, none⟩ name.lexeme) (opening :: ts) :=
      run_of_moves (.annotating hname) stop _
    _ = _ := run_of_moves (.parametersOpening hopening) stop _

/-- A name that an earlier parameter has is blamed as soon as its value is read. -/
theorem run_named_repeated (d : NamedTree) (source : Source) (name : String)
    {done : List Argument} {a : Argument} (ha : a ∈ done) (hname : a.name? = some d.name.lexeme)
    (ts : List Token) :
    run settings stop (.parameter source name done) (d.tokens ++ ts) =
      .error ⟨.duplicateParameter d.name.lexeme, d.name.span⟩ := by
  have hvalue := isValue_token d.value
  calc
    _ = run settings stop (.candidate source name done d.name) (d.equals :: d.value.token :: ts) :=
      run_of_moves (.candidate (.inl d.isWord)) stop _
    _ = run settings stop (.value source name done d.name) (d.value.token :: ts) :=
      run_of_moves (.equals d.isEquals d.isWord d.isPlain) stop _
    _ = _ := by rw [run, if_neg hvalue.kind_ne_eof, step_of_fails (.duplicate hvalue ha hname)]

/-- The reader gets no further in a list than to the first repeated name. -/
theorem run_parameters_repeated (d : ParametersTree) (source : Source) (name : String)
    {done : List Argument} {front back : List NamedTree} {p : NamedTree}
    (hsplit : d.parameters = front ++ p :: back)
    (hdistinct : ((done ++ front.map (·.argument)).map (·.name?)).Nodup) {a : Argument}
    (ha : a ∈ done ++ front.map (·.argument)) (hname : a.name? = some p.name.lexeme)
    (ts : List Token) :
    run settings stop (.parameter source name done) (d.tokens ++ ts) =
      .error ⟨.duplicateParameter p.name.lexeme, p.name.span⟩ := by
  induction d generalizing done front with
  | last q =>
      obtain ⟨rfl, heq⟩ := List.append_eq_singleton_iff.1 hsplit.symm |>.resolve_right (by simp)
      obtain ⟨rfl, -⟩ := List.cons.inj heq
      exact run_named_repeated p source name (by simpa using ha) hname ts
  | more q comma rest hcomma ih =>
      rw [ParametersTree.tokens, List.append_assoc, List.cons_append]
      cases front with
      | nil =>
          obtain ⟨rfl, -⟩ := List.cons.inj hsplit
          exact run_named_repeated q source name (by simpa using ha) hname _
      | cons q' front =>
          obtain ⟨rfl, htail⟩ := List.cons.inj hsplit
          have hassoc : done ++ (q :: front).map (·.argument) =
              done ++ [q.argument] ++ front.map (·.argument) := by
            simp
          rw [hassoc] at hdistinct ha
          have hfresh : ∀ b ∈ done, b.name? ≠ some q.name.lexeme := by
            intro b hb heq
            rw [List.append_assoc, List.map_append, List.nodup_append] at hdistinct
            exact hdistinct.2.2 _ (List.mem_map_of_mem hb) _ List.mem_cons_self heq
          rw [run_named q source name hfresh, run_of_moves (.parametersComma hcomma)]
          exact ih htail hdistinct ha

end Reader

namespace Annotation

/-- Where no name is repeated, looking one up finds its only value. -/
theorem get?_eq_some_iff (applied : Annotation) (hdistinct : applied.names.Nodup)
    {name value : String} :
    applied.get? name = some value ↔ ⟨name, value⟩ ∈ applied.parameters := by
  constructor
  · intro h
    obtain ⟨p, hfound, rfl⟩ := Option.map_eq_some_iff.1 h
    have hname : p.name = name := by simpa using List.find?_some hfound
    rw [← hname]
    exact List.mem_of_find?_eq_some hfound
  · intro hp
    cases hfound : applied.parameters.find? (fun p => p.name == name) with
    | none =>
        have habsent := List.find?_eq_none.1 hfound _ hp
        simp at habsent
    | some p =>
        have hname : p.name = name := by simpa using List.find?_some hfound
        have hmem := List.mem_of_find?_eq_some hfound
        rw [get?, hfound, List.inj_on_of_nodup_map hdistinct hmem hp hname]
        rfl

theorem get?_eq_none (applied : Annotation) {name : String} (h : name ∉ applied.names) :
    applied.get? name = none := by
  have hfound : applied.parameters.find? (fun q => q.name == name) = none := by
    rw [List.find?_eq_none]
    intro q hq heq
    exact h (List.mem_map.2 ⟨q, hq, by simpa using heq⟩)
  rw [get?, hfound]
  rfl

end Annotation

namespace Mapping

/-- What stands for the package does not touch the parameters. -/
theorem exists_attached_resolveWith (settings : Settings) (source : String) (applied : Annotation) :
    ∃ resolved, (annotate source applied).resolveWith settings = annotate source resolved ∧
      resolved.parameters = applied.parameters := by
  unfold resolveWith
  cases settings.package? with
  | none => exact ⟨applied, rfl, rfl⟩
  | some package => exact ⟨_, rfl, rfl⟩

end Mapping

theorem Cause.message_duplicateParameter {name : String} (h : name ≠ "") :
    (duplicateParameter name).message =
      "annotation parameter `" ++ name ++ "` given more than once" := by
  have hempty : name.isEmpty = false := by simpa using h
  exact if_neg (by simp [hempty])

namespace Grammar

theorem ValueTree.text_value (d : ValueTree) : d.value.text = d.token.lexeme := by
  cases d <;> rfl

theorem NamedTree.toParameter_argument (d : NamedTree) :
    d.argument.toParameter = ⟨d.name.lexeme, d.value.token.lexeme⟩ := by
  rw [← d.value.text_value]
  rfl

theorem NamedTree.lexeme_name_ne_empty (d : NamedTree) : d.name.lexeme ≠ "" := by
  intro hempty
  have hplain := d.isPlain
  simp [hempty, Name.isPlain] at hplain

theorem nodup_name?_iff {items : List NamedTree} :
    ((items.map (·.argument)).map (·.name?)).Nodup ↔ (items.map (·.name.lexeme)).Nodup := by
  have hmap : (items.map (·.argument)).map (·.name?) = (items.map (·.name.lexeme)).map some := by
    rw [List.map_map, List.map_map]
    rfl
  rw [hmap, List.nodup_map_iff (Option.some_injective _)]

end Grammar

namespace Expression

variable {text : String} {source mark name opening : Token} {d : ParametersTree}

theorem ofTokens_of_repeated (hsource : IsName source) (hmark : mark.kind = .atSign)
    (hname : IsName name) (hopening : opening.kind = .lparen) {front back : List NamedTree}
    {p : NamedTree} (hsplit : d.parameters = front ++ p :: back)
    (hdistinct : (front.map (·.name.lexeme)).Nodup)
    (hp : p.name.lexeme ∈ front.map (·.name.lexeme)) (rest : List Token) :
    ofTokens settings text (source :: mark :: name :: opening :: (d.tokens ++ rest)) =
      .error (.ofFault text ⟨.duplicateParameter p.name.lexeme, p.name.span⟩) := by
  obtain ⟨earlier, hearlier, heq⟩ := List.mem_map.1 hp
  have hnames : (([] ++ front.map NamedTree.argument).map Argument.name?).Nodup :=
    nodup_name?_iff.2 hdistinct
  have hdone : earlier.argument ∈ [] ++ front.map NamedTree.argument := List.mem_map_of_mem hearlier
  rw [ofTokens, Reader.run_parametersOpening hsource hmark hname hopening,
    Reader.run_parameters_repeated d _ _ hsplit hnames hdone (congrArg some heq)]
  rfl

theorem ofTokens_of_distinct (hsource : IsName source) (hmark : mark.kind = .atSign)
    (hname : IsName name) (hopening : opening.kind = .lparen)
    (hdistinct : (d.parameters.map (·.name.lexeme)).Nodup) {closing stop : Token}
    (hclosing : closing.kind = .rparen) (hstop : stop.kind = .eof) (rest : List Token) :
    ofTokens settings text
        (source :: mark :: name :: opening :: (d.tokens ++ closing :: stop :: rest)) =
      .ok ⟨⟨source.lexeme, none⟩, .annotate name.lexeme (d.parameters.map (·.argument))⟩ := by
  have hnames : (([] ++ d.arguments).map Argument.name?).Nodup := by
    rw [List.nil_append, d.arguments_eq_map]
    exact nodup_name?_iff.2 hdistinct
  rw [ofTokens, Reader.run_parametersOpening hsource hmark hname hopening,
    Reader.run_parameters d _ _ hnames, Reader.run_of_moves (.parametersClosing hclosing),
    List.nil_append, d.arguments_eq_map, Reader.run, if_pos hstop]
  rfl

end Expression

/-- A list of named parameters is refused at the first name that occurs before,
whatever follows the list. If no name is repeated and the parenthesis is closed,
then the mapping has the parameters in their order, and its annotation gives for
each name the value behind it and nothing for any other name. -/
theorem ofTokens_parameters (settings : Settings) (text : String)
    (source mark name opening : Token) (hsource : IsName source) (hmark : mark.kind = .atSign)
    (hname : IsName name) (hopening : opening.kind = .lparen) (d : ParametersTree) :
    (¬ (d.parameters.map (·.name.lexeme)).Nodup →
        ∃ front p back, d.parameters = front ++ p :: back ∧
          (front.map (·.name.lexeme)).Nodup ∧ p.name.lexeme ∈ front.map (·.name.lexeme) ∧
            ∀ rest, Expression.ofTokens settings text
                (source :: mark :: name :: opening :: (d.tokens ++ rest)) =
              .error ⟨.duplicateParameter,
                "annotation parameter `" ++ p.name.lexeme ++ "` given more than once", text,
                p.name.span, none⟩) ∧
      ((d.parameters.map (·.name.lexeme)).Nodup →
        ∀ closing stop : Token, closing.kind = .rparen → stop.kind = .eof → ∀ rest,
          ∃ e applied, Expression.ofTokens settings text
                (source :: mark :: name :: opening :: (d.tokens ++ closing :: stop :: rest)) =
              .ok e ∧
            (Mapping.ofExpression e).resolveWith settings = .annotate source.lexeme applied ∧
              applied.parameters =
                  d.parameters.map (fun p => ⟨p.name.lexeme, p.value.token.lexeme⟩) ∧
                (∀ p ∈ d.parameters,
                    applied.get? p.name.lexeme = some p.value.token.lexeme) ∧
                  ∀ other, other ∉ d.parameters.map (·.name.lexeme) →
                    applied.get? other = none) := by
  constructor
  · intro hrepeats
    obtain ⟨front, p, back, hsplit, hdistinct, hp⟩ := exists_first_repeat hrepeats
    refine ⟨front, p, back, hsplit, hdistinct, hp, fun rest => ?_⟩
    rw [Expression.ofTokens_of_repeated hsource hmark hname hopening hsplit hdistinct hp,
      Failure.ofFault, Cause.message_duplicateParameter p.lexeme_name_ne_empty]
    rfl
  · intro hdistinct closing stop hclosing hstop rest
    obtain ⟨applied, hresolved, hparameters⟩ := Mapping.exists_attached_resolveWith settings
      source.lexeme ⟨name.lexeme, (d.parameters.map (·.argument)).map (·.toParameter)⟩
    have hlist : applied.parameters =
        d.parameters.map fun p => ⟨p.name.lexeme, p.value.token.lexeme⟩ := by
      rw [hparameters, List.map_map]
      exact List.map_congr_left fun p _ => p.toParameter_argument
    have hnames : applied.names = d.parameters.map (·.name.lexeme) := by
      unfold Annotation.names
      rw [hlist, List.map_map]
      rfl
    refine ⟨_, applied, Expression.ofTokens_of_distinct hsource hmark hname hopening hdistinct
      hclosing hstop rest, hresolved, hlist, ?_, ?_⟩
    · intro p hp
      rw [applied.get?_eq_some_iff (hnames ▸ hdistinct), hlist]
      exact List.mem_map_of_mem hp
    · intro other hother
      exact applied.get?_eq_none (hnames ▸ hother)

/-- In `A@B(a=1,b="2",a=3` the third name is blamed, whatever follows. The first
two parameters alone can be looked up. -/
theorem ofTokens_parameters_thrice :
    Expression.ofTokens {} "A@B(a=1,b=\"2\",a=3>" [⟨.word, "A", ⟨0, 1⟩⟩, ⟨.atSign, "@", ⟨1, 1⟩⟩,
        ⟨.word, "B", ⟨2, 1⟩⟩, ⟨.lparen, "(", ⟨3, 1⟩⟩, ⟨.word, "a", ⟨4, 1⟩⟩, ⟨.equals, "=", ⟨5, 1⟩⟩,
        ⟨.word, "1", ⟨6, 1⟩⟩, ⟨.comma, ",", ⟨7, 1⟩⟩, ⟨.word, "b", ⟨8, 1⟩⟩, ⟨.equals, "=", ⟨9, 1⟩⟩,
        ⟨.literal, "\"2\"", ⟨10, 3⟩⟩, ⟨.comma, ",", ⟨13, 1⟩⟩, ⟨.word, "a", ⟨14, 1⟩⟩,
        ⟨.equals, "=", ⟨15, 1⟩⟩, ⟨.word, "3", ⟨16, 1⟩⟩, ⟨.rangle, ">", ⟨17, 1⟩⟩] =
        .error ⟨.duplicateParameter, "annotation parameter `a` given more than once",
          "A@B(a=1,b=\"2\",a=3>", ⟨14, 1⟩, none⟩ ∧
      ∃ e applied, Expression.ofTokens {} "A@B(a=1,b=\"2\")" [⟨.word, "A", ⟨0, 1⟩⟩,
          ⟨.atSign, "@", ⟨1, 1⟩⟩, ⟨.word, "B", ⟨2, 1⟩⟩, ⟨.lparen, "(", ⟨3, 1⟩⟩,
          ⟨.word, "a", ⟨4, 1⟩⟩, ⟨.equals, "=", ⟨5, 1⟩⟩, ⟨.word, "1", ⟨6, 1⟩⟩,
          ⟨.comma, ",", ⟨7, 1⟩⟩, ⟨.word, "b", ⟨8, 1⟩⟩, ⟨.equals, "=", ⟨9, 1⟩⟩,
          ⟨.literal, "\"2\"", ⟨10, 3⟩⟩, ⟨.rparen, ")", ⟨13, 1⟩⟩, Token.eof 14] = .ok e ∧
        (Mapping.ofExpression e).resolveWith {} = .annotate "A" applied ∧
          applied.get? "b" = some "\"2\"" ∧ applied.get? "c" = none := by
  have hA : IsName ⟨.word, "A", ⟨0, 1⟩⟩ := ⟨rfl, by decide⟩
  have hB : IsName ⟨.word, "B", ⟨2, 1⟩⟩ := ⟨rfl, by decide⟩
  let a : NamedTree := ⟨⟨.word, "a", ⟨4, 1⟩⟩, ⟨.equals, "=", ⟨5, 1⟩⟩,
    .bare ⟨.word, "1", ⟨6, 1⟩⟩ rfl, rfl, by decide, rfl⟩
  let b : NamedTree := ⟨⟨.word, "b", ⟨8, 1⟩⟩, ⟨.equals, "=", ⟨9, 1⟩⟩,
    .quoted ⟨.literal, "\"2\"", ⟨10, 3⟩⟩ rfl, rfl, by decide, rfl⟩
  let again : NamedTree := ⟨⟨.word, "a", ⟨14, 1⟩⟩, ⟨.equals, "=", ⟨15, 1⟩⟩,
    .bare ⟨.word, "3", ⟨16, 1⟩⟩ rfl, rfl, by decide, rfl⟩
  let two : ParametersTree := .more a ⟨.comma, ",", ⟨7, 1⟩⟩ (.last b) rfl
  let three : ParametersTree := .more a ⟨.comma, ",", ⟨7, 1⟩⟩
    (.more b ⟨.comma, ",", ⟨13, 1⟩⟩ (.last again) rfl) rfl
  constructor
  · obtain ⟨_, _, _, _, _, _, hrefused⟩ := (ofTokens_parameters {} "A@B(a=1,b=\"2\",a=3>"
      ⟨.word, "A", ⟨0, 1⟩⟩ ⟨.atSign, "@", ⟨1, 1⟩⟩ ⟨.word, "B", ⟨2, 1⟩⟩ ⟨.lparen, "(", ⟨3, 1⟩⟩ hA rfl
      hB rfl three).1 (by decide)
    exact (hrefused _).trans ((hrefused []).symm.trans (by decide +kernel))
  · obtain ⟨e, applied, hparse, hresolved, -, hfound, habsent⟩ := (ofTokens_parameters {}
      "A@B(a=1,b=\"2\")" ⟨.word, "A", ⟨0, 1⟩⟩ ⟨.atSign, "@", ⟨1, 1⟩⟩ ⟨.word, "B", ⟨2, 1⟩⟩
      ⟨.lparen, "(", ⟨3, 1⟩⟩ hA rfl hB rfl two).2 (by decide) ⟨.rparen, ")", ⟨13, 1⟩⟩
      (Token.eof 14) rfl rfl []
    exact ⟨e, applied, hparse, hresolved, hfound b (List.mem_cons_of_mem a List.mem_cons_self),
      habsent "c" (by decide)⟩

end Typemap

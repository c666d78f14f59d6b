import Typemap.Parse
import Typemap.Proofs.Expression.Completeness
import Typemap.Proofs.Expression.Soundness

/-!
# The reader recognizes the grammar

Two derivations of the same tokens are equal: each choice between rules is
settled by the kind of the next token. With soundness and completeness of the
reader this makes the tree of an expression the tree of its only derivation.
-/

namespace Typemap

namespace Grammar

variable {settings : Settings} {ts us : List Token}

/-- The kind of the first token, if there is one. -/
def Starts (p : Token.Kind → Prop) (ts : List Token) : Prop := ∀ t ∈ ts.head?, p t.kind

theorem starts_cons {p : Token.Kind → Prop} {t : Token} (h : p t.kind) (ts : List Token) :
    Starts p (t :: ts) := by
  intro u hu
  obtain rfl := Option.some.inj hu
  exact h

theorem Starts.not_cons {p : Token.Kind → Prop} {t : Token} (h : Starts p (t :: ts))
    (ht : ¬p t.kind) : False :=
  ht (h t rfl)

theorem Starts.imp {p q : Token.Kind → Prop} (h : Starts p ts) (hpq : ∀ kind, p kind → q kind) :
    Starts q ts :=
  fun t ht => hpq t.kind (h t ht)

theorem SourceTree.eq_of_append {d d' : SourceTree} (hts : Starts (· ≠ .lparen) ts)
    (hus : Starts (· ≠ .lparen) us) (h : d.tokens ++ ts = d'.tokens ++ us) : d = d' ∧ ts = us := by
  cases d <;> cases d' <;>
    simp only [tokens, List.cons_append, List.nil_append, List.cons.injEq] at h
  case plain.plain => exact ⟨by simp [h.1], h.2⟩
  case plain.formatted hopening _ _ _ =>
      obtain ⟨-, rfl⟩ := h
      exact (hts.not_cons (by simp [hopening])).elim
  case formatted.plain hopening _ _ _ _ _ =>
      obtain ⟨-, rfl⟩ := h
      exact (hus.not_cons (by simp [hopening])).elim
  case formatted.formatted =>
      obtain ⟨rfl, rfl, rfl, rfl, rfl⟩ := h
      exact ⟨rfl, rfl⟩

mutual

theorem TargetTree.eq_of_append (d d' : TargetTree) {ts us : List Token}
    (hts : Starts (· ≠ .langle) ts) (hus : Starts (· ≠ .langle) us)
    (h : d.tokens ++ ts = d'.tokens ++ us) : d = d' ∧ ts = us := by
  cases d with
  | plain name hname =>
      cases d' with
      | plain name' hname' =>
          obtain ⟨rfl, rfl⟩ := List.cons.inj h
          exact ⟨rfl, rfl⟩
      | generic name' opening list closing hname' hopening hclosing =>
          obtain ⟨-, rfl⟩ := List.cons.inj h
          exact (hts.not_cons (by simp [hopening])).elim
  | generic name opening list closing hname hopening hclosing =>
      cases d' with
      | plain name' hname' =>
          obtain ⟨-, rfl⟩ := List.cons.inj h
          exact (hus.not_cons (by simp [hopening])).elim
      | generic name' opening' list' closing' hname' hopening' hclosing' =>
          simp only [TargetTree.tokens, List.cons_append, List.append_assoc, List.nil_append,
            List.cons.injEq] at h
          obtain ⟨rfl, rfl, hlist⟩ := h
          obtain ⟨rfl, hrest⟩ := GenericsTree.eq_of_append list list'
            (starts_cons hclosing ts) (starts_cons hclosing' us) hlist
          obtain ⟨rfl, rfl⟩ := List.cons.inj hrest
          exact ⟨rfl, rfl⟩

theorem GenericsTree.eq_of_append (d d' : GenericsTree) {ts us : List Token}
    (hts : Starts (· = .rangle) ts) (hus : Starts (· = .rangle) us)
    (h : d.tokens ++ ts = d'.tokens ++ us) : d = d' ∧ ts = us := by
  have hne {vs : List Token} (hvs : Starts (· = .rangle) vs) : Starts (· ≠ .langle) vs :=
    hvs.imp (by rintro _ rfl; decide)
  cases d with
  | last target =>
      cases d' with
      | last target' =>
          obtain ⟨rfl, rfl⟩ := TargetTree.eq_of_append target target' (hne hts) (hne hus) h
          exact ⟨rfl, rfl⟩
      | more target' comma rest hcomma =>
          simp only [GenericsTree.tokens, List.append_assoc, List.cons_append] at h
          obtain ⟨-, rfl⟩ := TargetTree.eq_of_append target target' (hne hts)
            (starts_cons (by simp [hcomma]) _) h
          exact (hts.not_cons (by simp [hcomma])).elim
  | more target comma rest hcomma =>
      cases d' with
      | last target' =>
          simp only [GenericsTree.tokens, List.append_assoc, List.cons_append] at h
          obtain ⟨-, rfl⟩ := TargetTree.eq_of_append target target'
            (starts_cons (by simp [hcomma]) _) (hne hus) h
          exact (hus.not_cons (by simp [hcomma])).elim
      | more target' comma' rest' hcomma' =>
          simp only [GenericsTree.tokens, List.append_assoc, List.cons_append] at h
          obtain ⟨rfl, hrest⟩ := TargetTree.eq_of_append target target'
            (starts_cons (by simp [hcomma]) _) (starts_cons (by simp [hcomma']) _) h
          obtain ⟨rfl, htail⟩ := List.cons.inj hrest
          obtain ⟨rfl, rfl⟩ := GenericsTree.eq_of_append rest rest' hts hus htail
          exact ⟨rfl, rfl⟩

end

theorem ValueTree.eq_of_token {d d' : ValueTree} (h : d.token = d'.token) : d = d' := by
  cases d with
  | bare token hword =>
      cases d' with
      | bare => cases h; rfl
      | quoted token' hliteral =>
          obtain rfl : token = token' := h
          simp [hword] at hliteral
  | quoted token hliteral =>
      cases d' with
      | bare token' hword =>
          obtain rfl : token = token' := h
          simp [hliteral] at hword
      | quoted => cases h; rfl

theorem NamedTree.eq_of_append {d d' : NamedTree} (h : d.tokens ++ ts = d'.tokens ++ us) :
    d = d' ∧ ts = us := by
  obtain ⟨name, equals, value, _, _, _⟩ := d
  obtain ⟨name', equals', value', _, _, _⟩ := d'
  simp only [tokens, List.cons_append, List.nil_append, List.cons.injEq] at h
  obtain ⟨rfl, rfl, hvalue, rfl⟩ := h
  obtain rfl := ValueTree.eq_of_token hvalue
  exact ⟨rfl, rfl⟩

theorem ParametersTree.eq_of_append {d d' : ParametersTree} (hts : Starts (· ≠ .comma) ts)
    (hus : Starts (· ≠ .comma) us) (h : d.tokens ++ ts = d'.tokens ++ us) : d = d' ∧ ts = us := by
  induction d generalizing d' with
  | last parameter =>
      cases d' with
      | last parameter' =>
          obtain ⟨rfl, rfl⟩ := NamedTree.eq_of_append h
          exact ⟨rfl, rfl⟩
      | more parameter' comma rest hcomma =>
          simp only [tokens, List.append_assoc, List.cons_append] at h
          obtain ⟨-, rfl⟩ := NamedTree.eq_of_append h
          exact (hts.not_cons (by simp [hcomma])).elim
  | more parameter comma rest hcomma ih =>
      cases d' with
      | last parameter' =>
          simp only [tokens, List.append_assoc, List.cons_append] at h
          obtain ⟨-, rfl⟩ := NamedTree.eq_of_append h
          exact (hus.not_cons (by simp [hcomma])).elim
      | more parameter' comma' rest' hcomma' =>
          simp only [tokens, List.append_assoc, List.cons_append] at h
          obtain ⟨rfl, hrest⟩ := NamedTree.eq_of_append h
          obtain ⟨rfl, htail⟩ := List.cons.inj hrest
          obtain ⟨rfl, rfl⟩ := ih htail
          exact ⟨rfl, rfl⟩

/-- A named parameter shows by its second token. -/
theorem ParametersTree.tokens_eq (d : ParametersTree) :
    ∃ name equals rest, equals.kind = .equals ∧ d.tokens = name :: equals :: rest := by
  cases d with
  | last parameter => exact ⟨_, _, _, parameter.isEquals, rfl⟩
  | more parameter comma rest hcomma => exact ⟨_, _, _, parameter.isEquals, rfl⟩

theorem ArgumentsTree.eq_of_append {d d' : ArgumentsTree settings}
    (hts : Starts (· = .rparen) ts) (hus : Starts (· = .rparen) us)
    (h : d.tokens ++ ts = d'.tokens ++ us) : d = d' ∧ ts = us := by
  cases d with
  | named list hdistinct =>
      cases d' with
      | named list' hdistinct' =>
          obtain ⟨rfl, rfl⟩ := ParametersTree.eq_of_append (hts.imp (by rintro _ rfl; decide))
            (hus.imp (by rintro _ rfl; decide)) h
          exact ⟨rfl, rfl⟩
      | unnamed value hallowed =>
          obtain ⟨name, equals, rest, hequals, htokens⟩ := list.tokens_eq
          rw [tokens, htokens] at h
          obtain ⟨-, rfl⟩ := List.cons.inj h
          exact (hus.not_cons (by simp [hequals])).elim
  | unnamed value hallowed =>
      cases d' with
      | named list hdistinct =>
          obtain ⟨name, equals, rest, hequals, htokens⟩ := list.tokens_eq
          rw [tokens, tokens, htokens] at h
          obtain ⟨-, rfl⟩ := List.cons.inj h
          exact (hts.not_cons (by simp [hequals])).elim
      | unnamed value' hallowed' =>
          obtain ⟨hvalue, rfl⟩ := List.cons.inj h
          obtain rfl := ValueTree.eq_of_token hvalue
          exact ⟨rfl, rfl⟩

theorem starts_nil (p : Token.Kind → Prop) : Starts p [] := by
  intro t ht
  simp at ht

namespace Derivation

def source : Derivation settings → SourceTree
  | map source _ _ _ _ => source
  | annotate source _ _ _ _ _ => source
  | annotateWith source _ _ _ _ _ _ _ _ _ _ => source

/-- The tokens behind the source type. -/
def tail : Derivation settings → List Token
  | map _ arrow target _ _ => arrow :: target.tokens
  | annotate _ mark name _ _ _ => [mark, name]
  | annotateWith _ mark name opening arguments closing _ _ _ _ _ =>
      mark :: name :: opening :: arguments.tokens ++ [closing]

theorem tokens_eq (d : Derivation settings) : d.tokens = d.source.tokens ++ d.tail := by
  cases d <;> simp [tokens, source, tail]

theorem starts_tail (d : Derivation settings) : Starts (· ≠ .lparen) d.tail := by
  cases d with
  | map _ _ _ harrow _ => exact starts_cons (by simp [harrow]) _
  | annotate _ _ _ _ hmark _ => exact starts_cons (by simp [hmark]) _
  | annotateWith _ _ _ _ _ _ _ hmark _ _ _ => exact starts_cons (by simp [hmark]) _

theorem eq_of_tokens {d d' : Derivation settings} (h : d.tokens = d'.tokens) : d = d' := by
  rw [tokens_eq, tokens_eq] at h
  obtain ⟨hsource, htail⟩ := SourceTree.eq_of_append d.starts_tail d'.starts_tail h
  clear h
  -- The sign tells a mapping from an annotation, and the length of the rest
  -- whether the annotation has parentheses.
  cases d with
  | map source arrow target harrow hdepth =>
      cases d' with
      | map source' arrow' target' harrow' hdepth' =>
          obtain rfl : source = source' := hsource
          obtain ⟨rfl, htarget⟩ := List.cons.inj htail
          obtain ⟨rfl, -⟩ := TargetTree.eq_of_append target target' (starts_nil _) (starts_nil _)
            (congrArg (· ++ []) htarget)
          rfl
      | annotate source' mark name hplain hmark hname =>
          obtain ⟨rfl, -⟩ := List.cons.inj htail
          simp [harrow] at hmark
      | annotateWith source' mark name opening arguments closing hplain hmark =>
          obtain ⟨rfl, -⟩ := List.cons.inj htail
          simp [harrow] at hmark
  | annotate source mark name hplain hmark hname =>
      cases d' with
      | map source' arrow target harrow hdepth =>
          obtain ⟨rfl, -⟩ := List.cons.inj htail
          simp [harrow] at hmark
      | annotate source' mark' name' hplain' hmark' hname' =>
          obtain rfl : source = source' := hsource
          simp only [tail, List.cons.injEq, and_true] at htail
          obtain ⟨rfl, rfl⟩ := htail
          rfl
      | annotateWith => simp [tail] at htail
  | annotateWith source mark name opening arguments closing hplain hmark hname hopening hclosing =>
      cases d' with
      | map source' arrow target harrow hdepth =>
          obtain ⟨rfl, -⟩ := List.cons.inj htail
          simp [harrow] at hmark
      | annotate => simp [tail] at htail
      | annotateWith source' mark' name' opening' arguments' closing' hplain' hmark' hname'
          hopening' hclosing' =>
          obtain rfl : source = source' := hsource
          simp only [tail, List.cons_append, List.cons.injEq] at htail
          obtain ⟨rfl, rfl, rfl, harguments⟩ := htail
          obtain ⟨rfl, hlast⟩ := ArgumentsTree.eq_of_append (starts_cons hclosing [])
            (starts_cons hclosing' []) harguments
          obtain ⟨rfl, -⟩ := List.cons.inj hlast
          rfl

end Derivation

end Grammar

open Grammar

theorem reported_eq_ok_iff {α : Type} {text : String} {result : Except Fault α} {a : α} :
    reported text result = .ok a ↔ result = .ok a := by
  cases result with
  | ok b => simp [reported]
  | error fault => simp [reported]

namespace Expression

variable {settings : Settings} {text : String} {ts : List Token} {mark : Token}

theorem ofTokens_of_derivation (d : Derivation settings) (hmark : mark.kind = .eof) :
    ofTokens settings text (d.tokens ++ [mark]) = .ok d.expression :=
  reported_eq_ok_iff.2 (Reader.run_eq_ok_of_derivation d hmark [])

theorem exists_derivation_of_ofTokens {e : Expression} (hts : ∀ t ∈ ts, t.kind ≠ .eof)
    (hmark : mark.kind = .eof) (h : ofTokens settings text (ts ++ [mark]) = .ok e) :
    ∃ d : Derivation settings, d.tokens = ts ∧ d.expression = e :=
  Reader.Reads.start.run hts hmark (reported_eq_ok_iff.1 h)

end Expression

/-- An expression is read off tokens if and only if they have a derivation with
its tree, and no tokens have two derivations. -/
theorem ofTokens_eq_ok_iff (settings : Settings) (text : String) (ts : List Token) (mark : Token)
    (hts : ∀ t ∈ ts, t.kind ≠ .eof) (hmark : mark.kind = .eof) (e : Expression) :
    (Expression.ofTokens settings text (ts ++ [mark]) = .ok e ↔
        ∃ d : Derivation settings, d.tokens = ts ∧ d.expression = e) ∧
      ∀ d d' : Derivation settings, d.tokens = ts → d'.tokens = ts → d = d' := by
  refine ⟨⟨Expression.exists_derivation_of_ofTokens hts hmark, ?_⟩, ?_⟩
  · rintro ⟨d, rfl, rfl⟩
    exact Expression.ofTokens_of_derivation d hmark
  · intro d d' hd hd'
    exact Derivation.eq_of_tokens (hd.trans hd'.symm)

/-- The tokens of `A => B<C>`, behind which stands the mark of the end. -/
theorem ofTokens_generic :
    ∃ d : Derivation {}, d.tokens = [⟨.word, "A", ⟨0, 1⟩⟩, ⟨.arrow, "=>", ⟨2, 2⟩⟩,
        ⟨.word, "B", ⟨5, 1⟩⟩, ⟨.langle, "<", ⟨6, 1⟩⟩, ⟨.word, "C", ⟨7, 1⟩⟩,
        ⟨.rangle, ">", ⟨8, 1⟩⟩] ∧
      d.expression = ⟨⟨"A", none⟩, .map ⟨"B", .cons "C" .nil .nil⟩⟩ :=
  (ofTokens_eq_ok_iff {} "A => B<C>" _ (Token.eof 9) (by decide) rfl _).1.mp rfl

end Typemap

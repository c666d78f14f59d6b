import Typemap.Proofs.Expression.Blame
import Typemap.Proofs.Parse
import Typemap.Proofs.Token.Faults

/-!
# Failures point at the offending text

A fault of the scan covers the character or the open literal behind the tokens.
A fault of the reader points at a token of the text, at a pair of brackets with
only blanks between them, or at the end.
-/

namespace Typemap

open Grammar Token Reader Failure

variable {settings : Settings} {text : String}

theorem Reader.Refusal.blames {s : State} {t : Token} {fault : Fault} (h : Refusal t s fault)
    {read rest : List Token} (hscan : scan text = .ok (read ++ t :: rest))
    (hreads : Reads settings s read) (hend : t.kind = .eof → s.result? = none) :
    Blames text fault.cause.kind fault.span := by
  have ht : t ∈ read ++ t :: rest := by simp
  cases h with
  | unexpected =>
      by_cases hkind : t.kind = .eof
      · rw [eq_eof_of_mem hscan ht hkind]
        exact .unexpectedEnd
      · exact .unexpectedToken (standsIn_of_mem hscan ht hkind)
  | unnamed =>
      cases hreads with
      | candidate _ _ hvalue =>
          exact .unexpectedToken (standsIn_of_mem hscan (by simp) hvalue.kind_ne_eof)
  | trailing hresult =>
      have hkind : t.kind ≠ .eof := by
        intro hkind
        simp [hend hkind] at hresult
      exact .trailingInput (standsIn_of_mem hscan ht hkind)

/-- Two neighbours that are brackets have only blanks between them. -/
theorem blames_brackets {front back : List Token} {opening closing : Token}
    (hscan : scan text = .ok (front ++ opening :: closing :: back))
    (hopening : opening.kind = .langle) (hclosing : closing.kind = .rangle) :
    Blames text .emptyGenericArgs (opening.span.through closing.span) := by
  have hopens := standsIn_of_mem (t := opening) hscan (by simp) (by simp [hopening])
  have hcloses := standsIn_of_mem (t := closing) hscan (by simp) (by simp [hclosing])
  have hlangle : opening.lexeme.toList = ['<'] := hopens.lexeme_sign (by rw [hopening]; rfl)
  have hrangle : closing.lexeme.toList = ['>'] := hcloses.lexeme_sign (by rw [hclosing]; rfl)
  obtain ⟨before, blanks, after, htext, hblanks, hoffset, hstop⟩ :=
    exists_between hscan (by simp [hclosing])
  refine .emptyGenericArgs hopens hcloses ?_ hblanks ?_
  · rw [hoffset, hstop]
    simp
  · have hlength : closing.span.stop - before.length = ('<' :: blanks ++ ['>']).length := by
      rw [hstop, hlangle, hrangle]
      simp
    have hdrop : text.toList.drop before.length = '<' :: blanks ++ ['>'] ++ after := by
      rw [htext, hlangle, hrangle, List.drop_left]
      simp
    rw [Span.under, Span.through, hoffset, hlength, hdrop, List.take_left]

/-- A parameter is blamed for an earlier one that has its name. -/
theorem blames_duplicate {source : Source} {name : String} {done : List Argument}
    {token : Token} {read rest : List Token}
    (hreads : Reads settings (.value source name done token) read)
    (hscan : scan text = .ok (read ++ rest)) {a : Argument} (ha : a ∈ done)
    (hname : a.name? = some token.lexeme) : Blames text .duplicateParameter token.span := by
  obtain ⟨before, earlier, between, equals, rfl, hwords, hlexeme, hgoverns⟩ :=
    hreads.exists_earlier ha hname
  have hscan' : scan text = .ok (before ++ earlier :: between ++ token :: equals :: rest) := by
    simpa using hscan
  have hstands := standsIn_of_mem (t := token) hscan' (by simp) (by simp [hwords.2])
  obtain ⟨hearlier, htoken⟩ := hgoverns rest
  refine .duplicateParameter hscan' hwords hearlier htoken ?_
  rw [hstands.under, hlexeme]

theorem blames_of_fails {front back : List Token} {t : Token} {s : State} {fault : Fault}
    (hscan : scan text = .ok (front ++ t :: back)) (ht : t.kind ≠ .eof)
    (hpath : Path settings front s) (hfails : Fails settings s t fault) :
    Blames text fault.cause.kind fault.span := by
  have hreads := hpath.reads
  have hmem : t ∈ front ++ t :: back := by simp
  have hstands := standsIn_of_mem hscan hmem ht
  cases hfails with
  | refused hfits => exact (refusal_refuse s t).blames hscan hreads fun hkind => absurd hkind ht
  | name hdue hkind hdefect =>
      refine .malformedName hscan hkind (isRun_of_mem hscan hmem hkind)
        (hreads.governs_of_nameDue hdue back) ?_
      rw [hstands.under]
      simp [Name.Rule.Accepts, Name.IsQualified, hdefect]
  | format hkind hformat =>
      cases hreads with
      | format hname hopening =>
          refine .malformedName hscan hkind (isRun_of_mem hscan hmem hkind)
            (.format hname.isWord hopening) ?_
          rw [hstands.under]
          simp [Name.Rule.Accepts, hformat]
  | misplacedFormat hkind =>
      obtain ⟨opening, hopening, hlparen, hspan⟩ := hreads.exists_opening
      rw [← hspan]
      exact .unexpectedToken (standsIn_of_mem hscan (by simp [hopening]) (by simp [hlparen]))
  | tooDeep hkind hdepth =>
      have hlangle : t.lexeme.toList = ['<'] := hstands.lexeme_sign (by rw [hkind]; rfl)
      exact .nestingTooDeep hstands (hstands.under.trans hlangle)
  | emptyGenerics hkind =>
      obtain ⟨before, opening, _, _, rfl, hopening, rfl, -⟩ := hpath.exists_of_opened
      exact blames_brackets (by simpa using hscan) hopening hkind
  | @parameterName source name done token _ hkind hword hname =>
      -- The name is the last token that was read; only the sign behind it tells that it is one.
      cases hreads with
      | @candidate _ _ _ _ ts us hhead hdone hvalue =>
          have hscan' : scan text = .ok ((ts ++ us) ++ token :: t :: back) := by
            simpa using hscan
          have htoken := standsIn_of_mem (t := token) hscan' (by simp) (by simp [hword])
          refine .malformedName hscan' hword (isRun_of_mem hscan' (by simp) hword)
            (hhead.governs hdone.isOpen hkind back) ?_
          rw [htoken.under]
          simp [Name.Rule.Accepts, hname]
  | duplicate hvalue ha hname => exact blames_duplicate hreads hscan ha hname

theorem blames_of_stuck {us : List Token} {mark : Token} {fault : Fault}
    (hscan : scan text = .ok (us ++ [mark])) (hstuck : Stuck settings us mark fault) :
    Blames text fault.cause.kind fault.span := by
  cases hstuck with
  | @token front back t s _ hsplit hpath hfails =>
      have ht : t.kind ≠ .eof := (kind_of_scan hscan).2 t (by simp [hsplit])
      subst hsplit
      rw [List.append_assoc, List.cons_append] at hscan
      exact blames_of_fails hscan ht hpath hfails
  | mark hpath hresult =>
      exact (refusal_refuse _ _).blames hscan hpath.reads fun _ => hresult

namespace Failure

theorem Blames.stop_le_length {kind : Kind} {span : Span} (h : Blames text kind span) :
    span.stop ≤ text.length := by
  cases h with
  | stray _ _ hlength hunder =>
      have htake := congrArg List.length hunder
      simp only [Span.under, List.length_take, List.length_drop, String.length_toList, hlength,
        List.length_cons, List.length_nil] at htake
      rw [Span.stop, hlength]
      omega
  | unclosed _ _ _ hstop => exact Nat.le_of_eq hstop
  | malformedName hscan => exact Token.stop_le_length hscan (by simp)
  | duplicateParameter hscan => exact Token.stop_le_length hscan (by simp)
  | trailingInput ht => exact ht.stop_le_length
  | nestingTooDeep ht => exact ht.stop_le_length
  | emptyGenericArgs _ hclosing horder =>
      rw [Span.stop_through horder]
      exact hclosing.stop_le_length
  | unexpectedToken ht => exact ht.stop_le_length
  | unexpectedEnd => exact Nat.le_refl _

end Failure

theorem blames_of_scan {fault : Fault} (h : scan text = .error fault) :
    Blames text fault.cause.kind fault.span := by
  obtain ⟨front, back, ts, htext, hscan, hfault⟩ := exists_scan_of_scan_eq_error h
  have hread : Readable text front.length := by
    refine ⟨ts, ?_⟩
    rwa [htext, List.take_left]
  cases hfault with
  | stray hstray => exact .stray hread hstray rfl (by simp [Span.under, htext])
  | unclosed hunclosed =>
      refine .unclosed hread hunclosed (by simp [Span.under, htext]) ?_
      rw [← String.length_toList, htext, Span.stop_mk, List.length_append]

theorem Failure.exists_blames_of_parse {f : Failure}
    (h : Mapping.parse settings text = .error f) :
    ∃ fault, f = .ofFault text fault ∧ Blames text fault.cause.kind fault.span := by
  rw [Mapping.parse_eq_error_iff] at h
  cases hscan : scan text with
  | error fault =>
      have hf : f = .ofFault text fault := by simpa [Expression.parse, hscan, eq_comm] using h
      exact ⟨fault, hf, blames_of_scan hscan⟩
  | ok ts =>
      obtain ⟨us, rfl, -⟩ := exists_eq_append_eof hscan
      obtain ⟨fault, hstuck, hf⟩ := (Expression.parse_eq_error_iff hscan).1 h
      exact ⟨fault, hf, blames_of_stuck hscan hstuck⟩

/-- A failure belongs to the text that was parsed. Its span lies in that text,
and what stands there is what a failure of its kind may point at. -/
theorem blames_of_parse (settings : Settings) (text : String) {f : Failure}
    (h : Mapping.parse settings text = .error f) :
    f.expression = text ∧ f.span.stop ≤ text.length ∧ Blames text f.kind f.span := by
  obtain ⟨fault, rfl, hblames⟩ := Failure.exists_blames_of_parse h
  exact ⟨rfl, hblames.stop_le_length, hblames⟩

theorem blames_of_parse_brackets :
    Mapping.parse {} "A => B< >" = .error (.ofFault "A => B< >" ⟨.emptyGenerics, ⟨6, 3⟩⟩) ∧
      (⟨6, 3⟩ : Span).stop ≤ "A => B< >".length ∧ Blames "A => B< >" .emptyGenericArgs ⟨6, 3⟩ := by
  have hparse : Mapping.parse {} "A => B< >" =
      .error (.ofFault "A => B< >" ⟨.emptyGenerics, ⟨6, 3⟩⟩) := by
    decide +kernel
  have hblames := blames_of_parse {} "A => B< >" hparse
  exact ⟨hparse, hblames.2⟩

end Typemap

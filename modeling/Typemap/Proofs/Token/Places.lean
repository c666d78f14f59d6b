import Mathlib.Data.List.Basic
import Typemap.Proofs.Token.Tiling

/-!
# Places of tokens

A tiling can be taken apart at any token: the text in front of it, the blanks
before it, its lexeme, and a tiling of the rest. No word goes on with what
stands in front of it, so a word is a run of word characters that could not be
longer on either side.
-/

namespace Typemap

namespace Token

theorem kind_eq_word_of_getLast? {kind : Kind} {lexeme : List Char} (h : IsLexeme kind lexeme)
    {c : Char} (hlast : lexeme.getLast? = some c) (hc : isWordChar c = true) : kind = .word := by
  cases h with
  | sign hsign =>
      cases kind <;> simp [Kind.sign?] at hsign <;> subst hsign <;> simp at hlast <;>
        subst hlast <;> exact absurd hc (by decide)
  | word _ _ => rfl
  | literal hq _ =>
      rw [List.getLast?_concat] at hlast
      obtain rfl := Option.some.inj hlast
      simp [isQuote_eq_false_of_isWordChar hc] at hq

namespace Tiled

variable {offset : Nat} {cs : List Char} {t : Token} {ts front back : List Token}

/-- Only the last token of a tiling is an end mark. -/
theorem kind_ne_eof (h : Tiled offset cs (t :: ts)) (hts : ts ≠ []) : t.kind ≠ .eof := by
  generalize hus : t :: ts = us at h
  induction h with
  | stop =>
      obtain ⟨-, rfl⟩ := List.cons.inj hus
      exact absurd rfl hts
  | blank _ _ ih => exact ih hus
  | token hlexeme _ _ _ =>
      obtain ⟨rfl, -⟩ := List.cons.inj hus
      exact ne_eof_of_isLexeme hlexeme

/-- The first token of a tiling stands behind blanks. -/
theorem exists_blanks (h : Tiled offset cs (t :: ts)) (hkind : t.kind ≠ .eof) :
    ∃ blanks rest, cs = blanks ++ (t.lexeme.toList ++ rest) ∧ (∀ c ∈ blanks, isBlank c = true) ∧
      t.span = ⟨offset + blanks.length, t.lexeme.toList.length⟩ ∧
        IsLexeme t.kind t.lexeme.toList ∧ EndsBefore rest t.kind ∧ Tiled t.span.stop rest ts := by
  generalize hus : t :: ts = us at h
  induction h with
  | stop =>
      obtain ⟨rfl, -⟩ := List.cons.inj hus
      exact absurd rfl hkind
  | blank hc _ ih =>
      obtain ⟨blanks, rest, rfl, hblanks, hspan, hlexeme⟩ := ih hus
      refine ⟨_ :: blanks, rest, rfl, ?_, ?_, hlexeme⟩
      · intro d hd
        rcases List.mem_cons.1 hd with rfl | hd
        · exact hc
        · exact hblanks d hd
      · rw [hspan, List.length_cons, Nat.add_assoc, Nat.add_comm 1]
  | token hlexeme hapart h _ =>
      obtain ⟨rfl, rfl⟩ := List.cons.inj hus
      refine ⟨[], _, ?_, by simp, ?_, ?_, h.endsBefore hapart, h⟩
      · rw [List.nil_append, String.toList_ofList]
      · rw [String.toList_ofList]
        rfl
      · rwa [String.toList_ofList]

/-- A tiling is cut in two in front of a token. A word character in front of the
cut has no word behind it. -/
theorem exists_append (h : Tiled offset cs (front ++ back)) (hback : back ≠ []) :
    ∃ a b, cs = a ++ b ∧ Tiled (offset + a.length) b back ∧
      ∀ c ∈ a.getLast?, isWordChar c = true → EndsBefore b .word := by
  induction front generalizing offset cs with
  | nil => exact ⟨[], cs, rfl, h, by simp⟩
  | cons t front ih =>
      have hkind := h.kind_ne_eof (List.append_ne_nil_of_right_ne_nil front hback)
      obtain ⟨blanks, rest, rfl, -, hspan, hlexeme, hends, htail⟩ := h.exists_blanks hkind
      obtain ⟨a, b, rfl, htiled, hseam⟩ := ih htail
      refine ⟨blanks ++ t.lexeme.toList ++ a, b, by simp, ?_, ?_⟩
      · simpa [hspan, Nat.add_assoc] using htiled
      · intro c hc hword
        cases a with
        | nil =>
            have hlast : t.lexeme.toList.getLast? = some c := by
              have hne := ne_nil_of_isLexeme hlexeme
              rwa [List.append_nil, List.getLast?_append_of_ne_nil _ hne] at hc
            rw [kind_eq_word_of_getLast? hlexeme hlast hword] at hends
            exact hends
        | cons d a =>
            apply hseam c _ hword
            rwa [List.getLast?_append_of_ne_nil _ (List.cons_ne_nil d a)] at hc

end Tiled

variable {text : String} {ts : List Token} {t : Token}

/-- Where a token of a text stands. -/
theorem exists_place (hscan : scan text = .ok ts) (ht : t ∈ ts) (hkind : t.kind ≠ .eof) :
    ∃ front back : List Char, text.toList = front ++ (t.lexeme.toList ++ back) ∧
      t.span = ⟨front.length, t.lexeme.toList.length⟩ ∧ IsLexeme t.kind t.lexeme.toList ∧
        (t.kind = .word → ∀ c ∈ front.getLast?, isWordChar c = false) ∧ EndsBefore back t.kind := by
  obtain ⟨before, after, rfl⟩ := List.append_of_mem ht
  obtain ⟨a, b, htext, htiled, hseam⟩ := (tiled_of_scan hscan).exists_append (List.cons_ne_nil _ _)
  obtain ⟨blanks, rest, rfl, hblanks, hspan, hlexeme, hends, -⟩ := htiled.exists_blanks hkind
  refine ⟨a ++ blanks, rest, by simp [htext], by simp [hspan], hlexeme, ?_, hends⟩
  intro hword c hc
  apply Bool.eq_false_iff.2
  intro hchar
  cases blanks with
  | nil =>
      -- The word would go on with the last character in front of it.
      have hseam' := hseam c (by simpa using hc) hchar
      rw [hword] at hlexeme
      obtain ⟨hne, hall⟩ := isLexeme_word_iff.1 hlexeme
      obtain ⟨d, piece, hpiece⟩ := List.exists_cons_of_ne_nil hne
      rw [hpiece] at hall hseam'
      simp [hseam' d rfl] at hall
  | cons d blanks =>
      rw [List.getLast?_append_of_ne_nil _ (List.cons_ne_nil d blanks)] at hc
      have hblank := hblanks c (List.mem_of_mem_getLast? hc)
      simp [isBlank_eq_false_of_isWordChar hchar] at hblank

theorem standsIn_of_mem (hscan : scan text = .ok ts) (ht : t ∈ ts) (hkind : t.kind ≠ .eof) :
    StandsIn text t := by
  obtain ⟨front, back, htext, hspan, hlexeme, -⟩ := exists_place hscan ht hkind
  refine ⟨⟨ts, hscan, ht⟩, hlexeme, ?_⟩
  rw [Span.under, hspan, htext]
  simp

theorem isRun_of_mem (hscan : scan text = .ok ts) (ht : t ∈ ts) (hword : t.kind = .word) :
    IsRun text t.span := by
  obtain ⟨front, back, htext, hspan, hlexeme, hfront, hback⟩ :=
    exists_place hscan ht (by simp [hword])
  rw [hword] at hlexeme hback
  obtain ⟨hne, hall⟩ := isLexeme_word_iff.1 hlexeme
  exact ⟨front, t.lexeme.toList, back, htext, hspan, hne, hall, hfront hword, hback⟩

theorem eq_eof_of_mem (hscan : scan text = .ok ts) (ht : t ∈ ts) (hkind : t.kind = .eof) :
    t = Token.eof text.length := by
  obtain ⟨us, rfl, hus⟩ := (tiled_of_scan hscan).eq_append_eof
  rcases List.mem_append.1 ht with ht | ht
  · exact absurd hkind (ne_eof_of_isLexeme (hus t ht))
  · rw [List.mem_singleton.1 ht, Nat.zero_add, String.length_toList]

theorem stop_le_length (hscan : scan text = .ok ts) (ht : t ∈ ts) : t.span.stop ≤ text.length := by
  by_cases hkind : t.kind = .eof
  · rw [eq_eof_of_mem hscan ht hkind]
    exact Nat.le_refl _
  · obtain ⟨front, back, htext, hspan, -⟩ := exists_place hscan ht hkind
    rw [← String.length_toList, htext, hspan]
    simp

theorem IsLexeme.eq_of_sign {kind : Kind} {lexeme cs : List Char} (h : IsLexeme kind lexeme)
    (hsign : kind.sign? = some cs) : lexeme = cs := by
  cases h with
  | sign hsign' => exact Option.some.inj (hsign'.symm.trans hsign)
  | word => simp [Kind.sign?] at hsign
  | literal => simp [Kind.sign?] at hsign

theorem StandsIn.lexeme_sign {t : Token} (h : StandsIn text t) {cs : List Char}
    (hsign : t.kind.sign? = some cs) : t.lexeme.toList = cs :=
  h.isLexeme.eq_of_sign hsign

theorem StandsIn.stop_le_length {t : Token} (h : StandsIn text t) :
    t.span.stop ≤ text.length := by
  obtain ⟨ts, hscan, ht⟩ := h.mem
  exact Token.stop_le_length hscan ht

/-- Nothing but blanks stands between neighbours. -/
theorem exists_between {before after : List Token} {t u : Token}
    (hscan : scan text = .ok (before ++ t :: u :: after)) (hu : u.kind ≠ .eof) :
    ∃ front blanks back : List Char,
      text.toList = front ++ (t.lexeme.toList ++ (blanks ++ (u.lexeme.toList ++ back))) ∧
        (∀ c ∈ blanks, isBlank c = true) ∧ t.span.offset = front.length ∧
          u.span.stop = (front ++ t.lexeme.toList ++ blanks ++ u.lexeme.toList).length := by
  obtain ⟨a, b, htext, htiled, -⟩ := (tiled_of_scan hscan).exists_append (List.cons_ne_nil _ _)
  have ht := htiled.kind_ne_eof (List.cons_ne_nil u after)
  obtain ⟨first, rest, rfl, -, htspan, -, -, htail⟩ := htiled.exists_blanks ht
  obtain ⟨blanks, back, rfl, hblanks, huspan, -⟩ := htail.exists_blanks hu
  refine ⟨a ++ first, blanks, back, by simp [htext], hblanks, by simp [htspan], ?_⟩
  rw [huspan, Span.stop_mk, htspan]
  simp [Nat.add_assoc]

theorem dropWhile_isBlank_append {blanks cs : List Char} (hblanks : ∀ c ∈ blanks, isBlank c = true)
    (hcs : ∀ c ∈ cs.head?, isBlank c = false) : (blanks ++ cs).dropWhile isBlank = cs := by
  rw [List.dropWhile_append_of_pos hblanks]
  cases cs with
  | nil => rfl
  | cons c cs => rw [List.dropWhile_cons_of_neg]; simp [hcs c rfl]

theorem isBlank_eq_false_of_isLexeme {kind : Kind} {lexeme : List Char} (h : IsLexeme kind lexeme)
    (rest : List Char) : ∀ c ∈ (lexeme ++ rest).head?, isBlank c = false := by
  intro c hc
  cases h with
  | sign hsign =>
      cases kind <;> simp [Kind.sign?] at hsign <;> subst hsign <;> simp at hc <;> subst hc <;> rfl
  | word hne hall =>
      rw [List.head?_append_of_ne_nil _ hne] at hc
      exact isBlank_eq_false_of_isWordChar (List.all_eq_true.1 hall c (List.mem_of_mem_head? hc))
  | literal hq _ =>
      obtain rfl := Option.some.inj hc
      exact isBlank_eq_false_of_isQuote hq

theorem isBlank_eq_false_of_getLast? {kind : Kind} {lexeme : List Char} (h : IsLexeme kind lexeme) :
    ∀ c ∈ lexeme.getLast?, isBlank c = false := by
  intro c hc
  cases h with
  | sign hsign =>
      cases kind <;> simp [Kind.sign?] at hsign <;> subst hsign <;> simp at hc <;> subst hc <;> rfl
  | word _ hall =>
      exact isBlank_eq_false_of_isWordChar (List.all_eq_true.1 hall c (List.mem_of_getLast? hc))
  | literal hq _ =>
      rw [List.getLast?_concat] at hc
      obtain rfl := Option.some.inj hc
      exact isBlank_eq_false_of_isQuote hq

namespace Tiled

variable {offset : Nat} {blanks cs rest : List Char} {t : Token} {ts : List Token}

/-- Behind blanks a tiling begins with its first lexeme and goes on with the
other tokens. -/
theorem exists_rest (h : Tiled offset (blanks ++ cs) (t :: ts)) (hts : ts ≠ [])
    (hblanks : ∀ c ∈ blanks, isBlank c = true) (hcs : ∀ c ∈ cs.head?, isBlank c = false) :
    ∃ rest, cs = t.lexeme.toList ++ rest ∧ IsLexeme t.kind t.lexeme.toList ∧
      Tiled t.span.stop rest ts := by
  obtain ⟨blanks', rest, htext, hblanks', -, hlexeme, -, htiled⟩ :=
    h.exists_blanks (h.kind_ne_eof hts)
  refine ⟨rest, ?_, hlexeme, htiled⟩
  rw [← dropWhile_isBlank_append hblanks hcs, htext]
  exact dropWhile_isBlank_append hblanks' (isBlank_eq_false_of_isLexeme hlexeme rest)

/-- A text without tokens is blank. -/
theorem isBlank_of_eof {stop : Nat} (h : Tiled offset cs [Token.eof stop]) :
    ∀ c ∈ cs, isBlank c = true := by
  have hnone : cs.filter (!isBlank ·) = [] := h.filter_lexemes.symm
  simpa using hnone

/-- A text with a single token is the lexeme of this token, if it does not begin
or end with a blank. -/
theorem lexeme_eq {stop : Nat} (h : Tiled offset (blanks ++ cs) [t, Token.eof stop])
    (hblanks : ∀ c ∈ blanks, isBlank c = true) (hfirst : ∀ c ∈ cs.head?, isBlank c = false)
    (hlast : ∀ c ∈ cs.getLast?, isBlank c = false) : t.lexeme.toList = cs := by
  obtain ⟨rest, rfl, -, htiled⟩ := h.exists_rest (List.cons_ne_nil _ _) hblanks hfirst
  cases hback : rest.getLast? with
  | none => rw [List.getLast?_eq_none_iff.1 hback, List.append_nil]
  | some c =>
      have hblank := htiled.isBlank_of_eof c (List.mem_of_getLast? hback)
      have hvisible := hlast c (by simp [List.getLast?_append, hback])
      simp [hblank] at hvisible

end Tiled

end Token

end Typemap

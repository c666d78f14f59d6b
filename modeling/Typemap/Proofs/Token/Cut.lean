import Typemap.Token.Tiled

/-!
# What is cut off a text

`isCut_cut` lists what the first piece of a text can be. A piece that is a token
is a lexeme, and it is as long as possible: what follows it cannot belong to it.
Conversely `cut_of_isLexeme` says that a lexeme with such a text behind it is
what the cut finds.
-/

namespace Typemap

theorem ne_backslash_of_isQuote {q : Char} (h : isQuote q = true) : q ≠ '\\' := by
  rcases isQuote_iff.1 h with rfl | rfl <;> decide

namespace Literal

theorem close_append {q : Char} (hq : isQuote q = true) {body : List Char} (h : IsBody q body)
    (rest : List Char) : close q (body ++ q :: rest) = some (body ++ [q], rest) := by
  induction h with
  | nil =>
      rw [List.nil_append, close, if_pos rfl]
      · rfl
      · exact fun _ _ h _ => ne_backslash_of_isQuote hq h
  | plain hquote hshield _ ih =>
      rw [List.cons_append, close, if_neg hquote, ih]
      · rfl
      · exact fun _ _ h _ => hshield h
  | shielded _ ih => simp [close, ih]

theorem isBody_of_close {q : Char} {cs piece rest : List Char}
    (h : close q cs = some (piece, rest)) : ∃ body, IsBody q body ∧ piece = body ++ [q] := by
  induction cs using close.induct q generalizing piece rest with
  | case1 => simp [close] at h
  | case2 c cs ih =>
      rw [close] at h
      obtain ⟨⟨piece', rest'⟩, h', heq⟩ := Option.map_eq_some_iff.1 h
      obtain ⟨rfl, rfl⟩ := Prod.mk.inj heq
      obtain ⟨body, hbody, rfl⟩ := ih h'
      exact ⟨'\\' :: c :: body, .shielded hbody, rfl⟩
  | case3 cs hne =>
      rw [close.eq_3 _ _ _ hne, if_pos rfl] at h
      obtain ⟨rfl, rfl⟩ := Prod.mk.inj (Option.some.inj h)
      exact ⟨[], .nil, rfl⟩
  | case4 c cs hne hc ih =>
      rw [close.eq_3 _ _ _ hne, if_neg hc] at h
      obtain ⟨⟨piece', rest'⟩, h', heq⟩ := Option.map_eq_some_iff.1 h
      obtain ⟨rfl, rfl⟩ := Prod.mk.inj heq
      obtain ⟨body, hbody, rfl⟩ := ih h'
      refine ⟨c :: body, .plain hc ?_ hbody, rfl⟩
      -- A backslash in front of nothing would leave the literal open.
      rintro rfl
      cases cs with
      | nil => simp [close] at h'
      | cons d cs => exact hne d cs rfl rfl

end Literal

namespace Token

theorem mark?_eq_none_of_isWordChar {c : Char} (h : isWordChar c = true) : mark? c = none := by
  unfold mark?
  split <;> first | rfl | exact absurd h (by decide)

theorem ne_equals_of_isWordChar {c : Char} (h : isWordChar c = true) : c ≠ '=' := by
  rintro rfl
  exact absurd h (by decide)

theorem mark?_eq_none_of_isQuote {c : Char} (h : isQuote c = true) : mark? c = none := by
  rcases isQuote_iff.1 h with rfl | rfl <;> rfl

theorem sign?_of_mark? {c : Char} {kind : Kind} (h : mark? c = some kind) :
    kind.sign? = some [c] := by
  unfold mark? at h
  split at h <;> simp at h <;> subst h <;> rfl

theorem ne_nil_of_isLexeme {kind : Kind} {lexeme : List Char} (h : IsLexeme kind lexeme) :
    lexeme ≠ [] := by
  cases h with
  | sign h =>
      rintro rfl
      cases kind <;> simp [Kind.sign?] at h
  | word hne _ => exact hne
  | literal _ _ => exact List.cons_ne_nil _ _

theorem ne_eof_of_isLexeme {kind : Kind} {lexeme : List Char} (h : IsLexeme kind lexeme) :
    kind ≠ .eof := by
  rintro rfl
  cases h with
  | sign h => simp [Kind.sign?] at h

theorem kind_eq_word_of_isWordChar {kind : Kind} {c : Char} {cs : List Char}
    (h : IsLexeme kind (c :: cs)) (hc : isWordChar c = true) : kind = .word := by
  generalize hlexeme : c :: cs = lexeme at h
  cases h with
  | sign h =>
      subst hlexeme
      cases kind <;> simp [Kind.sign?] at h <;> obtain ⟨rfl, -⟩ := h <;>
        exact absurd hc (by decide)
  | word _ _ => rfl
  | literal hq _ =>
      obtain ⟨rfl, -⟩ := List.cons.inj hlexeme
      simp [isQuote_eq_false_of_isWordChar hc] at hq

/-- What follows a token cannot belong to it. -/
def EndsBefore (rest : List Char) : Kind → Prop
  | .word => ∀ c ∈ rest.head?, isWordChar c = false
  | .equals => rest.head? ≠ some '>'
  | _ => True

theorem endsBefore_dropWhile (cs : List Char) : EndsBefore (cs.dropWhile isWordChar) .word := by
  intro c hc
  have h := List.head?_dropWhile_not isWordChar cs
  rw [Option.mem_def.1 hc] at h
  exact h

theorem endsBefore_sign {kind : Kind} (hword : kind ≠ .word) (hequals : kind ≠ .equals)
    (rest : List Char) : EndsBefore rest kind := by
  cases kind <;> trivial

/-- A character that no token goes on with. -/
theorem endsBefore_of_head {c : Char} (hword : isWordChar c = false) (hbracket : c ≠ '>')
    (cs : List Char) (kind : Kind) : EndsBefore (c :: cs) kind := by
  cases kind
  case word =>
    intro d hd
    obtain rfl := Option.some.inj hd
    exact hword
  case equals => exact fun hhead => hbracket (Option.some.inj hhead)
  all_goals trivial

theorem endsBefore_of_isBlank {c : Char} (h : isBlank c = true) (cs : List Char) (kind : Kind) :
    EndsBefore (c :: cs) kind := by
  apply endsBefore_of_head
  · apply Bool.eq_false_iff.2
    intro hword
    simp [isBlank_eq_false_of_isWordChar hword] at h
  · rintro rfl
    exact absurd h (by decide)

theorem EndsBefore.append {kind : Kind} {front back : List Char} (hfront : EndsBefore front kind)
    (hback : EndsBefore back kind) : EndsBefore (front ++ back) kind := by
  cases front with
  | nil => exact hback
  | cons c front => cases kind <;> exact hfront

/-- What a cut can be. -/
inductive IsCut (c : Char) (cs : List Char) : Cut → Prop where
  | blank (hc : isBlank c = true) : IsCut c cs ⟨.blank, [c], cs⟩
  | token {kind : Kind} {piece rest : List Char} (hcs : c :: cs = piece ++ rest)
      (hlexeme : IsLexeme kind piece) (hends : EndsBefore rest kind) :
      IsCut c cs ⟨.token kind, piece, rest⟩
  | stray (hblank : isBlank c = false) (hmark : mark? c = none) (hequals : c ≠ '=')
      (hquote : isQuote c = false) (hword : isWordChar c = false) : IsCut c cs ⟨.stray c, [c], cs⟩
  | unclosed (hquote : isQuote c = true) (hopen : Literal.close c cs = none) :
      IsCut c cs ⟨.unclosed c, c :: cs, []⟩

theorem isCut_cut (c : Char) (cs : List Char) : IsCut c cs (cut c cs) := by
  fun_cases cut c cs with
  | case1 cs hblank => exact .blank hblank
  | case2 cs hblank kind hmark =>
      have hsign := sign?_of_mark? hmark
      refine .token rfl (.sign hsign) (endsBefore_sign ?_ ?_ _)
      · rintro rfl
        simp [Kind.sign?] at hsign
      · rintro rfl
        obtain rfl : '=' = c := by simpa [Kind.sign?] using hsign
        simp [mark?] at hmark
  | case3 hblank hmark hc rest =>
      subst hc
      exact .token rfl (.sign rfl) trivial
  | case4 cs hblank hmark hc hne =>
      subst hc
      refine .token rfl (.sign rfl) ?_
      intro hhead
      cases cs with
      | nil => simp at hhead
      | cons d cs => exact hne cs (by simpa using hhead)
  | case5 cs hblank hmark hc hquote body rest hclose =>
      obtain ⟨inside, hinside, rfl⟩ := Literal.isBody_of_close hclose
      refine .token ?_ (.literal hquote hinside) trivial
      rw [List.cons_append, Literal.append_of_close hclose]
  | case6 cs hblank hmark hc hquote hopen => exact .unclosed hquote hopen
  | case7 cs hblank hmark hc hquote hword =>
      refine .token ?_ (.word (List.cons_ne_nil _ _) ?_) (endsBefore_dropWhile cs)
      · rw [List.cons_append, List.takeWhile_append_dropWhile]
      · rw [List.all_cons, hword, List.all_takeWhile]
        rfl
  | case8 cs hblank hmark hc hquote hword =>
      simp only [Bool.not_eq_true] at hblank hquote hword
      exact .stray hblank hmark hc hquote hword

theorem cut_of_isBlank {c : Char} (h : isBlank c = true) (cs : List Char) :
    cut c cs = ⟨.blank, [c], cs⟩ := by
  unfold cut
  rw [if_pos h]

theorem cut_equals {cs : List Char} (h : cs.head? ≠ some '>') :
    cut '=' cs = ⟨.token .equals, ['='], cs⟩ := by
  cases cs with
  | nil => rfl
  | cons d cs =>
      have hd : d ≠ '>' := fun hd => h (by rw [hd]; rfl)
      simp [cut, isBlank, mark?, hd]

theorem cut_of_isQuote {q : Char} (h : isQuote q = true) {cs piece rest : List Char}
    (hclose : Literal.close q cs = some (piece, rest)) :
    cut q cs = ⟨.token .literal, q :: piece, rest⟩ := by
  have hequals : q ≠ '=' := by rintro rfl; exact absurd h (by decide)
  simp [cut, isBlank_eq_false_of_isQuote h, mark?_eq_none_of_isQuote h, hequals, h, hclose]

theorem cut_of_isWordChar {c : Char} (h : isWordChar c = true) (cs : List Char) :
    cut c cs = ⟨.token .word, c :: cs.takeWhile isWordChar, cs.dropWhile isWordChar⟩ := by
  simp [cut, isBlank_eq_false_of_isWordChar h, mark?_eq_none_of_isWordChar h,
    ne_equals_of_isWordChar h, isQuote_eq_false_of_isWordChar h, h]

theorem takeWhile_eq_nil_of_endsBefore {rest : List Char} (h : EndsBefore rest .word) :
    rest.takeWhile isWordChar = [] := by
  cases rest with
  | nil => rfl
  | cons c cs => rw [List.takeWhile_cons_of_neg]; simp [h c rfl]

theorem dropWhile_eq_self_of_endsBefore {rest : List Char} (h : EndsBefore rest .word) :
    rest.dropWhile isWordChar = rest := by
  cases rest with
  | nil => rfl
  | cons c cs => rw [List.dropWhile_cons_of_neg]; simp [h c rfl]

/-- A lexeme that cannot be longer is what is cut off. -/
theorem cut_of_isLexeme {kind : Kind} {c : Char} {piece rest : List Char}
    (h : IsLexeme kind (c :: piece)) (hends : EndsBefore rest kind) :
    cut c (piece ++ rest) = ⟨.token kind, c :: piece, rest⟩ := by
  generalize hlexeme : c :: piece = lexeme at h
  cases h with
  | sign hsign =>
      subst hlexeme
      cases kind <;> simp [Kind.sign?] at hsign <;> obtain ⟨rfl, rfl⟩ := hsign
      case equals => exact cut_equals hends
      all_goals rfl
  | word _ hall =>
      subst hlexeme
      simp only [List.all_cons, Bool.and_eq_true, List.all_eq_true] at hall
      rw [cut_of_isWordChar hall.1, List.takeWhile_append_of_pos hall.2,
        List.dropWhile_append_of_pos hall.2, takeWhile_eq_nil_of_endsBefore hends,
        dropWhile_eq_self_of_endsBefore hends, List.append_nil]
  | literal hq hbody =>
      rw [List.cons_append] at hlexeme
      obtain ⟨rfl, rfl⟩ := List.cons.inj hlexeme
      apply cut_of_isQuote hq
      rw [List.append_assoc, List.singleton_append]
      exact Literal.close_append hq hbody rest

end Token

end Typemap

import Typemap.Name
import Typemap.Token.Tiled

/-!
# Names are words

Every character that a name rule allows is a word character and no name is
empty. So a name that obeys its rule is the lexeme of a word. Misplaced dots are
empty pieces, so a name is qualified if all of its pieces are segments.
-/

namespace Typemap.Name

theorem isWordChar_of_isInner {c : Char} (h : isInner c = true) : isWordChar c = true := by
  simp only [isInner, Bool.or_eq_true] at h
  rcases h with (h | h) | h <;> simp [isWordChar, h]

theorem isInner_of_isInitial {c : Char} (h : isInitial c = true) : isInner c = true := by
  simp only [isInitial, Bool.or_eq_true] at h
  rcases h with (h | h) | h <;> simp [isInner, Char.isAlphanum, h]

theorem ne_nil_of_isPlain {cs : List Char} (h : isPlain cs = true) : cs ≠ [] := by
  rintro rfl
  simp [isPlain] at h

theorem isInner_of_isPlain {cs : List Char} (h : isPlain cs = true) :
    ∀ c ∈ cs, isInner c = true := by
  intro c hc
  cases cs with
  | nil => simp at hc
  | cons d cs =>
      simp only [isPlain, Bool.and_eq_true, List.all_eq_true] at h
      rcases List.mem_cons.1 hc with rfl | hmem
      · exact isInner_of_isInitial h.1
      · exact h.2 c hmem

theorem all_isWordChar_of_isPlain {cs : List Char} (h : isPlain cs = true) :
    cs.all isWordChar = true :=
  List.all_eq_true.2 fun c hc => isWordChar_of_isInner (isInner_of_isPlain h c hc)

theorem isLexeme_of_isPlain {cs : List Char} (h : isPlain cs = true) : Token.IsLexeme .word cs :=
  .word (ne_nil_of_isPlain h) (all_isWordChar_of_isPlain h)

theorem isLexeme_of_isFormat {cs : List Char} (h : isFormat cs = true) :
    Token.IsLexeme .word cs := by
  cases cs with
  | nil => simp [isFormat] at h
  | cons c cs =>
      simp only [isFormat, Bool.and_eq_true, List.all_eq_true, Bool.or_eq_true, beq_iff_eq] at h
      apply Token.IsLexeme.word (List.cons_ne_nil c cs)
      rw [List.all_cons, Bool.and_eq_true, List.all_eq_true]
      refine ⟨isWordChar_of_isInner h.1, fun d hd => ?_⟩
      rcases h.2 d hd with (hinner | rfl) | rfl
      · exact isWordChar_of_isInner hinner
      · decide
      · decide

theorem all_isWordChar_of_isSegment {piece : List Char} (h : isSegment piece = true) :
    piece.all isWordChar = true := by
  rcases Bool.or_eq_true_iff.1 h with h | h
  · exact all_isWordChar_of_isPlain h
  · rw [eq_of_beq h]
    decide

/-- Besides the characters of its pieces a name only has dots. -/
theorem all_isWordChar_of_pieces {cs : List Char}
    (h : ∀ piece ∈ pieces cs, piece.all isWordChar = true) : cs.all isWordChar = true := by
  induction cs with
  | nil => rfl
  | cons c cs ih =>
      rw [pieces] at h
      split at h
      case isTrue hc =>
        have hcs := ih fun piece hpiece => h piece (List.mem_cons_of_mem _ hpiece)
        rw [List.all_cons, hcs, hc]
        rfl
      case isFalse =>
        split at h
        case h_1 heq =>
          rw [heq] at ih
          have hc := h [c] List.mem_cons_self
          rw [List.all_cons, Bool.and_eq_true] at hc ⊢
          exact ⟨hc.1, ih (by simp)⟩
        case h_2 piece rest heq =>
          rw [heq] at ih
          have hfirst := h (c :: piece) List.mem_cons_self
          rw [List.all_cons, Bool.and_eq_true] at hfirst ⊢
          refine ⟨hfirst.1, ih ?_⟩
          intro piece' hpiece'
          rcases List.mem_cons.1 hpiece' with rfl | hrest
          · exact hfirst.2
          · exact h piece' (List.mem_cons_of_mem _ hrest)

theorem isSegment_of_isQualified {cs : List Char} (h : IsQualified cs) :
    ∀ piece ∈ pieces cs, isSegment piece = true := by
  unfold IsQualified defect? at h
  split at h
  · simp at h
  split at h
  · simp at h
  split at h
  · simp at h
  · simpa using h

theorem isLexeme_of_isQualified {cs : List Char} (h : IsQualified cs) :
    Token.IsLexeme .word cs := by
  have hsegments := isSegment_of_isQualified h
  refine .word ?_ (all_isWordChar_of_pieces fun piece hpiece =>
    all_isWordChar_of_isSegment (hsegments piece hpiece))
  rintro rfl
  exact absurd (hsegments [] List.mem_cons_self) (by decide)

theorem isBlank_eq_false_of_isQualified {cs : List Char} (h : IsQualified cs) :
    ∀ c ∈ cs, isBlank c = false := by
  intro c hc
  have hall := (Token.isLexeme_word_iff.1 (isLexeme_of_isQualified h)).2
  exact isBlank_eq_false_of_isWordChar (List.all_eq_true.1 hall c hc)

/-- The pieces are what the list library cuts at the dots. -/
theorem pieces_eq_splitOn (cs : List Char) : pieces cs = cs.splitOn '.' := by
  induction cs with
  | nil => rw [pieces, List.splitOn_nil]
  | cons c cs ih =>
      rw [pieces, ih, List.splitOn_cons_eq_if_modifyHead]
      by_cases hc : c = '.'
      · simp [hc]
      · obtain ⟨piece, rest, hpieces⟩ :=
          List.exists_cons_of_ne_nil (List.splitOn_ne_nil '.' cs)
        simp [hc, hpieces]

@[simp] theorem intercalate_pieces (cs : List Char) : ['.'].intercalate (pieces cs) = cs := by
  rw [pieces_eq_splitOn, List.intercalate_splitOn]

theorem pieces_ne_nil (cs : List Char) : pieces cs ≠ [] := by
  rw [pieces_eq_splitOn]
  exact List.splitOn_ne_nil '.' cs

/-- A dot cuts a name in two. -/
theorem pieces_append_cons (cs rest : List Char) :
    pieces (cs ++ '.' :: rest) = pieces cs ++ pieces rest := by
  simp only [pieces_eq_splitOn, List.splitOn_append_cons_self]

theorem pieces_of_not_mem {cs : List Char} (h : '.' ∉ cs) : pieces cs = [cs] := by
  rw [pieces_eq_splitOn, List.splitOn_eq_singleton h]

theorem pieces_intercalate {items : List (List Char)} (h : items ≠ []) :
    pieces (['.'].intercalate items) = items.flatMap pieces := by
  induction items with
  | nil => exact absurd rfl h
  | cons item items ih =>
      cases items with
      | nil => simp
      | cons next items =>
          have hrest := ih (List.cons_ne_nil next items)
          simp only [List.flatMap_cons] at hrest ⊢
          rw [← hrest, ← pieces_append_cons]
          simp

theorem hasTwinDots_cons (c : Char) {cs : List Char} (h : hasTwinDots cs = true) :
    hasTwinDots (c :: cs) = true := by
  unfold hasTwinDots
  split
  · rfl
  · rename_i heq
    rwa [← (List.cons.inj heq).2]
  · rename_i heq
    exact absurd heq (List.cons_ne_nil c cs)

theorem exists_append_of_hasTwinDots {cs : List Char} (h : hasTwinDots cs = true) :
    ∃ front back, cs = front ++ '.' :: '.' :: back := by
  fun_induction hasTwinDots cs with
  | case1 back => exact ⟨[], back, rfl⟩
  | case2 c cs _ ih =>
      obtain ⟨front, back, rfl⟩ := ih h
      exact ⟨c :: front, back, rfl⟩
  | case3 => simp at h

theorem hasTwinDots_iff {cs : List Char} : hasTwinDots cs = true ↔ ['.', '.'] <:+: cs := by
  constructor
  · intro h
    obtain ⟨front, back, rfl⟩ := exists_append_of_hasTwinDots h
    exact ⟨front, back, by simp⟩
  · rintro ⟨front, back, rfl⟩
    induction front with
    | nil => rfl
    | cons c front ih => exact hasTwinDots_cons c ih

/-- Where a dot is misplaced, an empty piece is. -/
theorem nil_mem_pieces {cs : List Char}
    (h : cs.head? = some '.' ∨ cs.getLast? = some '.' ∨ hasTwinDots cs = true) :
    [] ∈ pieces cs := by
  rcases h with hhead | hlast | htwin
  · obtain ⟨rest, rfl⟩ := List.head?_eq_some_iff.1 hhead
    rw [← List.nil_append ('.' :: rest), pieces_append_cons]
    exact List.mem_append_left _ List.mem_cons_self
  · obtain ⟨front, rfl⟩ := List.getLast?_eq_some_iff.1 hlast
    rw [pieces_append_cons]
    exact List.mem_append_right _ List.mem_cons_self
  · obtain ⟨front, back, rfl⟩ := exists_append_of_hasTwinDots htwin
    rw [pieces_append_cons, ← List.nil_append ('.' :: back), pieces_append_cons]
    exact List.mem_append_right _ (List.mem_append_left _ List.mem_cons_self)

theorem isQualified_iff {cs : List Char} :
    IsQualified cs ↔ ∀ piece ∈ pieces cs, isSegment piece = true := by
  refine ⟨isSegment_of_isQualified, fun h => ?_⟩
  have hnil : [] ∉ pieces cs := by
    intro hmem
    exact absurd (h [] hmem) (by decide)
  have hdots := mt nil_mem_pieces hnil
  rw [not_or, not_or] at hdots
  rw [IsQualified, defect?, if_neg hdots.1, if_neg hdots.2.1, if_neg hdots.2.2]
  simpa using h

theorem isQualified_append_cons {cs rest : List Char} :
    IsQualified (cs ++ '.' :: rest) ↔ IsQualified cs ∧ IsQualified rest := by
  simp only [isQualified_iff, pieces_append_cons, List.forall_mem_append]

theorem not_mem_of_isSegment {piece : List Char} (h : isSegment piece = true) : '.' ∉ piece := by
  rcases Bool.or_eq_true_iff.1 h with h | h
  · intro hdot
    exact absurd (isInner_of_isPlain h _ hdot) (by decide)
  · rw [eq_of_beq h]
    decide

/-- No plain name holds a placeholder. -/
theorem not_infix_of_isPlain {cs : List Char} (h : isPlain cs = true) :
    ¬ Placeholder.text <:+: cs := by
  intro hpart
  have hbrace : '{' ∈ cs := hpart.subset (by decide)
  exact absurd (isInner_of_isPlain h _ hbrace) (by decide)

end Typemap.Name

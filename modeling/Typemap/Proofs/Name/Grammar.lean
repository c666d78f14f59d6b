import Typemap.Name.Grammar
import Typemap.Proofs.Token.Bare

/-!
# The check of names decides their grammar

A piece of a name passes the check if and only if the pattern of segments matches
all of it. So a name is qualified if and only if it is segments with dots between
neighbours. Of any other name whose dots are in order, the reason names the
leftmost piece that is no segment.
-/

namespace Typemap.Name

/-- A class of word characters is listed among the bare characters. -/
theorem mem_filter_bareCharacters {p : Char → Bool}
    (hword : ∀ {c}, p c = true → isWordChar c = true) {c : Char} :
    c ∈ Literal.bareCharacters.filter p ↔ p c = true := by
  rw [List.mem_filter, Literal.mem_bareCharacters]
  exact and_iff_right_of_imp hword

theorem mem_initialCharacters {c : Char} : c ∈ initialCharacters ↔ isInitial c = true := by
  have hlisting : initialCharacters = Literal.bareCharacters.filter isInitial := by
    decide +kernel
  rw [hlisting, mem_filter_bareCharacters]
  exact fun h => isWordChar_of_isInner (isInner_of_isInitial h)

theorem mem_innerCharacters {c : Char} : c ∈ innerCharacters ↔ isInner c = true := by
  have hlisting : innerCharacters = Literal.bareCharacters.filter isInner := by decide +kernel
  rw [hlisting, mem_filter_bareCharacters]
  exact isWordChar_of_isInner

theorem mem_initialCharacters_iff_mem_inner {c : Char} :
    c ∈ initialCharacters ↔ c ∈ innerCharacters ∧ c ∉ digits := by
  have hlisting : initialCharacters = innerCharacters.filter fun d => !digits.contains d := by
    decide +kernel
  rw [hlisting, List.mem_filter]
  simp

theorem mem_matches_exactly {cs x : List Char} : x ∈ (exactly cs).matches' ↔ x = cs := by
  induction cs generalizing x with
  | nil => exact Language.mem_one x
  | cons c cs ih =>
      rw [exactly] at ih
      rw [exactly, List.map_cons, List.prod_cons, RegularExpression.matches'_mul, Language.mem_mul]
      constructor
      · rintro ⟨_, rfl, rest, hrest, rfl⟩
        rw [ih.1 hrest]
        rfl
      · rintro rfl
        exact ⟨[c], rfl, cs, ih.2 rfl, rfl⟩

theorem mem_matches_segmentPattern {cs : List Char} :
    cs ∈ segmentPattern.matches' ↔
      (∃ c rest, c ∈ initialCharacters ∧ (∀ d ∈ rest, d ∈ innerCharacters) ∧ c :: rest = cs) ∨
        cs = Placeholder.text := by
  rw [segmentPattern, RegularExpression.matches'_add, Language.mem_add, mem_matches_exactly,
    RegularExpression.matches'_mul, Language.mem_mul]
  refine or_congr_left ⟨?_, ?_⟩
  · rintro ⟨_, hfirst, rest, hrest, rfl⟩
    obtain ⟨c, hc, rfl⟩ := Literal.mem_matches_oneOf.1 hfirst
    exact ⟨c, rest, hc, Literal.mem_matches_star_oneOf.1 hrest, rfl⟩
  · rintro ⟨c, rest, hc, hrest, rfl⟩
    exact ⟨[c], Literal.mem_matches_oneOf.2 ⟨c, hc, rfl⟩, rest,
      Literal.mem_matches_star_oneOf.2 hrest, rfl⟩

/-- The check of a piece is the pattern of segments. -/
theorem isSegment_iff_matches {cs : List Char} :
    isSegment cs = true ↔ cs ∈ segmentPattern.matches' := by
  rw [mem_matches_segmentPattern, isSegment, Bool.or_eq_true, beq_iff_eq]
  refine or_congr_left ?_
  cases cs with
  | nil => simp [isPlain]
  | cons c cs => simp [isPlain, mem_initialCharacters, mem_innerCharacters]

theorem segment_iff_matches {cs : List Char} : Segment cs ↔ cs ∈ segmentPattern.matches' := by
  rw [mem_matches_segmentPattern]
  constructor
  · intro h
    cases h with
    | run hne hall hfirst =>
        obtain ⟨c, rest, rfl⟩ := List.exists_cons_of_ne_nil hne
        obtain ⟨hinner, hrest⟩ := List.forall_mem_cons.1 hall
        have hc := mem_initialCharacters_iff_mem_inner.2 ⟨hinner, hfirst c rfl⟩
        exact Or.inl ⟨c, rest, hc, hrest, rfl⟩
    | placeholder => exact Or.inr rfl
  · rintro (⟨c, rest, hc, hrest, rfl⟩ | rfl)
    · obtain ⟨hinner, hdigit⟩ := mem_initialCharacters_iff_mem_inner.1 hc
      refine .run (List.cons_ne_nil c rest) (List.forall_mem_cons.2 ⟨hinner, hrest⟩) ?_
      intro d hd
      obtain rfl := Option.some.inj hd
      exact hdigit
    · exact .placeholder

theorem isSegment_iff {cs : List Char} : isSegment cs = true ↔ Segment cs :=
  isSegment_iff_matches.trans segment_iff_matches.symm

/-- Segments hold no dots, so a name that is joined of segments is cut into them. -/
theorem isQualified_iff_exists_segments {name : List Char} :
    IsQualified name ↔
      ∃ segments, segments ≠ [] ∧ (∀ piece ∈ segments, Segment piece) ∧
        ['.'].intercalate segments = name := by
  simp only [isQualified_iff, isSegment_iff]
  constructor
  · intro h
    exact ⟨pieces name, pieces_ne_nil name, h, intercalate_pieces name⟩
  · rintro ⟨segments, hne, hsegments, rfl⟩
    have hdots : ∀ piece ∈ segments, '.' ∉ piece := fun piece hpiece =>
      not_mem_of_isSegment (isSegment_iff.2 (hsegments piece hpiece))
    rwa [pieces_eq_splitOn, List.splitOn_intercalate '.' hdots hne]

theorem dotsApart_iff {name : List Char} :
    DotsApart name ↔
      ¬ name.head? = some '.' ∧ ¬ name.getLast? = some '.' ∧ ¬ hasTwinDots name = true := by
  have hfirst : ['.'] <+: name ↔ name.head? = some '.' := by
    rw [List.head?_eq_some_iff]
    exact exists_congr fun _ => eq_comm
  have hlast : ['.'] <:+ name ↔ name.getLast? = some '.' := by
    rw [List.getLast?_eq_some_iff]
    exact exists_congr fun _ => eq_comm
  rw [← hfirst, ← hlast, hasTwinDots_iff]
  exact ⟨fun h => ⟨h.first, h.last, h.twins⟩, fun h => ⟨h.1, h.2.1, h.2.2⟩⟩

/-- A piece is blamed only where the dots are in order. -/
theorem defect?_eq_segment_iff {name piece : List Char} :
    defect? name = some (.segment piece) ↔
      DotsApart name ∧ ((pieces name).find? fun piece => !isSegment piece) = some piece := by
  rw [dotsApart_iff, defect?]
  split_ifs with hfirst hlast htwins
  · simp [hfirst]
  · simp [hlast]
  · simp [htwins]
  · simp [hfirst, hlast, htwins]

theorem find?_pieces_eq_some_iff {name piece : List Char} :
    ((pieces name).find? fun piece => !isSegment piece) = some piece ↔
      IsFirstUnfit name piece := by
  rw [List.find?_eq_some_iff_append, pieces_eq_splitOn, IsFirstUnfit]
  simp only [Bool.not_not, Bool.not_eq_true', ← Bool.not_eq_true, isSegment_iff]
  constructor
  · rintro ⟨hpiece, front, back, hcut, hfront⟩
    exact ⟨front, back, hcut, hfront, hpiece⟩
  · rintro ⟨front, back, hcut, hfront, hpiece⟩
    exact ⟨hpiece, front, back, hcut, hfront⟩

/-- No other reason is worded like that of a piece, and its wording tells which
piece it is. -/
theorem reason_eq_reason_segment_iff {name piece : List Char} {d : Defect} :
    d.reason name = Defect.reason name (.segment piece) ↔ d = .segment piece := by
  constructor
  · intro h
    have hhead := congrArg (fun text => text.toList.head?) h
    cases d with
    | leadingDot => simp [Defect.reason] at hhead
    | trailingDot => simp [Defect.reason] at hhead
    | twinDots => simp [Defect.reason] at hhead
    | segment other =>
        have hquoted := (String.append_left_inj _).1 ((String.append_left_inj _).1
          ((String.append_left_inj _).1 h))
        rw [String.ofList_injective ((String.append_right_inj _).1 hquoted)]
  · rintro rfl
    rfl

/-- A name passes the check exactly if it is one segment or more with a dot between
neighbours. It is refused for a bad segment exactly if its dots are in order, and
then the reason names the leftmost piece that is no segment. -/
theorem defect?_decides_grammar (name : List Char) :
    (defect? name = none ↔
        ∃ segments, segments ≠ [] ∧ (∀ piece ∈ segments, Segment piece) ∧
          ['.'].intercalate segments = name) ∧
      ∀ piece, (defect? name).map (Defect.reason name) =
          some ("`" ++ String.ofList piece ++ "` is not a valid segment of type name `" ++
            String.ofList name ++ "`") ↔
        DotsApart name ∧ IsFirstUnfit name piece := by
  refine ⟨isQualified_iff_exists_segments, fun piece => ?_⟩
  rw [← find?_pieces_eq_some_iff, ← defect?_eq_segment_iff, Option.map_eq_some_iff]
  constructor
  · rintro ⟨d, hd, hreason⟩
    rwa [← reason_eq_reason_segment_iff.1 hreason]
  · exact fun h => ⟨.segment piece, h, rfl⟩

example :
    defect? "a.x\x7bpackage-name\x7d.1".toList =
      some (.segment "x\x7bpackage-name\x7d".toList) := by decide

example : defect? "a.b\n".toList = some (.segment "b\n".toList) := by decide

end Typemap.Name

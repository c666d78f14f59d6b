import Mathlib.Data.List.Induction
import Typemap.Diagnostic.Place

/-!
# The line around an offset

Any offset that does not part a carriage return from its line feed cuts a line,
and it does so in one way. The lines of a text are then those above it, that line,
and those below, so the line found by counting line feeds is the one around the
offset.
-/

namespace Typemap

theorem lines_cons {c : Char} {cs : List Char} (hc : c ≠ '\n')
    (hreturn : c = '\r' → cs.head? ≠ some '\n') :
    lines (c :: cs) =
      match lines cs with
      | [] => [[c]]
      | first :: rest => (c :: first) :: rest := by
  apply lines.eq_4
  · exact fun h => hc h
  · rintro rest h rfl
    exact hreturn h rfl

theorem lines_of_not_mem {cs : List Char} (h : '\n' ∉ cs) :
    lines cs = if cs = [] then [] else [cs] := by
  induction cs with
  | nil => rfl
  | cons c cs ih =>
      simp only [List.mem_cons, not_or] at h
      rw [lines_cons (Ne.symm h.1) (fun _ hhead => h.2 (List.mem_of_head? hhead)), ih h.2]
      cases cs <;> simp

theorem lines_ne_nil {cs : List Char} (h : cs ≠ []) : lines cs ≠ [] := by
  cases cs using lines.fun_cases <;> simp_all [lines]

theorem tail_lines_cons {c : Char} {cs : List Char} (hc : c ≠ '\n')
    (hreturn : c = '\r' → cs.head? ≠ some '\n') : (lines (c :: cs)).tail = (lines cs).tail := by
  rw [lines_cons hc hreturn]
  cases lines cs <;> rfl

/-- What is written in front of a line break joins the empty line that the break
would end. -/
theorem lines_append_of_break {line tail : List Char} {more : List (List Char)}
    (hline : '\n' ∉ line) (htail : lines tail = [] :: more)
    (hreturn : line.getLast? = some '\r' → tail.head? ≠ some '\n') :
    lines (line ++ tail) = line :: more := by
  induction line with
  | nil => exact htail
  | cons c cs ih =>
      simp only [List.mem_cons, not_or] at hline
      have hcs : lines (cs ++ tail) = cs :: more := by
        refine ih hline.2 fun hlast => hreturn ?_
        simp [List.getLast?_cons, hlast]
      rw [List.cons_append, lines_cons (Ne.symm hline.1), hcs]
      rintro rfl
      cases cs with
      | nil => exact hreturn rfl
      | cons d ds => simpa [eq_comm] using Ne.symm (List.ne_of_not_mem_cons hline.2)

/-- A line feed ends a line, so behind whole lines the count starts anew. -/
theorem drop_lines {above : List Char} (h : ∀ c ∈ above.getLast?, c = '\n') (ds : List Char) :
    (lines (above ++ ds)).drop (above.count '\n') = lines ds := by
  induction above using lines.induct with
  | case1 => rfl
  | case2 cs ih =>
      have hcs := ih fun c hc => h c (by simp [List.getLast?_cons, Option.mem_def.1 hc])
      simpa [lines] using hcs
  | case3 cs ih =>
      have hcs := ih fun c hc => h c (by simp [List.getLast?_cons, Option.mem_def.1 hc])
      simpa [lines, List.count_cons] using hcs
  | case4 c cs hfeed _ hlines _ =>
      have hcs : cs = [] := by_contra fun hcs => lines_ne_nil hcs hlines
      subst hcs
      exact absurd (h c rfl) hfeed
  | case5 c cs hfeed hreturn first rest hlines ih =>
      obtain ⟨d, cs, rfl⟩ : ∃ d ds, cs = d :: ds := by
        refine List.exists_cons_of_ne_nil ?_
        rintro rfl
        simp [lines] at hlines
      have hlast : ∀ c ∈ (d :: cs).getLast?, c = '\n' := fun c hc => h c (by simpa using hc)
      -- The break is still ahead, so the count is not used up in the first line.
      obtain ⟨n, hn⟩ : ∃ n, (d :: cs).count '\n' = n + 1 := by
        refine Nat.exists_eq_succ_of_ne_zero (Nat.ne_of_gt (List.count_pos_iff.2 ?_))
        rw [← hlast _ (List.getLast?_eq_some_getLast (by simp))]
        exact List.getLast_mem _
      have hcs := ih hlast
      rw [hn, ← List.drop_tail] at hcs
      rw [List.count_cons_of_ne (by simpa using hfeed), hn, ← List.drop_tail, List.cons_append,
        tail_lines_cons hfeed, hcs]
      rintro rfl hd
      exact hreturn cs rfl (by simpa using hd)

variable {text above left right below : List Char} {offset : Nat}

theorem EndsLine.head?_lines {line : List Char} (h : EndsLine line below) (hline : '\n' ∉ line) :
    (lines (line ++ below)).head?.getD [] = line := by
  cases h with
  | stop =>
      rw [List.append_nil, lines_of_not_mem hline]
      split <;> simp_all
  | feed hreturn =>
      rw [lines_append_of_break hline rfl (absurd · hreturn)]
      rfl
  | returnFeed =>
      rw [lines_append_of_break hline rfl (by simp)]
      rfl

namespace IsLineAround

theorem take_eq (h : IsLineAround text offset above left right below) :
    text.take offset = above ++ left := by
  rw [h.text_eq, h.offset_eq, ← List.append_assoc, List.take_left]

theorem drop_eq (h : IsLineAround text offset above left right below) :
    text.drop offset = right ++ below := by
  rw [h.text_eq, h.offset_eq, ← List.append_assoc, List.drop_left]

theorem count_take (h : IsLineAround text offset above left right below) :
    (text.take offset).count '\n' = above.count '\n' := by
  have hleft : '\n' ∉ left := fun hmem => h.inside (List.mem_append_left _ hmem)
  rw [h.take_eq, List.count_append, List.count_eq_zero.2 hleft, Nat.add_zero]

theorem columnOf_eq (h : IsLineAround text offset above left right below) :
    columnOf text offset = left.length := by
  have hleft : ∀ c ∈ left.reverse, (c != '\n') = true := by
    intro c hc
    simp only [bne_iff_ne]
    rintro rfl
    exact h.inside (List.mem_append_left _ (List.mem_reverse.1 hc))
  have habove : above.reverse.takeWhile (· != '\n') = [] := by
    cases hreverse : above.reverse with
    | nil => rfl
    | cons c cs =>
        have hc : c = '\n' := h.above c (by simp [← List.head?_reverse, hreverse])
        simp [hc]
  rw [columnOf, h.take_eq, List.reverse_append, List.takeWhile_append_of_pos hleft, habove,
    List.append_nil, List.length_reverse]

theorem lineAt_eq (h : IsLineAround text offset above left right below) :
    lineAt text offset = left ++ right := by
  rw [lineAt, lineOf, h.count_take, ← List.head?_drop, h.text_eq, drop_lines h.above,
    ← List.append_assoc, h.below.head?_lines h.inside]

/-- An offset cuts a text in one way. -/
theorem unique (h : IsLineAround text offset above left right below)
    {above' left' right' below' : List Char}
    (h' : IsLineAround text offset above' left' right' below') :
    above = above' ∧ left = left' ∧ right = right' ∧ below = below' := by
  have hcolumn : left.length = left'.length := h.columnOf_eq.symm.trans h'.columnOf_eq
  obtain ⟨habove, hleft⟩ := List.append_inj' (h.take_eq.symm.trans h'.take_eq) hcolumn
  obtain ⟨-, hright⟩ := List.append_inj (h.lineAt_eq.symm.trans h'.lineAt_eq) hcolumn
  have hdrop := h.drop_eq.symm.trans h'.drop_eq
  rw [hright] at hdrop
  exact ⟨habove, hleft, hright, List.append_cancel_left hdrop⟩

end IsLineAround

theorem exists_above (cs : List Char) :
    ∃ above left, cs = above ++ left ∧ (∀ c ∈ above.getLast?, c = '\n') ∧ '\n' ∉ left := by
  induction cs using List.reverseRecOn with
  | nil => exact ⟨[], [], rfl, by simp, by simp⟩
  | append_singleton cs c ih =>
      by_cases hc : c = '\n'
      · exact ⟨cs ++ [c], [], by simp, by simp [hc], by simp⟩
      · obtain ⟨above, left, rfl, habove, hleft⟩ := ih
        exact ⟨above, left ++ [c], by simp, habove, by simp [hleft, Ne.symm hc]⟩

/-- A line goes on up to the next break. It may have begun before. -/
theorem exists_below {left cs : List Char}
    (h : cs.head? = some '\n' → left.getLast? ≠ some '\r') :
    ∃ right below, cs = right ++ below ∧ '\n' ∉ right ∧ EndsLine (left ++ right) below := by
  induction cs generalizing left with
  | nil => exact ⟨[], [], rfl, by simp, .stop⟩
  | cons c cs ih =>
      by_cases hfeed : c = '\n'
      · subst hfeed
        exact ⟨[], '\n' :: cs, rfl, by simp, .feed (by simpa using h)⟩
      by_cases hreturn : c = '\r' ∧ cs.head? = some '\n'
      · obtain ⟨rfl, hhead⟩ := hreturn
        obtain ⟨rest, rfl⟩ := List.head?_eq_some_iff.1 hhead
        exact ⟨[], '\r' :: '\n' :: rest, rfl, by simp, .returnFeed⟩
      · have hseam : cs.head? = some '\n' → (left ++ [c]).getLast? ≠ some '\r' := by
          intro hhead
          rw [List.getLast?_concat]
          exact fun hc => hreturn ⟨Option.some.inj hc, hhead⟩
        obtain ⟨right, below, rfl, hright, hbelow⟩ := ih hseam
        exact ⟨c :: right, below, rfl, by simp [hright, Ne.symm hfeed], by simpa using hbelow⟩

/-- An offset cuts a line unless it stands between a carriage return and its line
feed. -/
theorem exists_isLineAround (hoffset : offset ≤ text.length)
    (h : text[offset]? = some '\n' → (text.take offset).getLast? ≠ some '\r') :
    ∃ above left right below, IsLineAround text offset above left right below := by
  obtain ⟨above, left, htake, habove, hleft⟩ := exists_above (text.take offset)
  obtain ⟨right, below, hdrop, hright, hbelow⟩ :
      ∃ right below, text.drop offset = right ++ below ∧ '\n' ∉ right ∧
        EndsLine (left ++ right) below := by
    refine exists_below fun hhead hlast => h (by simpa using hhead) ?_
    simp [htake, hlast]
  refine ⟨above, left, right, below, ?_, ?_, habove, by simp [hleft, hright], hbelow⟩
  · rw [← hdrop, ← List.append_assoc, ← htake, List.take_append_drop]
  · rw [← htake, List.length_take, Nat.min_eq_left hoffset]

end Typemap

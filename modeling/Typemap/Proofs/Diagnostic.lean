import Typemap.Proofs.Failure.Blame
import Typemap.Proofs.Text.Lines

/-!
# Diagnostics show the right place

A failure of the parser never begins on a blank, so its offset cuts a line, and
the row of the source shows that line. The carets below it are as many as the
characters blamed; their margin is narrower than that of the source.
-/

namespace Typemap

open Token Failure

variable {settings : Settings} {text : String} {f : Failure}

theorem Token.StandsIn.shows {t : Token} (h : StandsIn text t) : t.span.Shows text := by
  obtain ⟨c, cs, hlexeme⟩ := List.exists_cons_of_ne_nil (ne_nil_of_isLexeme h.isLexeme)
  refine ⟨⟨c, ?_, ?_⟩, .inr ?_⟩
  · rw [h.under, hlexeme]
    rfl
  · exact isBlank_eq_false_of_isLexeme h.isLexeme [] c (by simp [hlexeme])
  · rw [h.under]
    exact isBlank_eq_false_of_getLast? h.isLexeme

theorem Failure.Blames.shows {kind : Kind} {span : Span} (h : Blames text kind span) :
    span = .point text.length ∨ span.Shows text := by
  cases h with
  | @stray _ c _ hstray _ hunder =>
      refine .inr ⟨⟨c, by rw [hunder]; rfl, hstray.blank⟩, .inr ?_⟩
      simp [hunder, hstray.blank]
  | @unclosed _ q _ _ hunclosed hunder hstop =>
      exact .inr ⟨⟨q, by rw [hunder]; rfl, isBlank_eq_false_of_isQuote hunclosed.quote⟩, .inl hstop⟩
  | malformedName hscan hword =>
      exact .inr (standsIn_of_mem hscan (by simp) (by simp [hword])).shows
  | @duplicateParameter _ _ _ _ t hscan hwords =>
      exact .inr (standsIn_of_mem (t := t) hscan (by simp) (by simp [hwords.2])).shows
  | trailingInput ht => exact .inr ht.shows
  | nestingTooDeep ht => exact .inr ht.shows
  | emptyGenericArgs _ _ _ _ hunder =>
      refine .inr ⟨⟨'<', by rw [hunder]; rfl, by decide⟩, .inr ?_⟩
      rw [hunder, List.getLast?_concat]
      simp [isBlank]
  | unexpectedToken ht => exact .inr ht.shows
  | unexpectedEnd => exact .inl rfl

variable {span : Span} {above left right below : List Char}

theorem Span.getElem?_of_head?_under {c : Char} (h : (span.under text).head? = some c) :
    text.toList[span.offset]? = some c := by
  rw [Span.under, List.head?_take] at h
  split at h
  · cases h
  · rwa [List.head?_drop] at h

theorem exists_line_of_shows (hstop : span.stop ≤ text.length)
    (h : span = .point text.length ∨ span.Shows text) :
    ∃ above left right below, IsLineAround text.toList span.offset above left right below := by
  have hoffset : span.offset ≤ text.toList.length := by
    rw [String.length_toList]
    exact Nat.le_trans (Nat.le_add_right _ _) hstop
  refine exists_isLineAround hoffset fun hfeed => ?_
  rcases h with rfl | h
  · simp [Span.point, ← String.length_toList] at hfeed
  · obtain ⟨c, hc, hblank⟩ := h.first
    rw [Span.getElem?_of_head?_under hc] at hfeed
    obtain rfl := Option.some.inj hfeed
    exact absurd hblank (by decide)

theorem EndsLine.isBlank_of_head? {line : List Char} (h : EndsLine line below) :
    ∀ c ∈ below.head?, isBlank c = true := by
  cases h with
  | stop => simp
  | feed => simp [isBlank]
  | returnFeed => simp [isBlank]

namespace IsLineAround

theorem under_eq (h : IsLineAround text.toList span.offset above left right below) :
    span.under text = (right ++ below).take span.length := by
  rw [Span.under, h.drop_eq]

/-- The line goes on behind the offset with what is blamed. -/
theorem head?_right (h : IsLineAround text.toList span.offset above left right below)
    (hshows : span = .point text.length ∨ span.Shows text) :
    right.head? = (span.under text).head? := by
  rcases hshows with rfl | hshows
  · have hend : right ++ below = [] := by
      rw [← h.drop_eq]
      simp [Span.point, String.length_toList]
    simp [(List.append_eq_nil_iff.1 hend).1, Span.under, Span.point]
  · obtain ⟨c, hc, hblank⟩ := hshows.first
    have hhead : (right ++ below).head? = some c := by
      rw [← h.drop_eq, List.head?_drop, Span.getElem?_of_head?_under hc]
    rw [hc]
    cases right with
    | cons d right => exact hhead
    | nil =>
        -- A line break would be blamed.
        have hbreak := h.below.isBlank_of_head? c hhead
        simp [hblank] at hbreak

/-- What is blamed goes on behind the line only through a line feed. -/
theorem feed_mem_under (h : IsLineAround text.toList span.offset above left right below)
    (hstop : span.stop ≤ text.length) (hshows : span.Shows text)
    (hlt : right.length < span.length) : '\n' ∈ span.under text := by
  obtain ⟨n, hn⟩ := Nat.exists_eq_add_of_lt hlt
  have hunder : span.under text = right ++ below.take (n + 1) := by
    rw [h.under_eq, hn, Nat.add_assoc, List.take_length_add_append]
  have hlength := congrArg List.length h.drop_eq
  rw [List.length_drop, String.length_toList, List.length_append] at hlength
  have hbelow := h.below
  rw [Span.stop] at hstop
  cases hbelow with
  | stop =>
      rw [List.length_nil] at hlength
      omega
  | feed => simp [hunder]
  | returnFeed =>
      cases n with
      | succ n => simp [hunder]
      | zero =>
          -- The carriage return would be the last character blamed, though the text goes on.
          simp only [List.length_cons] at hlength
          rcases hshows.last with hend | hlast
          · rw [Span.stop] at hend
            omega
          · exact absurd (hlast '\r' (by simp [hunder])) (by decide)

theorem length_le_iff (h : IsLineAround text.toList span.offset above left right below)
    (hstop : span.stop ≤ text.length) (hshows : span = .point text.length ∨ span.Shows text) :
    span.length ≤ right.length ↔ '\n' ∉ span.under text := by
  constructor
  · intro hle hmem
    rw [h.under_eq, List.take_append_of_le_length hle] at hmem
    exact h.inside (List.mem_append_right _ (List.mem_of_mem_take hmem))
  · intro hnot
    rcases hshows with rfl | hshows
    · exact Nat.zero_le _
    · exact Nat.le_of_not_lt fun hlt => hnot (h.feed_mem_under hstop hshows hlt)

end IsLineAround

/-- The line that a failure of the parser points at. -/
theorem exists_line_of_parse (h : Mapping.parse settings text = .error f) :
    ∃ above left right below, f.expression = text ∧
      IsLineAround text.toList f.span.offset above left right below ∧
        right.head? = (f.span.under text).head? ∧
          (f.span = .point text.length ∨ f.span.Shows text) ∧
            (f.span.length ≤ right.length ↔ '\n' ∉ f.span.under text) := by
  obtain ⟨fault, rfl, hblames⟩ := exists_blames_of_parse h
  have hstop := hblames.stop_le_length
  have hshows := hblames.shows
  obtain ⟨above, left, right, below, hline⟩ := exists_line_of_shows hstop hshows
  exact ⟨above, left, right, below, rfl, hline, hline.head?_right hshows, hshows,
    hline.length_le_iff hstop hshows⟩

/-- What is drawn of a failure whose offset cuts a line. -/
theorem Failure.exists_render_eq (origin : String) (hexpression : f.expression = text)
    (hline : IsLineAround text.toList f.span.offset above left right below) {line : Nat}
    (hcount : line = (text.toList.take f.span.offset).count '\n' + 1) :
    ∃ help, f.render origin =
      "error[" ++ f.kind.code ++ "]: " ++ f.message ++ "\n" ++
        "  --> " ++ origin ++ ":" ++ toString line ++ ":" ++ toString (left.length + 1) ++ "\n" ++
        "   |\n" ++
        Diagnostic.gutter line ++ " | " ++ String.ofList (left ++ right) ++ "\n" ++
        "   | " ++ Diagnostic.underline left.length f.span.length ++ "\n" ++ help := by
  subst hexpression hcount
  rw [← hline.lineAt_eq, ← hline.columnOf_eq]
  exact ⟨_, rfl⟩

/-- The drawing of a failure of the parser gives the line and the column of its
offset, and it shows this line. The first character blamed stands in this column;
at the end of the text no character does. -/
theorem render_of_parse (settings : Settings) (text origin : String) {f : Failure}
    (h : Mapping.parse settings text = .error f) :
    ∃ line above left right below rest,
      line = (text.toList.take f.span.offset).count '\n' + 1 ∧
        IsLineAround text.toList f.span.offset above left right below ∧
          f.render origin =
            "error[" ++ f.kind.code ++ "]: " ++ f.message ++ "\n" ++
              "  --> " ++ origin ++ ":" ++ toString line ++ ":" ++ toString (left.length + 1) ++
              "\n" ++ "   |\n" ++
              Diagnostic.gutter line ++ " | " ++ String.ofList (left ++ right) ++ "\n" ++ rest ∧
            ((∃ c, (f.span.under text).head? = some c ∧ (left ++ right)[left.length]? = some c) ∨
              (f.span = .point text.length ∧ left.length = (left ++ right).length)) := by
  obtain ⟨above, left, right, below, hexpression, hline, hhead, hshows, -⟩ := exists_line_of_parse h
  obtain ⟨help, hrender⟩ := Failure.exists_render_eq origin hexpression hline rfl
  refine ⟨_, above, left, right, below,
    "   | " ++ Diagnostic.underline left.length f.span.length ++ "\n" ++ help, rfl, hline, ?_, ?_⟩
  · rw [hrender]
    simp only [String.append_assoc]
  rcases hshows with hpoint | hshows
  · have hright : right = [] := by simpa [hpoint, Span.under, Span.point] using hhead
    exact .inr ⟨hpoint, by rw [hright, List.append_nil]⟩
  · obtain ⟨c, hc, -⟩ := hshows.first
    refine .inl ⟨c, hc, ?_⟩
    rw [List.getElem?_append_right (Nat.le_refl _), Nat.sub_self, ← List.head?_eq_getElem?, hhead,
      hc]

/-- A carriage return before a line feed belongs to neither line, and a letter
outside of ASCII takes one column. -/
theorem render_of_parse_unnamed :
    Mapping.parse {} "A @ B(x='é',\r\n  y>)" =
        .error (.ofFault "A @ B(x='é',\r\n  y>)" ⟨.unnamedValue "y", ⟨16, 1⟩⟩) ∧
      IsLineAround "A @ B(x='é',\r\n  y>)".toList 16 "A @ B(x='é',\r\n".toList "  ".toList
        "y>)".toList [] ∧
      (∃ rest, Failure.render "types"
          (.ofFault "A @ B(x='é',\r\n  y>)" ⟨.unnamedValue "y", ⟨16, 1⟩⟩) =
        "error[M0003]: expected `name = value`, found `y`\n  --> types:2:3\n   |\n" ++
          "  2 |   y>)\n" ++ rest) ∧
        "  y>)".toList[2]? = some 'y' := by
  have hparse : Mapping.parse {} "A @ B(x='é',\r\n  y>)" =
      .error (.ofFault "A @ B(x='é',\r\n  y>)" ⟨.unnamedValue "y", ⟨16, 1⟩⟩) := by
    decide +kernel
  have haround : IsLineAround "A @ B(x='é',\r\n  y>)".toList 16 "A @ B(x='é',\r\n".toList
      "  ".toList "y>)".toList [] :=
    ⟨by decide, by decide, fun c hc => (Option.some.inj hc).symm, by decide, .stop⟩
  obtain ⟨line, above, left, right, below, rest, hcount, hline, hrender, hplace⟩ :=
    render_of_parse {} _ "types" hparse
  obtain rfl : line = 2 := hcount.trans (by decide)
  obtain ⟨rfl, rfl, rfl, rfl⟩ := hline.unique haround
  refine ⟨hparse, haround, ⟨rest, hrender⟩, ?_⟩
  have hunder : (Span.under ⟨16, 1⟩ "A @ B(x='é',\r\n  y>)").head? = some 'y' := by decide
  rcases hplace with ⟨c, hc, hat⟩ | ⟨hpoint, -⟩
  · exact hat.trans (hc.symm.trans hunder)
  · exact absurd hpoint (by decide)

namespace Diagnostic

theorem length_gutter (line : Nat) : (gutter line).length = max 3 (toString line).length := by
  simp only [gutter, String.length_append, String.length_ofList, List.length_replicate]
  omega

theorem feed_not_mem_margin (line : Nat) : '\n' ∉ margin line := by
  have hdigits : '\n' ∉ (toString line).toList := by
    intro hmem
    rw [Nat.toString_eq_repr, Nat.toList_repr] at hmem
    exact absurd (Nat.isDigit_of_mem_toDigits (by decide) (by decide) hmem) (by decide)
  simpa [margin, gutter] using hdigits

theorem length_margin (line : Nat) : (margin line).length = 5 + lag line := by
  have hsign : " | ".length = 3 := rfl
  rw [margin, String.length_toList, String.length_append, length_gutter, lag, hsign]
  omega

theorem lag_pos (line : Nat) : 0 < lag line := by
  simp only [lag]
  omega

theorem carets_eq (column length : Nat) :
    carets column length =
      ("   | ".toList ++ List.replicate column ' ') ++ List.replicate (max length 1) '^' := by
  simp only [carets, underline, String.toList_append, String.toList_ofList, List.append_assoc]

theorem length_blanks (column : Nat) :
    ("   | ".toList ++ List.replicate column ' ').length = 5 + column := by
  rw [List.length_append, List.length_replicate]
  rfl

theorem idxOf_carets (column length : Nat) : (carets column length).idxOf '^' = 5 + column := by
  have hblank : '^' ∉ "   | ".toList ++ List.replicate column ' ' := by simp
  obtain ⟨n, hn⟩ : ∃ n, max length 1 = n + 1 := ⟨max length 1 - 1, by omega⟩
  rw [carets_eq, List.idxOf_append_of_notMem hblank, hn, List.replicate_succ, List.idxOf_cons_self,
    Nat.add_zero, length_blanks]

theorem drop_carets (column length : Nat) :
    (carets column length).drop ((carets column length).idxOf '^') =
      List.replicate (max length 1) '^' := by
  rw [idxOf_carets, carets_eq, ← length_blanks column, List.drop_left]

theorem feed_not_mem_carets (column length : Nat) : '\n' ∉ carets column length := by
  simp [carets_eq]

end Diagnostic

open Diagnostic

theorem Failure.stacked_render (origin : String) (hexpression : f.expression = text)
    (hline : IsLineAround text.toList f.span.offset above left right below) {line : Nat}
    (hcount : line = (text.toList.take f.span.offset).count '\n' + 1) :
    Stacked (f.render origin) (margin line ++ (left ++ right))
      (carets left.length f.span.length) := by
  refine ⟨?_, ?_, feed_not_mem_carets _ _⟩
  · obtain ⟨front, help, hrender⟩ : ∃ front help, f.render origin =
        front ++ "   |\n" ++ gutter line ++ " | " ++ String.ofList (left ++ right) ++ "\n" ++
          "   | " ++ underline left.length f.span.length ++ "\n" ++ help := by
      obtain ⟨help, hrender⟩ := exists_render_eq origin hexpression hline hcount
      exact ⟨_, help, hrender⟩
    have hbar : "   |\n" = "   |" ++ "\n" := rfl
    refine ⟨front ++ "   |", help, ?_⟩
    rw [hrender]
    simp only [margin, carets, hbar, String.ofList_append, String.ofList_toList,
      String.append_assoc]
  · rw [List.mem_append, not_or]
    exact ⟨feed_not_mem_margin _, hline.inside⟩

/-- The first caret stands to the left of what it means. There is a caret for
every character blamed, and these lie on the line above unless a line feed is
among them. -/
theorem carets_of_parse (settings : Settings) (text origin : String) {f : Failure}
    (h : Mapping.parse settings text = .error f) :
    ∃ line above left right below source marks,
      line = (text.toList.take f.span.offset).count '\n' + 1 ∧
        IsLineAround text.toList f.span.offset above left right below ∧
          Stacked (f.render origin) source marks ∧
            source = margin line ++ (left ++ right) ∧
              right.head? = (f.span.under text).head? ∧
                (margin line ++ left).length = marks.idxOf '^' + lag line ∧ 0 < lag line ∧
                  marks.drop (marks.idxOf '^') = List.replicate (max f.span.length 1) '^' ∧
                    (f.span.length ≤ right.length ↔ '\n' ∉ f.span.under text) := by
  obtain ⟨above, left, right, below, hexpression, hline, hhead, -, hlength⟩ :=
    exists_line_of_parse h
  refine ⟨_, above, left, right, below, _, _, rfl, hline,
    Failure.stacked_render origin hexpression hline rfl, rfl, hhead, ?_, lag_pos _,
    drop_carets _ _, hlength⟩
  rw [idxOf_carets, List.length_append, length_margin]
  omega

/-- Five characters are blamed, two of them on the line that is shown. -/
theorem carets_of_parse_two_lines :
    Mapping.parse {} "A =>\n'b\nc' d" =
        .error (.ofFault "A =>\n'b\nc' d" ⟨.unexpected .targetType (some "'b\nc'"), ⟨5, 5⟩⟩) ∧
      ∃ marks,
        Stacked (Failure.render "types" (.ofFault "A =>\n'b\nc' d"
            ⟨.unexpected .targetType (some "'b\nc'"), ⟨5, 5⟩⟩)) (margin 2 ++ "'b".toList) marks ∧
          "'b".toList.length < 5 ∧ (margin 2).length = marks.idxOf '^' + 1 ∧
            marks.drop (marks.idxOf '^') = List.replicate 5 '^' := by
  have hparse : Mapping.parse {} "A =>\n'b\nc' d" =
      .error (.ofFault "A =>\n'b\nc' d" ⟨.unexpected .targetType (some "'b\nc'"), ⟨5, 5⟩⟩) := by
    decide +kernel
  have haround : IsLineAround "A =>\n'b\nc' d".toList 5 "A =>\n".toList [] "'b".toList
      "\nc' d".toList :=
    ⟨by decide, by decide, fun c hc => (Option.some.inj hc).symm, by decide, .feed (by decide)⟩
  obtain ⟨line, above, left, right, below, source, marks, hcount, hline, hrows, hsource, -, hfirst,
    -, hcarets, hlength⟩ := carets_of_parse {} _ "types" hparse
  obtain rfl : line = 2 := hcount.trans (by decide)
  obtain ⟨-, rfl, rfl, -⟩ := hline.unique haround
  have hlag : lag 2 = 1 := by decide
  rw [hsource, List.nil_append] at hrows
  rw [hlag, List.append_nil] at hfirst
  exact ⟨hparse, marks, hrows, Nat.lt_of_not_le fun hle => hlength.1 hle (by decide), hfirst,
    hcarets⟩

theorem caret_beside_name :
    Mapping.parse {} "Foo @ io.foo.Ann(name=1,name=2)" =
        .error (.ofFault "Foo @ io.foo.Ann(name=1,name=2)"
          ⟨.duplicateParameter "name", ⟨24, 4⟩⟩) ∧
      ∃ source marks,
        Stacked (Failure.render "mapping.yaml" (.ofFault "Foo @ io.foo.Ann(name=1,name=2)"
            ⟨.duplicateParameter "name", ⟨24, 4⟩⟩)) source marks ∧
          source = margin 1 ++ "Foo @ io.foo.Ann(name=1,name=2)".toList ∧
            (margin 1).length + 24 = 30 ∧ marks.idxOf '^' = 29 := by
  refine ⟨by decide +kernel, "  1 | Foo @ io.foo.Ann(name=1,name=2)".toList,
    "   |                         ^^^^".toList, ⟨⟨?_, "", ?_⟩, by decide, by decide⟩,
    by decide +kernel, by decide, by decide⟩
  · exact "error[M0005]: annotation parameter `name` given more than once\n" ++
      "  --> mapping.yaml:1:25\n   |"
  · decide +kernel

end Typemap

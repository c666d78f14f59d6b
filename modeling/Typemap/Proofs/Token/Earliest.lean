import Mathlib.Data.List.Basic
import Typemap.Proofs.Token.Faults

/-!
# Lexical faults come early

A scan fails where it has to: the text in front of the fault can be scanned, and
a stray character spoils every text that goes on with it. A literal that is not
closed could still be: one more quote closes it, or two where a backslash at the
end of the text shields the first of them.
-/

namespace Typemap

namespace Literal

theorem close_eq_none_of_isUnclosed {q : Char} {cs : List Char} (h : Token.IsUnclosed q cs) :
    close q cs = none := by
  cases hclose : close q cs with
  | none => rfl
  | some parts =>
      obtain ⟨piece, rest⟩ := parts
      obtain ⟨body, hbody, rfl⟩ := isBody_of_close hclose
      apply absurd _ (h.unclosed body rest hbody)
      rw [← append_of_close hclose, List.append_assoc, List.singleton_append]

/-- What is not closed is the inside of a literal, but for a last backslash that
has nothing to shield. -/
theorem isBody_or_of_close {q : Char} {cs : List Char} (h : close q cs = none) :
    IsBody q cs ∨ ∃ body, IsBody q body ∧ cs = body ++ ['\\'] := by
  induction cs using close.induct q with
  | case1 => exact .inl .nil
  | case2 c cs ih =>
      rw [close, Option.map_eq_none_iff] at h
      rcases ih h with hbody | ⟨body, hbody, rfl⟩
      · exact .inl (.shielded hbody)
      · exact .inr ⟨'\\' :: c :: body, .shielded hbody, rfl⟩
  | case3 cs hne =>
      rw [close.eq_3 _ _ _ hne, if_pos rfl] at h
      simp at h
  | case4 c cs hne hc ih =>
      rw [close.eq_3 _ _ _ hne, if_neg hc, Option.map_eq_none_iff] at h
      by_cases hshield : c = '\\'
      · subst hshield
        cases cs with
        | nil => exact .inr ⟨[], .nil, rfl⟩
        | cons d cs => exact absurd rfl (hne d cs rfl)
      · rcases ih h with hbody | ⟨body, hbody, rfl⟩
        · exact .inl (.plain hc hshield hbody)
        · exact .inr ⟨c :: body, .plain hc hshield hbody, rfl⟩

theorem IsBody.append {q : Char} {front back : List Char} (hfront : IsBody q front)
    (hback : IsBody q back) : IsBody q (front ++ back) := by
  induction hfront with
  | nil => exact hback
  | plain hquote hshield _ ih => exact .plain hquote hshield ih
  | shielded _ ih => exact .shielded ih

end Literal

namespace Token

variable {text : String} {front : List Char} {us : List Token} {q c : Char}

theorem endsBefore_of_isStray (h : IsStray c) (cs : List Char) (kind : Kind) :
    EndsBefore (c :: cs) kind := by
  apply endsBefore_of_head h.word
  rintro rfl
  exact h.sign (by simp)

theorem endsBefore_of_isQuote (h : isQuote q = true) (cs : List Char) (kind : Kind) :
    EndsBefore (q :: cs) kind := by
  apply endsBefore_of_head
  · rcases isQuote_iff.1 h with rfl | rfl <;> rfl
  · rintro rfl
    exact absurd h (by decide)

theorem cut_of_isStray (h : IsStray c) (cs : List Char) : cut c cs = ⟨.stray c, [c], cs⟩ := by
  have hsign := h.sign
  simp only [List.mem_cons, List.not_mem_nil, or_false, not_or] at hsign
  have hmark : mark? c = none := by
    unfold mark?
    split <;> simp_all
  simp [cut, h.blank, h.quote, h.word, hmark, hsign]

/-- A text that goes on with a stray character fails at it. -/
theorem scan_of_isStray (h : IsStray c) (htiled : Tiled 0 front (us ++ [Token.eof front.length]))
    {cs : List Char} (htext : text.toList = front ++ c :: cs) :
    scan text = .error ⟨.strayCharacter c, ⟨front.length, 1⟩⟩ := by
  rw [← Nat.zero_add front.length] at htiled
  have htiles := htiled.tiles_append (endsBefore_of_isStray h cs)
  rw [Nat.zero_add, tiles, cut_of_isStray h] at htiles
  rw [scan_eq_error_iff_gather, htext, htiles, gather_append]
  exact ⟨_, _, rfl⟩

/-- A text that goes on with a literal can be scanned. -/
theorem exists_scan_of_isBody (hq : isQuote q = true)
    (htiled : Tiled 0 front (us ++ [Token.eof front.length])) {body : List Char}
    (hbody : Literal.IsBody q body) (htext : text.toList = front ++ (q :: body ++ [q])) :
    ∃ ts, scan text = .ok ts := by
  rw [← Nat.zero_add front.length] at htiled
  have hliteral : Tiled (0 + front.length) (q :: body ++ [q] ++ []) _ :=
    .token (.literal hq hbody) trivial .stop
  rw [List.append_nil] at hliteral
  have hboth := htiled.append (endsBefore_of_isQuote hq (body ++ [q])) hliteral
  exact ⟨_, scan_eq_ok_of_tiled (htext ▸ hboth)⟩

/-- A scan fails at the first possible place. In front of it the text has tokens.
At it stands a stray character, behind which nothing can be scanned, whatever
follows; or a quote that nothing closes, and one quote behind the text closes
it, or two of them if a backslash at the end shields the first. -/
theorem scan_eq_error_earliest (text : String) (fault : Fault) (h : scan text = .error fault) :
    (∃ ts, scan (String.ofList (text.toList.take fault.span.offset)) = .ok ts) ∧
      ((∃ c, text.toList[fault.span.offset]? = some c ∧ IsStray c ∧
          fault.cause = .strayCharacter c ∧ fault.span.length = 1 ∧
            ∀ other : String, other.toList.take (fault.span.offset + 1) =
                text.toList.take (fault.span.offset + 1) → scan other = .error fault) ∨
        ∃ q inside, text.toList.drop fault.span.offset = q :: inside ∧ isQuote q = true ∧
          fault.cause = .unclosedLiteral q ∧ fault.span.stop = text.length ∧
            ((Literal.IsBody q inside ∧ ∃ ts, scan (text ++ String.ofList [q]) = .ok ts) ∨
              ∃ body, Literal.IsBody q body ∧ inside = body ++ ['\\'] ∧
                ∃ ts, scan (text ++ String.ofList [q, q]) = .ok ts)) := by
  obtain ⟨found, ahead, hgather⟩ := scan_eq_error_iff_gather.1 h
  obtain ⟨front, back, htext, htiled, hfault, -⟩ := exists_tiled_of_gather 0 text.toList hgather
  rw [Nat.zero_add] at htiled hfault
  have hoffset : fault.span.offset = front.length := by cases hfault <;> rfl
  rw [hoffset]
  refine ⟨⟨found ++ [Token.eof front.length], scan_eq_ok_of_tiled ?_⟩, ?_⟩
  · rwa [String.toList_ofList, htext, List.take_left]
  cases hfault with
  | @stray c cs hstray =>
      left
      refine ⟨c, by simp [htext], hstray, rfl, rfl, fun other hother => ?_⟩
      have hfront : other.toList.take (front.length + 1) = front ++ [c] := by
        rw [hother, htext, List.take_length_add_append]
        rfl
      apply scan_of_isStray hstray htiled
      calc
        other.toList =
            other.toList.take (front.length + 1) ++ other.toList.drop (front.length + 1) :=
          (List.take_append_drop _ _).symm
        _ = front ++ c :: other.toList.drop (front.length + 1) := by
          rw [hfront, List.append_assoc, List.singleton_append]
  | @unclosed q inside hunclosed =>
      right
      have hstop : front.length + (q :: inside).length = text.length := by
        rw [← String.length_toList, htext, List.length_append]
      refine ⟨q, inside, by simp [htext], hunclosed.quote, rfl, hstop, ?_⟩
      rcases Literal.isBody_or_of_close (Literal.close_eq_none_of_isUnclosed hunclosed) with
        hbody | ⟨body, hbody, rfl⟩
      · refine .inl ⟨hbody, exists_scan_of_isBody hunclosed.quote htiled hbody ?_⟩
        rw [String.toList_append, htext, String.toList_ofList, List.append_assoc]
      · have hshielded : Literal.IsBody q (body ++ ['\\', q]) := hbody.append (.shielded .nil)
        refine .inr ⟨body, hbody, rfl, exists_scan_of_isBody hunclosed.quote htiled hshielded ?_⟩
        simp [htext]

/-- Behind `a=` a hash is refused in any text, and a literal that ends with a
backslash needs two more quotes. -/
theorem scan_eq_error_earliest_shield :
    scan "a=#, b" = .error ⟨.strayCharacter '#', ⟨2, 1⟩⟩ ∧
      scan "a=#\"" = .error ⟨.strayCharacter '#', ⟨2, 1⟩⟩ ∧
        scan "a=\"\\" = .error ⟨.unclosedLiteral '"', ⟨2, 2⟩⟩ ∧
          ∃ ts, scan "a=\"\\\"\"" = .ok ts := by
  have hstray : scan "a=#, b" = .error ⟨.strayCharacter '#', ⟨2, 1⟩⟩ := by decide +kernel
  have hopen : scan "a=\"\\" = .error ⟨.unclosedLiteral '"', ⟨2, 2⟩⟩ := by decide +kernel
  refine ⟨hstray, ?_, hopen, ?_⟩
  · obtain ⟨-, ⟨c, -, -, -, -, hother⟩ | ⟨q, _, -, -, hcause, -⟩⟩ :=
      scan_eq_error_earliest _ _ hstray
    · exact hother _ (by decide)
    · simp at hcause
  · obtain ⟨-, ⟨c, -, -, hcause, -⟩ | ⟨q, inside, hinside, -, -, -, hclosed⟩⟩ :=
      scan_eq_error_earliest _ _ hopen
    · simp at hcause
    · obtain ⟨rfl, rfl⟩ : '"' = q ∧ ['\\'] = inside := by simpa using hinside
      rcases hclosed with ⟨hbody, -⟩ | ⟨body, -, -, hscan⟩
      · cases hbody with
        | plain _ hshield _ => exact absurd rfl hshield
      · exact hscan

end Token

end Typemap

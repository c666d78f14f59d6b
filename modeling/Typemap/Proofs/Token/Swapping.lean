import Typemap.Mapping.Rewriting
import Typemap.Proofs.Token.Faults
import Typemap.Proofs.Token.Padding
import Typemap.Proofs.Token.Places
import Typemap.Proofs.Token.Spelling

/-!
# A value in place of another one

A value stands between two signs, so no token around it goes on with it. When
the text under it is replaced by another word or literal, the tokens in front of
it stay, and those behind it move by the difference of the lengths.
-/

namespace Typemap

namespace Token

/-- The signs around a value. -/
def Kind.Borders (kind : Kind) : Prop :=
  kind = .equals ∨ kind = .lparen ∨ kind = .comma ∨ kind = .rparen

theorem Kind.Borders.exists_sign {kind : Kind} (h : kind.Borders) :
    ∃ c, kind.sign? = some [c] ∧ isWordChar c = false ∧ c ≠ '>' := by
  rcases h with rfl | rfl | rfl | rfl
  · exact ⟨'=', rfl, rfl, by decide⟩
  · exact ⟨'(', rfl, rfl, by decide⟩
  · exact ⟨',', rfl, rfl, by decide⟩
  · exact ⟨')', rfl, rfl, by decide⟩

/-- Two lists of tokens that differ in a single token between two signs. -/
inductive Swapped (t u : Token) : List Token → List Token → Prop where
  | mk {front back : List Token} {sign next : Token} (hsign : sign.kind.Borders)
      (hnext : next.kind.Borders) :
      Swapped t u (front ++ sign :: t :: next :: back) (front ++ sign :: u :: next :: back)

theorem Swapped.append {t u : Token} {us vs : List Token} (h : Swapped t u us vs)
    (front back : List Token) : Swapped t u (front ++ us ++ back) (front ++ vs ++ back) := by
  cases h with
  | @mk front' back' sign next hsign hnext =>
      have hswapped : Swapped t u (front ++ front' ++ sign :: t :: next :: (back' ++ back)) _ :=
        .mk hsign hnext
      simpa using hswapped

theorem Swapped.mem {t u : Token} {us vs : List Token} (h : Swapped t u us vs) : t ∈ us := by
  cases h with
  | mk => simp

theorem Kind.Borders.ne_eof {kind : Kind} (h : kind.Borders) : kind ≠ .eof := by
  rcases h with rfl | rfl | rfl | rfl <;> simp

theorem endsBefore_of_blanks {blanks : List Char} (hblanks : ∀ c ∈ blanks, isBlank c = true)
    {rest : List Char} {kind : Kind} (hrest : EndsBefore rest kind) :
    EndsBefore (blanks ++ rest) kind := by
  cases blanks with
  | nil => exact hrest
  | cons c blanks => exact endsBefore_of_isBlank (hblanks c List.mem_cons_self) _ kind

/-- A sign between values ends in front of a lexeme that is no bracket. -/
theorem Kind.Borders.endsBefore {kind other : Kind} (h : kind.Borders) {lexeme : List Char}
    (hlexeme : IsLexeme other lexeme) (hother : other ≠ .rangle) (rest : List Char) :
    EndsBefore (lexeme ++ rest) kind := by
  rcases h with rfl | rfl | rfl | rfl
  · exact endsBefore_equals_of_isLexeme hlexeme hother rest
  · trivial
  · trivial
  · trivial

theorem moved_eq_self {place : Nat → Nat} {t : Token} (h : place t.span.offset = t.span.offset) :
    t.moved place = t := by
  obtain ⟨kind, lexeme, offset, length⟩ := t
  simp only [moved, Span.moved, h]

namespace Tiled

variable {offset : Nat} {cs rest blanks : List Char} {t : Token} {ts front back : List Token}

/-- The converse of `exists_blanks`. -/
theorem of_blanks (hblanks : ∀ c ∈ blanks, isBlank c = true)
    (hspan : t.span = ⟨offset + blanks.length, t.lexeme.toList.length⟩)
    (hlexeme : IsLexeme t.kind t.lexeme.toList) (hends : EndsBefore rest t.kind)
    (h : Tiled t.span.stop rest ts) :
    Tiled offset (blanks ++ (t.lexeme.toList ++ rest)) (t :: ts) := by
  obtain ⟨kind, lexeme, span⟩ := t
  obtain rfl : span = ⟨offset + blanks.length, lexeme.toList.length⟩ := hspan
  apply blanks_append hblanks
  have htiled := Tiled.token hlexeme (h.apart hends) h
  rwa [String.ofList_toList] at htiled

/-- Tokens that begin with a sign between values go on with nothing in front. -/
theorem endsBefore_of_borders (h : Tiled offset cs (t :: ts)) (ht : t.kind.Borders) (kind : Kind) :
    EndsBefore cs kind := by
  obtain ⟨c, hsign, hword, hbracket⟩ := ht.exists_sign
  obtain ⟨blanks, rest, rfl, hblanks, -, hlexeme, -⟩ := h.exists_blanks ht.ne_eof
  rw [hlexeme.eq_of_sign hsign]
  exact endsBefore_of_blanks hblanks (endsBefore_of_head hword hbracket rest kind)

/-- A tiling is cut in two tilings in front of a token. -/
theorem exists_split (h : Tiled offset cs (front ++ back)) (hback : back ≠ []) :
    ∃ a b, cs = a ++ b ∧ Tiled offset a (front ++ [Token.eof (offset + a.length)]) ∧
      Tiled (offset + a.length) b back := by
  induction front generalizing offset cs with
  | nil => exact ⟨[], cs, rfl, .stop, h⟩
  | cons t front ih =>
      have hkind := h.kind_ne_eof (List.append_ne_nil_of_right_ne_nil front hback)
      obtain ⟨blanks, rest, rfl, hblanks, hspan, hlexeme, hends, htail⟩ := h.exists_blanks hkind
      obtain ⟨a, b, rfl, hfront, htiled⟩ := ih htail
      have hstop : t.span.stop + a.length =
          offset + (blanks ++ (t.lexeme.toList ++ a)).length := by
        simp [hspan, Nat.add_assoc]
      rw [hstop] at htiled
      refine ⟨blanks ++ (t.lexeme.toList ++ a), b, by simp, ?_, htiled⟩
      rw [← hstop]
      exact of_blanks hblanks hspan hlexeme hends.of_append hfront

/-- The same text at another place. -/
theorem moved (h : Tiled offset cs ts) {place : Nat → Nat} {offset' : Nat}
    (hplace : ∀ n, place (offset + n) = offset' + n) :
    Tiled offset' cs (ts.map (·.moved place)) := by
  induction h generalizing offset' with
  | @stop offset =>
      have hmoved : (Token.eof offset).moved place = Token.eof offset' := by
        rw [Token.eof, Token.moved, Span.moved, Span.point, ← Nat.add_zero offset, hplace]
        rfl
      rw [List.map_singleton, hmoved]
      exact .stop
  | @blank offset c cs ts hc _ ih =>
      apply Tiled.blank hc
      apply ih
      intro n
      rw [Nat.add_assoc, hplace, Nat.add_assoc]
  | @token offset kind lexeme rest ts hlexeme hapart h ih =>
      have htail : Tiled (offset' + lexeme.length) rest (ts.map (·.moved place)) := by
        apply ih
        intro n
        rw [Nat.add_assoc, hplace, Nat.add_assoc]
      have htiled := Tiled.token hlexeme (htail.apart (h.endsBefore hapart)) htail
      have hoffset : place offset = offset' := hplace 0
      rwa [← hoffset] at htiled ⊢

/-- What replaces a token does not move the tokens in front of it. -/
theorem map_moved_place (h : Tiled offset cs (front ++ t :: ts)) (length : Nat) :
    front.map (·.moved (t.span.place length)) = front := by
  have hpairs := (List.pairwise_append.1 h.pairwise).2.2
  refine (List.map_congr_left fun x hx => ?_).trans front.map_id
  obtain ⟨hpos, hstop⟩ := hpairs x hx t List.mem_cons_self
  exact moved_eq_self (Span.place_of_le (Nat.le_of_lt (Nat.lt_of_lt_of_le hpos hstop)) length)

/-- The token between two signs is replaced, and what is behind it moves by the
difference of the lengths. -/
theorem exists_swapped {sign next u : Token} (hsign : sign.kind.Borders) (hnext : next.kind.Borders)
    (h : Tiled offset cs (sign :: t :: next :: ts))
    (hspan : u.span = ⟨t.span.offset, u.lexeme.length⟩)
    (hlexeme : IsLexeme u.kind u.lexeme.toList) (hkind : u.kind ≠ .rangle) :
    ∃ a b, cs = a ++ (t.lexeme.toList ++ b) ∧
      t.span = ⟨offset + a.length, t.lexeme.toList.length⟩ ∧
        Tiled offset (a ++ (u.lexeme.toList ++ b))
          (sign :: u :: (next :: ts).map (·.moved (t.span.place u.lexeme.length))) := by
  obtain ⟨blanks, rest, rfl, hblanks, hsignSpan, hsignLexeme, -, hrest⟩ :=
    h.exists_blanks hsign.ne_eof
  obtain ⟨gap, behind, rfl, hgap, htspan, htlexeme, -, hbehind⟩ :=
    hrest.exists_blanks (hrest.kind_ne_eof (List.cons_ne_nil _ _))
  have htpos : 0 < t.span.length := by
    rw [htspan]
    exact List.length_pos_iff.2 (ne_nil_of_isLexeme htlexeme)
  have htail := hbehind.moved (Span.place_stop_add htpos u.lexeme.length)
  have hvalue : Tiled sign.span.stop (gap ++ (u.lexeme.toList ++ behind))
      (u :: (next :: ts).map (·.moved (t.span.place u.lexeme.length))) := by
    refine .of_blanks hgap ?_ hlexeme (htail.endsBefore_of_borders hnext _) ?_
    · simp [hspan, htspan, String.length_toList]
    · rwa [hspan, Span.stop_mk]
  have hvalues := Tiled.of_blanks hblanks hsignSpan hsignLexeme
    (endsBefore_of_blanks hgap (hsign.endsBefore hlexeme hkind behind)) hvalue
  refine ⟨blanks ++ (sign.lexeme.toList ++ gap), behind, by simp, ?_, by simpa using hvalues⟩
  simp [htspan, hsignSpan, Nat.add_assoc]

end Tiled

variable {text : String} {t u mark : Token} {us vs : List Token}

/-- The tokens of a text in which one value has been replaced. -/
theorem Swapped.scan_replace (h : Swapped t u us vs) (hscan : scan text = .ok (us ++ [mark]))
    (hspan : u.span = ⟨t.span.offset, u.lexeme.length⟩)
    (hlexeme : IsLexeme u.kind u.lexeme.toList) (hkind : u.kind ≠ .rangle) :
    scan (t.span.replace u.lexeme text) =
      .ok ((vs ++ [mark]).map (·.moved (t.span.place u.lexeme.length))) := by
  cases h with
  | @mk front back sign next hsign hnext =>
      have htiled := tiled_of_scan hscan
      have hfrontMoved : (front ++ [sign]).map (·.moved (t.span.place u.lexeme.length)) =
          front ++ [sign] :=
        Tiled.map_moved_place (by simpa using htiled) _
      rw [List.append_assoc, List.cons_append, List.cons_append, List.cons_append] at htiled
      obtain ⟨before, rest, htext, hfront, hrest⟩ := htiled.exists_split (List.cons_ne_nil _ _)
      obtain ⟨a, b, rfl, htspan, hswapped⟩ :=
        hrest.exists_swapped hsign hnext hspan hlexeme hkind
      have hreplaced : (t.span.replace u.lexeme text).toList =
          before ++ a ++ (u.lexeme.toList ++ b) := by
        apply Span.toList_replace
        · rw [htext, List.append_assoc]
        · rw [htspan, List.length_append, Nat.zero_add]
      have humoved : u.moved (t.span.place u.lexeme.length) = u := by
        have hoffset : u.span.offset = t.span.offset := by rw [hspan]
        exact moved_eq_self (Span.place_of_le (Nat.le_of_eq hoffset) _)
      have hmoved : (front ++ sign :: u :: next :: back ++ [mark]).map
            (·.moved (t.span.place u.lexeme.length)) =
          front ++ sign :: u :: (next :: (back ++ [mark])).map
            (·.moved (t.span.place u.lexeme.length)) := by
        have hsplit : front ++ sign :: u :: next :: back ++ [mark] =
            (front ++ [sign]) ++ u :: next :: (back ++ [mark]) := by simp
        rw [hsplit, List.map_append, hfrontMoved, List.map_cons, humoved, List.append_assoc]
        rfl
      apply scan_eq_ok_of_tiled
      rw [hreplaced, hmoved, List.append_assoc]
      exact hfront.append (hswapped.endsBefore_of_borders hsign) hswapped

end Token

end Typemap

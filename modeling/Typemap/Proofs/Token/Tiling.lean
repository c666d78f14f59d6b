import Typemap.Proofs.Token.Cut

/-!
# The scan finds the tiling

In a tiling every token stands apart from the next one, so none of them could
have been longer, and each is what is cut off at its place. By induction over
the text the gathered tokens tile it, and the tokens of any tiling are those
that are gathered.
-/

namespace Typemap

namespace Token

theorem tiles_of_isBlank {c : Char} (h : isBlank c = true) (offset : Nat) (cs : List Char) :
    tiles offset (c :: cs) = tiles (offset + 1) cs := by
  rw [tiles, cut_of_isBlank h]
  rfl

theorem tiles_of_cut {c : Char} {cs piece rest : List Char} {kind : Kind}
    (h : cut c cs = ⟨.token kind, piece, rest⟩) (offset : Nat) :
    tiles offset (c :: cs) =
      .token ⟨kind, String.ofList piece, ⟨offset, piece.length⟩⟩ ::
        tiles (offset + piece.length) rest := by
  rw [tiles, h]
  rfl

theorem tiles_of_isLexeme {kind : Kind} {lexeme rest : List Char} (h : IsLexeme kind lexeme)
    (hends : EndsBefore rest kind) (offset : Nat) :
    tiles offset (lexeme ++ rest) =
      .token ⟨kind, String.ofList lexeme, ⟨offset, lexeme.length⟩⟩ ::
        tiles (offset + lexeme.length) rest := by
  cases lexeme with
  | nil => exact absurd rfl (ne_nil_of_isLexeme h)
  | cons c piece => exact tiles_of_cut (cut_of_isLexeme h hends) offset

namespace Tiled

variable {offset : Nat} {cs : List Char} {ts : List Token}

theorem le_offset (h : Tiled offset cs ts) : ∀ t ∈ ts, offset ≤ t.span.offset := by
  induction h with
  | stop =>
      intro t ht
      obtain rfl := List.mem_singleton.1 ht
      exact Nat.le_refl _
  | blank _ _ ih => exact fun t ht => Nat.le_of_succ_le (ih t ht)
  | token _ _ _ ih =>
      intro t ht
      rcases List.mem_cons.1 ht with rfl | ht
      · exact Nat.le_refl _
      · exact Nat.le_trans (Nat.le_add_right _ _) (ih t ht)

/-- A text that begins with a word character begins with a word. -/
theorem head?_of_isWordChar {c : Char} (h : Tiled offset (c :: cs) ts)
    (hc : isWordChar c = true) : ∃ t ∈ ts.head?, t.kind = .word ∧ t.span.offset = offset := by
  generalize hcs : c :: cs = text at h
  cases h with
  | stop => simp at hcs
  | blank hblank _ =>
      obtain ⟨rfl, -⟩ := List.cons.inj hcs
      simp [isBlank_eq_false_of_isWordChar hc] at hblank
  | @token _ kind lexeme rest _ hlexeme _ _ =>
      obtain ⟨d, piece, rfl⟩ := List.exists_cons_of_ne_nil (ne_nil_of_isLexeme hlexeme)
      obtain ⟨rfl, -⟩ := List.cons.inj hcs
      exact ⟨_, rfl, kind_eq_word_of_isWordChar hlexeme hc, rfl⟩

/-- A token that stands apart from the next one could not have been longer. -/
theorem endsBefore {kind : Kind} (h : Tiled offset cs ts) (hapart : Apart offset cs ts kind) :
    EndsBefore cs kind := by
  cases kind
  case equals => exact hapart
  case word =>
    intro c hc
    cases cs with
    | nil => simp at hc
    | cons d cs =>
        obtain rfl : d = c := by simpa using hc
        apply Bool.eq_false_iff.2
        intro hword
        obtain ⟨t, ht, hkind, hoffset⟩ := h.head?_of_isWordChar hword
        exact hapart t ht hkind hoffset
  all_goals trivial

theorem apart {kind : Kind} (h : Tiled offset cs ts) (hends : EndsBefore cs kind) :
    Apart offset cs ts kind := by
  cases kind
  case equals => exact hends
  case word =>
    intro t ht hkind hoffset
    cases h with
    | stop =>
        obtain rfl : Token.eof offset = t := by simpa using ht
        simp at hkind
    | blank _ h =>
        have hle := h.le_offset t (List.mem_of_mem_head? ht)
        omega
    | token hlexeme _ _ =>
        obtain rfl := Option.some.inj ht
        obtain rfl : _ = Kind.word := hkind
        cases hlexeme with
        | sign hsign => simp [Kind.sign?] at hsign
        | word hne hall =>
            obtain ⟨c, piece, rfl⟩ := List.exists_cons_of_ne_nil hne
            have hc := hends c rfl
            simp [hc] at hall
  all_goals trivial

end Tiled

theorem tiled_of_gather (offset : Nat) (cs : List Char) {found : List Token}
    (h : gather (tiles offset cs) = (found, none)) :
    Tiled offset cs (found ++ [Token.eof (offset + cs.length)]) := by
  induction offset, cs using tiles.induct generalizing found with
  | case1 offset =>
      rw [tiles_nil] at h
      obtain rfl := (Prod.mk.inj h).1
      exact .stop
  | case2 offset c cs ih =>
      have hcut := isCut_cut c cs
      generalize hk : cut c cs = k at hcut ih
      cases hcut with
      | blank hblank =>
          rw [tiles_of_isBlank hblank] at h
          have htail := ih h
          exact .blank hblank (by rwa [List.length_cons, ← Nat.add_assoc, Nat.add_right_comm])
      | token hcs hlexeme hends =>
          rw [tiles_of_cut hk] at h
          obtain ⟨rfl, hnone⟩ := Prod.mk.inj h
          have htail := ih (Prod.ext rfl hnone)
          rw [hcs, List.length_append, ← Nat.add_assoc]
          exact .token hlexeme (htail.apart hends) htail
      | stray =>
          rw [tiles, hk] at h
          simp [Cut.tile?, gather] at h
      | unclosed =>
          rw [tiles, hk] at h
          simp [Cut.tile?, gather] at h

theorem Tiled.eq_gather {offset : Nat} {cs : List Char} {ts : List Token}
    (h : Tiled offset cs ts) :
    ∃ found, gather (tiles offset cs) = (found, none) ∧
      ts = found ++ [Token.eof (offset + cs.length)] := by
  induction h with
  | stop => exact ⟨[], by rw [tiles_nil]; rfl, rfl⟩
  | @blank offset c cs ts hc h ih =>
      obtain ⟨found, hgather, rfl⟩ := ih
      refine ⟨found, by rw [tiles_of_isBlank hc, hgather], ?_⟩
      rw [List.length_cons, Nat.add_assoc, Nat.add_comm 1]
  | @token offset kind lexeme rest ts hlexeme hapart h ih =>
      obtain ⟨found, hgather, rfl⟩ := ih
      refine ⟨⟨kind, String.ofList lexeme, ⟨offset, lexeme.length⟩⟩ :: found, ?_, ?_⟩
      · rw [tiles_of_isLexeme hlexeme (h.endsBefore hapart), gather, hgather]
      · rw [List.length_append, Nat.add_assoc, List.cons_append]

/-- A tiled text is cut into its tokens in front of any text that ends them all. -/
theorem Tiled.tiles_append {offset : Nat} {cs rest : List Char} {us : List Token}
    (h : Tiled offset cs (us ++ [Token.eof (offset + cs.length)]))
    (hrest : ∀ kind, EndsBefore rest kind) :
    tiles offset (cs ++ rest) = us.map .token ++ tiles (offset + cs.length) rest := by
  generalize hts : us ++ [Token.eof (offset + cs.length)] = ts at h
  induction h generalizing us with
  | stop =>
      obtain rfl : us = [] := by simpa using congrArg List.length hts
      rfl
  | @blank offset c cs ts hc h ih =>
      rw [List.length_cons, ← Nat.add_assoc, Nat.add_right_comm] at hts ⊢
      rw [List.cons_append, tiles_of_isBlank hc]
      exact ih hts
  | @token offset kind lexeme cs ts hlexeme hapart h ih =>
      rw [List.length_append, ← Nat.add_assoc] at hts ⊢
      cases us with
      | nil =>
          obtain ⟨heof, -⟩ := List.cons.inj hts
          exact absurd (congrArg Token.kind heof).symm (ne_eof_of_isLexeme hlexeme)
      | cons u us =>
          obtain ⟨rfl, htail⟩ := List.cons.inj hts
          have hends := (h.endsBefore hapart).append (hrest kind)
          rw [List.append_assoc, tiles_of_isLexeme hlexeme hends, ih htail]
          rfl

theorem gather_append (us : List Token) (ahead : List Tile) :
    gather (us.map .token ++ ahead) = (us ++ (gather ahead).1, (gather ahead).2) := by
  induction us with
  | nil => rfl
  | cons u us ih => rw [List.map_cons, List.cons_append, gather, ih, List.cons_append]

/-- Tilings of neighbouring texts make one, unless a token goes on behind the
first of them. -/
theorem Tiled.append {offset : Nat} {cs rest : List Char} {us ts : List Token}
    (h : Tiled offset cs (us ++ [Token.eof (offset + cs.length)]))
    (hends : ∀ kind, EndsBefore rest kind) (hrest : Tiled (offset + cs.length) rest ts) :
    Tiled offset (cs ++ rest) (us ++ ts) := by
  obtain ⟨found, hgather, rfl⟩ := hrest.eq_gather
  have hboth : gather (tiles offset (cs ++ rest)) = (us ++ found, none) := by
    rw [h.tiles_append hends, gather_append, hgather]
  have htiled := tiled_of_gather offset (cs ++ rest) hboth
  rwa [List.length_append, ← Nat.add_assoc, List.append_assoc] at htiled

theorem scan_eq_ok_iff_gather {text : String} {ts : List Token} :
    scan text = .ok ts ↔
      ∃ found, gather (tiles 0 text.toList) = (found, none) ∧
        ts = found ++ [Token.eof text.length] := by
  unfold scan Scan.resume Scan.start
  generalize gather (tiles 0 text.toList) = g
  obtain ⟨found, _ | ⟨fault, ahead⟩⟩ := g
  · simp [eq_comm]
  · simp

theorem scan_eq_ok_of_tiled {text : String} {ts : List Token} (h : Tiled 0 text.toList ts) :
    scan text = .ok ts := by
  obtain ⟨found, hgather, rfl⟩ := h.eq_gather
  rw [Nat.zero_add, String.length_toList]
  exact scan_eq_ok_iff_gather.2 ⟨found, hgather, rfl⟩

theorem tiled_of_scan {text : String} {ts : List Token} (h : scan text = .ok ts) :
    Tiled 0 text.toList ts := by
  obtain ⟨found, hgather, rfl⟩ := scan_eq_ok_iff_gather.1 h
  have htiled := tiled_of_gather 0 text.toList hgather
  rwa [Nat.zero_add, String.length_toList] at htiled

namespace Tiled

variable {offset : Nat} {cs : List Char} {ts : List Token}

theorem unique (h : Tiled offset cs ts) {us : List Token} (hu : Tiled offset cs us) : us = ts := by
  obtain ⟨found, hfound, rfl⟩ := h.eq_gather
  obtain ⟨found', hfound', rfl⟩ := hu.eq_gather
  rw [hfound] at hfound'
  obtain ⟨rfl, -⟩ := Prod.mk.inj hfound'
  rfl

/-- The end mark stands behind all other tokens and nowhere else. -/
theorem eq_append_eof (h : Tiled offset cs ts) :
    ∃ us, ts = us ++ [Token.eof (offset + cs.length)] ∧
      ∀ t ∈ us, IsLexeme t.kind t.lexeme.toList := by
  induction h with
  | stop => exact ⟨[], rfl, by simp⟩
  | blank _ _ ih =>
      obtain ⟨us, rfl, hus⟩ := ih
      exact ⟨us, by rw [List.length_cons, Nat.add_assoc, Nat.add_comm 1], hus⟩
  | token hlexeme _ _ ih =>
      obtain ⟨us, rfl, hus⟩ := ih
      refine ⟨_ :: us, by rw [List.length_append, Nat.add_assoc, List.cons_append], ?_⟩
      intro t ht
      rcases List.mem_cons.1 ht with rfl | ht
      · rwa [String.toList_ofList]
      · exact hus t ht

/-- A token in front of another one is not empty and stops before it. -/
theorem pairwise (h : Tiled offset cs ts) :
    ts.Pairwise fun t u => t.span.offset < t.span.stop ∧ t.span.stop ≤ u.span.offset := by
  induction h with
  | stop => exact List.pairwise_singleton _ _
  | blank _ _ ih => exact ih
  | token hlexeme _ h ih =>
      have hpos := List.length_pos_iff.2 (ne_nil_of_isLexeme hlexeme)
      exact List.pairwise_cons.2 ⟨fun u hu => ⟨Nat.lt_add_of_pos_right hpos, h.le_offset u hu⟩, ih⟩

/-- A lexeme stands at its span. -/
theorem slice (h : Tiled offset cs ts) :
    ∀ t ∈ ts, (cs.drop (t.span.offset - offset)).take t.span.length = t.lexeme.toList := by
  induction h with
  | stop =>
      intro t ht
      obtain rfl := List.mem_singleton.1 ht
      simp [Token.eof, Span.point]
  | @blank offset c cs ts _ h ih =>
      intro t ht
      have hle := h.le_offset t ht
      rw [← ih t ht, show t.span.offset - offset = (t.span.offset - (offset + 1)) + 1 by omega,
        List.drop_succ_cons]
  | @token offset kind lexeme rest ts _ _ h ih =>
      intro t ht
      rcases List.mem_cons.1 ht with rfl | ht
      · simp
      · have hle := h.le_offset t ht
        rw [← ih t ht, show t.span.offset - offset =
          lexeme.length + (t.span.offset - (offset + lexeme.length)) by omega,
          List.drop_length_add_append]

theorem filter_lexemes (h : Tiled offset cs ts) :
    (ts.flatMap fun t => t.lexeme.toList.filter (!isBlank ·)) = cs.filter (!isBlank ·) := by
  induction h with
  | stop => rfl
  | blank hc _ ih => rw [ih, List.filter_cons_of_neg]; simp [hc]
  | token _ _ _ ih => rw [List.flatMap_cons, ih, String.toList_ofList, List.filter_append]

end Tiled

/-- The scan of a text succeeds with its tiling, of which there is at most one.
Its lexemes stand at their spans, which are in order and do not overlap, and
only blanks lie outside them. -/
theorem scan_eq_ok_iff_tiled (text : String) (ts : List Token) :
    (scan text = .ok ts ↔ Tiled 0 text.toList ts) ∧
      (Tiled 0 text.toList ts →
        (∃ us, ts = us ++ [Token.eof text.length] ∧ ∀ t ∈ us, t.kind ≠ .eof) ∧
          (∀ t ∈ ts, (text.toList.drop t.span.offset).take t.span.length = t.lexeme.toList) ∧
            (ts.Pairwise fun t u => t.span.offset < t.span.stop ∧ t.span.stop ≤ u.span.offset) ∧
              (ts.flatMap fun t => t.lexeme.toList.filter (!isBlank ·)) =
                  text.toList.filter (!isBlank ·) ∧
                ∀ us, Tiled 0 text.toList us → us = ts) := by
  refine ⟨⟨tiled_of_scan, scan_eq_ok_of_tiled⟩, fun h => ⟨?_, h.slice, h.pairwise,
    h.filter_lexemes, fun us hus => h.unique hus⟩⟩
  obtain ⟨us, hts, hus⟩ := h.eq_append_eof
  rw [Nat.zero_add, String.length_toList] at hts
  exact ⟨us, hts, fun t ht => ne_eof_of_isLexeme (hus t ht)⟩

end Token

end Typemap

import Typemap.Proofs.Token.Tiling

/-!
# Where a scan stops

A scan that fails has tiled the text up to a place where no token begins: at a
character outside the alphabet, or at a quote that nothing closes. The fault
covers that character, or everything from that quote on.
-/

namespace Typemap

namespace Token

theorem not_mem_signs_of_mark? {c : Char} (hmark : mark? c = none) (hequals : c ≠ '=') :
    c ∉ ['<', '>', '(', ')', ',', '@', '='] := by
  intro hmem
  simp only [List.mem_cons, List.not_mem_nil, or_false] at hmem
  rcases hmem with rfl | rfl | rfl | rfl | rfl | rfl | rfl
  case inr.inr.inr.inr.inr.inr => exact hequals rfl
  all_goals simp [mark?] at hmark

theorem isUnclosed_of_close {q : Char} {cs : List Char} (hq : isQuote q = true)
    (h : Literal.close q cs = none) : IsUnclosed q cs := by
  refine ⟨hq, ?_⟩
  rintro body rest hbody rfl
  rw [Literal.close_append hq hbody] at h
  simp at h

theorem EndsBefore.of_append {kind : Kind} {front back : List Char}
    (h : EndsBefore (front ++ back) kind) : EndsBefore front kind := by
  cases front with
  | nil => cases kind <;> simp [EndsBefore]
  | cons c front => cases kind <;> exact h

/-- In front of the first fault there is a tiling, and behind what it blames the
cutting goes on. -/
theorem exists_tiled_of_gather (offset : Nat) (cs : List Char) {found : List Token} {fault : Fault}
    {ahead : List Tile} (h : gather (tiles offset cs) = (found, some (fault, ahead))) :
    ∃ front back, cs = front ++ back ∧
      Tiled offset front (found ++ [Token.eof (offset + front.length)]) ∧
        IsFault (offset + front.length) back fault ∧
          ahead = tiles fault.span.stop (back.drop fault.span.length) := by
  induction offset, cs using tiles.induct generalizing found with
  | case1 offset =>
      rw [tiles_nil] at h
      simp [gather] at h
  | case2 offset c cs ih =>
      have hcut := isCut_cut c cs
      generalize hk : cut c cs = k at hcut ih
      cases hcut with
      | blank hblank =>
          rw [tiles_of_isBlank hblank] at h
          obtain ⟨front, back, rfl, htiled, hfault, hahead⟩ := ih h
          refine ⟨c :: front, back, rfl, .blank hblank ?_, ?_, hahead⟩
          · rwa [List.length_cons, ← Nat.add_assoc, Nat.add_right_comm]
          · rwa [List.length_cons, ← Nat.add_assoc, Nat.add_right_comm]
      | @token kind piece rest hcs hlexeme hends =>
          rw [tiles_of_cut hk] at h
          obtain ⟨rfl, hsome⟩ := Prod.mk.inj h
          obtain ⟨front, back, rfl, htiled, hfault, hahead⟩ := ih (Prod.ext rfl hsome)
          refine ⟨piece ++ front, back, by rw [hcs, List.append_assoc], ?_, ?_, hahead⟩
          · rw [List.length_append, ← Nat.add_assoc]
            exact .token hlexeme (htiled.apart hends.of_append) htiled
          · rwa [List.length_append, ← Nat.add_assoc]
      | stray hblank hmark hequals hquote hword =>
          rw [tiles, hk] at h
          simp only [Cut.tile?, Option.toList, List.cons_append, gather, Prod.mk.injEq,
            Option.some.injEq] at h
          obtain ⟨rfl, rfl, rfl⟩ := h
          exact ⟨[], c :: cs, rfl, .stop,
            .stray ⟨hblank, hquote, hword, not_mem_signs_of_mark? hmark hequals⟩, rfl⟩
      | unclosed hquote hopen =>
          rw [tiles, hk] at h
          simp only [Cut.tile?, Option.toList, List.cons_append, gather, Prod.mk.injEq,
            Option.some.injEq] at h
          obtain ⟨rfl, rfl, rfl⟩ := h
          refine ⟨[], c :: cs, rfl, .stop, .unclosed (isUnclosed_of_close hquote hopen), ?_⟩
          rw [List.drop_length]
          rfl

theorem scan_eq_error_iff_gather {text : String} {fault : Fault} :
    scan text = .error fault ↔
      ∃ found ahead, gather (tiles 0 text.toList) = (found, some (fault, ahead)) := by
  unfold scan Scan.resume Scan.start
  generalize gather (tiles 0 text.toList) = g
  obtain ⟨found, _ | ⟨fault', ahead⟩⟩ := g
  · simp
  · simp

/-- A scan fails behind a text that it could have scanned. -/
theorem exists_scan_of_scan_eq_error {text : String} {fault : Fault}
    (h : scan text = .error fault) :
    ∃ (front back : List Char) (ts : List Token), text.toList = front ++ back ∧
      scan (String.ofList front) = .ok ts ∧ IsFault front.length back fault := by
  obtain ⟨found, ahead, hgather⟩ := scan_eq_error_iff_gather.1 h
  obtain ⟨front, back, htext, htiled, hfault, -⟩ := exists_tiled_of_gather 0 text.toList hgather
  rw [Nat.zero_add] at htiled hfault
  have hscan : scan (String.ofList front) = .ok (found ++ [Token.eof front.length]) := by
    apply scan_eq_ok_of_tiled
    rwa [String.toList_ofList]
  exact ⟨front, back, _, htext, hscan, hfault⟩

end Token

end Typemap

import Typemap.Proofs.Token.Tiling
import Typemap.Token.Padding

/-!
# Blanks between tokens

Blanks that are put between the tokens of a text move them and do nothing else:
the padded text is tiled by the moved tokens. A gap ends every token in front of
it, and an empty gap leaves the next character where it was.
-/

namespace Typemap

namespace Padding

variable {p : Padding}

/-- Characters with no blanks between them stay together. -/
theorem start_add {offset n : Nat} (hn : 0 < n)
    (hgap : ∀ i, offset < i → i < offset + n → p.gap i = []) :
    p.start (offset + n) = p.place offset + n := by
  induction n with
  | zero => exact absurd rfl (Nat.ne_of_gt hn)
  | succ n ih =>
      rw [← Nat.add_assoc, start_succ]
      rcases Nat.eq_zero_or_pos n with rfl | hpos
      · rfl
      · have hlast : p.gap (offset + n) = [] := hgap _ (by omega) (by omega)
        have hstart := ih hpos fun i hlow hhigh => hgap i hlow (by omega)
        rw [place_eq, hlast, hstart, List.length_nil, Nat.add_zero, Nat.add_assoc]

theorem padFrom_append {offset : Nat} {lexeme rest : List Char} (hne : lexeme ≠ [])
    (hgap : ∀ i, offset < i → i < offset + lexeme.length → p.gap i = []) :
    p.padFrom offset (lexeme ++ rest) =
      p.gap offset ++ (lexeme ++ p.padFrom (offset + lexeme.length) rest) := by
  induction lexeme generalizing offset with
  | nil => exact absurd rfl hne
  | cons c lexeme ih =>
      rw [List.cons_append, padFrom, List.cons_append]
      cases lexeme with
      | nil => rfl
      | cons d lexeme =>
          have hnext : p.gap (offset + 1) = [] := by
            apply hgap <;> simp
          have hlength :
              offset + 1 + (d :: lexeme).length = offset + (c :: d :: lexeme).length := by
            simp only [List.length_cons]
            omega
          have htail := ih (List.cons_ne_nil d lexeme) fun i hlow hhigh =>
            hgap i (Nat.lt_of_succ_lt hlow) (hlength ▸ hhigh)
          rw [htail, hnext, List.nil_append, hlength]

theorem isBlank_or_mem_head? {offset : Nat} {rest : List Char} {c : Char}
    (hc : c ∈ (p.padFrom offset rest).head?) : isBlank c = true ∨ c ∈ rest.head? := by
  cases hgap : p.gap offset with
  | nil =>
      right
      cases rest with
      | nil => simp [padFrom, hgap] at hc
      | cons d rest => simpa [padFrom, hgap] using hc
  | cons d blanks =>
      left
      have hd : d = c := by cases rest <;> simpa [padFrom, hgap] using hc
      rw [← hd]
      exact p.isBlank_of_mem offset d (by simp [hgap])

end Padding

namespace Token

variable {p : Padding}

/-- What ends a token still ends it when blanks are put in front. -/
theorem EndsBefore.padFrom {kind : Kind} {rest : List Char} (h : EndsBefore rest kind)
    (p : Padding) (offset : Nat) : EndsBefore (p.padFrom offset rest) kind := by
  cases kind
  case word =>
    intro c hc
    rcases Padding.isBlank_or_mem_head? hc with hblank | hc
    · apply Bool.eq_false_iff.2
      intro hword
      simp [isBlank_eq_false_of_isWordChar hword] at hblank
    · exact h c hc
  case equals =>
    intro hc
    rcases Padding.isBlank_or_mem_head? hc with hblank | hc
    · simp [isBlank] at hblank
    · exact h hc
  all_goals trivial

namespace Tiled

variable {offset : Nat} {cs : List Char} {ts : List Token}

theorem blanks_append {blanks : List Char} (hblanks : ∀ c ∈ blanks, isBlank c = true)
    (h : Tiled (offset + blanks.length) cs ts) : Tiled offset (blanks ++ cs) ts := by
  induction blanks generalizing offset with
  | nil => exact h
  | cons c blanks ih =>
      apply Tiled.blank (hblanks c List.mem_cons_self)
      apply ih fun d hd => hblanks d (List.mem_cons_of_mem c hd)
      rwa [Nat.add_assoc, Nat.add_comm 1]

/-- The moved tokens tile the padded text. -/
theorem padFrom (h : Tiled offset cs ts) (hspares : ∀ t ∈ ts, p.Spares t) :
    Tiled (p.start offset) (p.padFrom offset cs) (ts.map (·.moved p.place)) := by
  induction h with
  | @stop offset =>
      rw [Padding.padFrom, ← List.append_nil (p.gap offset)]
      apply blanks_append (p.isBlank_of_mem offset)
      rw [← p.place_eq]
      exact .stop
  | @blank offset c cs ts hc _ ih =>
      apply blanks_append (p.isBlank_of_mem offset)
      apply Tiled.blank hc
      rw [← p.place_eq, ← p.start_succ]
      exact ih hspares
  | @token offset kind lexeme rest ts hlexeme hapart h ih =>
      have hne := ne_nil_of_isLexeme hlexeme
      have hgap : ∀ i, offset < i → i < offset + lexeme.length → p.gap i = [] :=
        hspares _ List.mem_cons_self
      have htail := ih fun t ht => hspares t (List.mem_cons_of_mem _ ht)
      rw [Padding.start_add (List.length_pos_iff.2 hne) hgap] at htail
      rw [Padding.padFrom_append hne hgap]
      apply blanks_append (p.isBlank_of_mem offset)
      rw [← p.place_eq]
      exact .token hlexeme (htail.apart ((h.endsBefore hapart).padFrom p _)) htail

end Tiled

/-- The tokens of a padded text are those of the text, moved. -/
theorem scan_pad {text : String} {ts : List Token} (hscan : scan text = .ok ts)
    (hspares : ∀ t ∈ ts, p.Spares t) : scan (p.pad text) = .ok (ts.map (·.moved p.place)) := by
  apply scan_eq_ok_of_tiled
  rw [Padding.pad, String.toList_ofList]
  exact (tiled_of_scan hscan).padFrom hspares

end Token

end Typemap

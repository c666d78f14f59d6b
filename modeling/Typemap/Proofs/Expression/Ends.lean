import Typemap.Proofs.Expression.Completeness
import Typemap.Proofs.Expression.Recognition

/-!
# Where expressions end

The reader looks no further than the first end mark, and a list without one is
read as if the mark stood behind it. A complete expression takes no more tokens:
whatever stands behind it is refused at the first token, unless this opens the
generic list or the parameters that the expression lacks.
-/

namespace Typemap

namespace Reader

variable {settings : Settings} {stop : Nat}

/-- What is read first makes no difference to what comes after it. -/
theorem run_append_congr {ts ts' : List Token}
    (h : ∀ s, run settings stop s ts = run settings stop s ts') (us : List Token) (s : State) :
    run settings stop s (us ++ ts) = run settings stop s (us ++ ts') := by
  induction us generalizing s with
  | nil => exact h s
  | cons u us ih =>
      rw [List.cons_append, List.cons_append, run, run]
      split
      · rfl
      · cases step settings s u with
        | error fault => rfl
        | ok s' => exact ih s'

theorem run_append_mark {mark : Token} (hmark : mark.kind = .eof) (us rest : List Token)
    (s : State) :
    run settings stop s (us ++ mark :: rest) = run settings stop s (us ++ [mark]) := by
  have hfinish : ∀ s, run settings stop s (mark :: rest) = run settings stop s [mark] := by
    intro s
    rw [run, if_pos hmark, run, if_pos hmark]
  exact run_append_congr hfinish us s

theorem run_append_eof (tokens : List Token) (s : State) :
    run settings stop s (tokens ++ [.eof stop]) = run settings stop s tokens := by
  have hnil : ∀ s, run settings stop s [.eof stop] = run settings stop s [] := fun _ => rfl
  rw [run_append_congr hnil, List.append_nil]

/-- A list of tokens has a first end mark or none at all. -/
theorem plain_or_exists_mark (tokens : List Token) :
    (∀ t ∈ tokens, t.kind ≠ .eof) ∨
      ∃ us mark rest, tokens = us ++ mark :: rest ∧ (∀ t ∈ us, t.kind ≠ .eof) ∧
        mark.kind = .eof := by
  cases hmark : tokens.find? (·.kind == .eof) with
  | none => exact .inl (by simpa using hmark)
  | some mark =>
      obtain ⟨hkind, us, rest, htokens, hus⟩ := List.find?_eq_some_iff_append.1 hmark
      exact .inr ⟨us, mark, rest, htokens, by simpa using hus, by simpa using hkind⟩

/-- The tokens that a run looks at are those in front of the first end mark. -/
theorem exists_run_eq (stop : Nat) (tokens : List Token) :
    ∃ us rest mark, tokens = us ++ rest ∧ (∀ t ∈ us, t.kind ≠ .eof) ∧ mark.kind = .eof ∧
      ∀ (settings : Settings) (s : State),
        run settings stop s tokens = run settings stop s (us ++ [mark]) := by
  rcases plain_or_exists_mark tokens with hplain | ⟨us, mark, rest, rfl, hus, hmark⟩
  · exact ⟨tokens, [], .eof stop, (List.append_nil _).symm, hplain, rfl,
      fun _ s => (run_append_eof tokens s).symm⟩
  · exact ⟨us, mark :: rest, mark, rfl, hus, hmark, fun _ s => run_append_mark hmark us rest s⟩

theorem run_complete (e : Expression) {t : Token} (ht : t.kind ≠ .eof) (rest : List Token) :
    run settings stop (.complete e) (t :: rest) = .error ⟨.trailing t.lexeme, t.span⟩ := by
  rw [run, if_neg ht]
  rfl

end Reader

/-- Tokens behind a complete expression are refused at the first of them,
whatever the others are. -/
theorem ofTokens_append_eq_trailing (settings : Settings) (text : String) (ts : List Token)
    (mark : Token) (hts : ∀ t ∈ ts, t.kind ≠ .eof) (hmark : mark.kind = .eof) (e : Expression)
    (h : Expression.ofTokens settings text (ts ++ [mark]) = .ok e) (t : Token)
    (ht : t.kind ≠ .eof) (hends : Reader.Ends e t) (rest : List Token) :
    Expression.ofTokens settings text (ts ++ t :: rest) =
      .error ⟨.trailingInput, "unexpected `" ++ t.lexeme ++ "` after a complete mapping", text,
        t.span, none⟩ := by
  obtain ⟨d, rfl, rfl⟩ := Expression.exists_derivation_of_ofTokens hts hmark h
  rw [Expression.ofTokens, Reader.run_derivation d hends, Reader.run_complete _ ht]
  rfl

/-- A second generic list behind `A => B<C>`. -/
theorem ofTokens_append_eq_trailing_generic :
    Expression.ofTokens {} "A => B<C><D>" [⟨.word, "A", ⟨0, 1⟩⟩, ⟨.arrow, "=>", ⟨2, 2⟩⟩,
        ⟨.word, "B", ⟨5, 1⟩⟩, ⟨.langle, "<", ⟨6, 1⟩⟩, ⟨.word, "C", ⟨7, 1⟩⟩,
        ⟨.rangle, ">", ⟨8, 1⟩⟩, ⟨.langle, "<", ⟨9, 1⟩⟩, ⟨.word, "D", ⟨10, 1⟩⟩,
        ⟨.rangle, ">", ⟨11, 1⟩⟩, Token.eof 12] =
      .error ⟨.trailingInput, "unexpected `<` after a complete mapping", "A => B<C><D>", ⟨9, 1⟩,
        none⟩ :=
  ofTokens_append_eq_trailing {} "A => B<C><D>" [⟨.word, "A", ⟨0, 1⟩⟩, ⟨.arrow, "=>", ⟨2, 2⟩⟩,
    ⟨.word, "B", ⟨5, 1⟩⟩, ⟨.langle, "<", ⟨6, 1⟩⟩, ⟨.word, "C", ⟨7, 1⟩⟩, ⟨.rangle, ">", ⟨8, 1⟩⟩]
    (Token.eof 12) (by decide) rfl ⟨⟨"A", none⟩, .map ⟨"B", .cons "C" .nil .nil⟩⟩ rfl
    ⟨.langle, "<", ⟨9, 1⟩⟩ (by decide) ⟨by simp, by simp⟩
    [⟨.word, "D", ⟨10, 1⟩⟩, ⟨.rangle, ">", ⟨11, 1⟩⟩, Token.eof 12]

end Typemap

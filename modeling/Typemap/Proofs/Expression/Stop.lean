import Typemap.Proofs.Expression.Descent
import Typemap.Proofs.Expression.Ends

/-!
# Where the reader stops

On any list of tokens, with or without end marks, the descent ends, and it stops
at the first end mark at the latest. So what stands behind that mark makes no
difference, and a list without a mark is read as if one stood behind it.
-/

namespace Typemap

namespace Descent

open Reader

variable {settings : Settings} {stop : Nat}

theorem run_closed (tokens : List Token) (s : State) :
    run settings stop s (closed stop tokens) = run settings stop s tokens := by
  unfold closed
  split
  · rfl
  · exact run_append_eof tokens s

theorem exists_mark_mem_closed (stop : Nat) (tokens : List Token) :
    ∃ t ∈ closed stop tokens, t.kind = .eof := by
  unfold closed
  split
  · rename_i hlast
    obtain ⟨t, hlast, hkind⟩ := Option.map_eq_some_iff.1 hlast
    exact ⟨t, List.mem_of_getLast? hlast, hkind⟩
  · exact ⟨.eof stop, by simp, rfl⟩

theorem firstMark_of_plain {tokens : List Token} (h : ∀ t ∈ tokens, t.kind ≠ .eof) :
    firstMark tokens = tokens.length :=
  List.findIdx_eq_length.2 fun t ht => beq_eq_false_iff_ne.2 (h t ht)

namespace Marked

theorem exists_tokens_eq {tokens : List Token} (h : ∃ t ∈ tokens, t.kind = .eof) :
    ∃ input : Marked, input.tokens = tokens := by
  rcases plain_or_exists_mark tokens with hplain | ⟨us, mark, rest, rfl, hus, hmark⟩
  · obtain ⟨t, ht, hkind⟩ := h
    exact absurd hkind (hplain t ht)
  · exact ⟨⟨us, mark, rest, hus, hmark⟩, rfl⟩

theorem firstMark_tokens (input : Marked) : firstMark input.tokens = input.front.length := by
  have hfront : input.front.findIdx (·.kind == .eof) = input.front.length :=
    firstMark_of_plain input.plain
  have hmark : (input.mark.kind == .eof) = true := beq_iff_eq.2 input.isMark
  rw [firstMark, tokens, List.findIdx_append, hfront, if_neg (Nat.lt_irrefl _), List.findIdx_cons,
    hmark, cond_true, Nat.zero_add]

theorem take_firstMark (input : Marked) :
    input.tokens.take (firstMark input.tokens + 1) = input.front ++ [input.mark] := by
  rw [firstMark_tokens, tokens, List.take_length_add_append]
  rfl

/-- The reader, too, looks at nothing behind the mark. -/
theorem run_tokens (input : Marked) (s : State) :
    run settings stop s input.tokens = input.read settings stop s input.front :=
  run_append_mark input.isMark input.front input.rest s

end Marked

theorem run_take_firstMark (tokens : List Token) (s : State) :
    run settings stop s (tokens.take (firstMark tokens + 1)) = run settings stop s tokens := by
  by_cases h : ∃ t ∈ tokens, t.kind = .eof
  · obtain ⟨input, rfl⟩ := Marked.exists_tokens_eq h
    rw [input.take_firstMark, input.run_tokens]
    rfl
  · rw [firstMark_of_plain fun t ht hkind => h ⟨t, ht, hkind⟩, List.take_of_length_le (by omega)]

theorem length_closed_le (stop : Nat) (tokens : List Token) :
    (closed stop tokens).length ≤ tokens.length + 1 := by
  unfold closed
  split <;> simp

theorem firstMark_closed_lt (stop : Nat) (tokens : List Token) :
    firstMark (closed stop tokens) < (closed stop tokens).length := by
  obtain ⟨t, ht, hkind⟩ := exists_mark_mem_closed stop tokens
  exact List.findIdx_lt_length.2 ⟨t, ht, beq_iff_eq.2 hkind⟩

/-- Without any assumption about the tokens, the descent ends inside them and
comes to the result of the reader. -/
theorem exists_descend (settings : Settings) (stop : Nat) {tokens : List Token} {rounds : Nat}
    (hrounds : tokens.length < rounds) :
    ∃ walk, descend settings rounds stop tokens = some (run settings stop .start tokens, walk) ∧
      walk.Within (firstMark (closed stop tokens)) := by
  have hlt := firstMark_closed_lt stop tokens
  have hle := length_closed_le stop tokens
  obtain ⟨input, hinput⟩ := Marked.exists_tokens_eq (exists_mark_mem_closed stop tokens)
  rw [← hinput, input.firstMark_tokens] at hlt ⊢
  rw [← hinput] at hle
  have hfront : input.front.length < rounds := by omega
  obtain ⟨walk, hwhole, hwithin⟩ := exists_whole input settings stop hfront
  refine ⟨walk, ?_, hwithin⟩
  rw [descend, ← hinput, hwhole, ← input.run_tokens, hinput, run_closed]

end Descent

/-- Whatever the tokens are, reading them by descent ends, with no more rounds
than there are tokens, and stays in the buffer, with the cursor in front of the
first end mark or at it. The result is that of the tokens up to that mark;
without any mark, it is that of the tokens with one at the end of the text. -/
theorem ofTokens_stops (settings : Settings) (text : String) (tokens : List Token) :
    (∃ result, Expression.ofTokens settings text tokens = reported text result ∧
      ∀ rounds, tokens.length < rounds → ∃ walk,
        Descent.descend settings rounds text.length tokens = some (result, walk) ∧
        (∀ i ∈ walk.seen, i < (Descent.closed text.length tokens).length) ∧
        (∀ i ∈ walk.seen, i ≤ Descent.firstMark (Descent.closed text.length tokens)) ∧
        walk.cursor ≤ Descent.firstMark (Descent.closed text.length tokens)) ∧
    Expression.ofTokens settings text tokens =
      Expression.ofTokens settings text (tokens.take (Descent.firstMark tokens + 1)) ∧
    ((∀ t ∈ tokens, t.kind ≠ .eof) →
      Expression.ofTokens settings text tokens =
        Expression.ofTokens settings text (tokens ++ [Token.eof text.length])) := by
  refine ⟨⟨_, rfl, fun rounds hrounds => ?_⟩, ?_, fun _ => ?_⟩
  · obtain ⟨walk, hdescend, hwithin⟩ := Descent.exists_descend settings text.length hrounds
    have hlt := Descent.firstMark_closed_lt text.length tokens
    exact ⟨walk, hdescend, fun i hi => Nat.lt_of_le_of_lt (hwithin.seen i hi) hlt, hwithin.seen,
      hwithin.cursor⟩
  · rw [Expression.ofTokens, Expression.ofTokens, Descent.run_take_firstMark]
  · rw [Expression.ofTokens, Expression.ofTokens, Reader.run_append_eof]

/-- With a mark in the middle, the token behind it is not looked at. -/
example :
    Descent.descend {} 4 0 [⟨.word, "A", ⟨0, 1⟩⟩, .eof 1, ⟨.word, "B", ⟨2, 1⟩⟩] =
      some (.error ⟨.unexpected .clause none, .point 1⟩, ⟨1, [0, 0, 0, 1, 1, 1]⟩) :=
  rfl

end Typemap

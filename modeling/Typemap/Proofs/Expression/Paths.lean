import Mathlib.Data.List.Induction
import Typemap.Proofs.Expression.Refusals
import Typemap.Proofs.Expression.Soundness

/-!
# Paths of the reader

A path is a list of tokens that the reader has moved along, with the state that
it has come to. A run over tokens and an end mark follows a path: to the end, or
to the first token that the reader fails at. So the result of a run is settled
by the path alone, whatever stands behind.
-/

namespace Typemap

namespace Reader

inductive Path (settings : Settings) : List Token → State → Prop where
  | start : Path settings [] .start
  | move {ts : List Token} {s s' : State} {t : Token} (h : Path settings ts s)
      (hmove : Moves settings s t s') : Path settings (ts ++ [t]) s'

variable {settings : Settings} {stop : Nat} {s : State} {read us rest : List Token} {mark : Token}

theorem Path.reads (h : Path settings read s) : Reads settings s read := by
  induction h with
  | start => exact .start
  | move _ hmove ih => exact ih.move hmove

/-- The last move of a path. -/
theorem Path.exists_last {front : List Token} {t : Token} (h : Path settings (front ++ [t]) s) :
    ∃ before, Path settings front before ∧ Moves settings before t s := by
  generalize hread : front ++ [t] = read at h
  cases h with
  | start => simp at hread
  | move hpath hmove =>
      obtain ⟨rfl, hlast⟩ := List.append_inj' hread rfl
      obtain rfl := List.singleton_inj.1 hlast
      exact ⟨_, hpath, hmove⟩

/-- A path can be cut in front of any of its tokens. -/
theorem Path.exists_move {front back : List Token} {t : Token}
    (h : Path settings (front ++ t :: back) s) :
    ∃ before behind, Path settings front before ∧ Moves settings before t behind := by
  induction back using List.reverseRecOn generalizing s with
  | nil =>
      obtain ⟨before, hpath, hmove⟩ := h.exists_last
      exact ⟨before, s, hpath, hmove⟩
  | append_singleton back last ih =>
      rw [← List.cons_append, ← List.append_assoc] at h
      obtain ⟨_, hpath, -⟩ := h.exists_last
      exact ih hpath

/-- The place that an opened list keeps is that of the last token. -/
theorem Path.exists_of_opened {source : Source} {frames : List Frame} {bracket : Span}
    (h : Path settings read (.opened source frames bracket)) :
    ∃ front t outer name, read = front ++ [t] ∧ t.kind = .langle ∧ t.span = bracket ∧
      Path settings front (.targetName source outer name) := by
  cases h with
  | @move front _ _ t hpath hmove =>
      obtain ⟨hkind, hspan, outer, name, rfl⟩ := hmove.of_opened
      exact ⟨front, t, outer, name, rfl, hkind, hspan, hpath⟩

theorem Path.exists_of_candidate {source : Source} {name : String} {done : List Argument}
    {token : Token} (h : Path settings read (.candidate source name done token)) :
    ∃ front, read = front ++ [token] ∧ Path settings front (.parameter source name done) := by
  cases h with
  | move hpath hmove =>
      obtain ⟨rfl, rfl⟩ := hmove.of_candidate
      exact ⟨_, rfl, hpath⟩

theorem Path.exists_of_value {source : Source} {name : String} {done : List Argument}
    {token : Token} (h : Path settings read (.value source name done token)) :
    ∃ front equals, read = front ++ [token, equals] ∧ equals.kind = .equals ∧
      Path settings front (.parameter source name done) := by
  cases h with
  | @move _ _ _ equals hpath hmove =>
      obtain ⟨rfl, hequals⟩ := hmove.of_value
      obtain ⟨front, rfl, hfront⟩ := hpath.exists_of_candidate
      exact ⟨front, equals, by simp, hequals, hfront⟩

theorem Path.run_append (h : Path settings read s) (ts : List Token) :
    run settings stop .start (read ++ ts) = run settings stop s ts := by
  induction h generalizing ts with
  | start => rfl
  | move _ hmove ih => rw [List.append_assoc, ih, List.singleton_append, run_of_moves hmove]

theorem run_mark (hmark : mark.kind = .eof) (rest : List Token) :
    run settings stop s (mark :: rest) = finish s mark := by
  rw [run, if_pos hmark]

theorem finish_eq_ok_iff {e : Expression} : finish s mark = .ok e ↔ s.result? = some e := by
  unfold finish
  cases s.result? with
  | none => simp
  | some e' => simp

theorem finish_eq_error_iff {f : Fault} :
    finish s mark = .error f ↔ s.result? = none ∧ f = s.refuse mark := by
  unfold finish
  cases s.result? with
  | none => simp [eq_comm]
  | some e => simp

theorem Path.forward (h : Path settings read s) (us : List Token) :
    (∃ s', Path settings (read ++ us) s') ∨
      ∃ front t back s' f, us = front ++ t :: back ∧ Path settings (read ++ front) s' ∧
        Fails settings s' t f := by
  induction us generalizing read s with
  | nil =>
      left
      exact ⟨s, by rwa [List.append_nil]⟩
  | cons t us ih =>
      cases hstep : step settings s t with
      | error f =>
          right
          exact ⟨[], t, us, s, f, rfl, by rwa [List.append_nil], step_eq_error_iff.1 hstep⟩
      | ok s' =>
          have hmove := step_eq_ok_iff.1 hstep
          rcases ih (h.move hmove) with ⟨s'', hpath⟩ | ⟨front, u, back, s'', f, rfl, hpath, hfails⟩
          · left
            exact ⟨s'', by simpa using hpath⟩
          · right
            exact ⟨t :: front, u, back, s'', f, rfl, by simpa using hpath, hfails⟩

/-- The reader moves along all tokens, or along those in front of a token that
it fails at. -/
theorem exists_path (settings : Settings) (us : List Token) :
    (∃ s, Path settings us s) ∨
      ∃ front t back s f, us = front ++ t :: back ∧ Path settings front s ∧
        Fails settings s t f := by
  have hstart : Path settings [] .start := .start
  simpa using hstart.forward us

theorem Path.run_of_fails (h : Path settings read s) {t : Token} (ht : t.kind ≠ .eof) {f : Fault}
    (hfails : Fails settings s t f) (rest : List Token) :
    run settings stop .start (read ++ t :: rest) = .error f := by
  rw [h.run_append, run, if_neg ht, step_eq_error_iff.2 hfails]

theorem run_eq_ok_iff (hus : ∀ t ∈ us, t.kind ≠ .eof) (hmark : mark.kind = .eof) {e : Expression} :
    run settings stop .start (us ++ mark :: rest) = .ok e ↔
      ∃ s, Path settings us s ∧ s.result? = some e := by
  constructor
  · intro hrun
    rcases exists_path settings us with ⟨s, hpath⟩ | ⟨front, t, back, s, f, rfl, hpath, hfails⟩
    · rw [hpath.run_append, run_mark hmark] at hrun
      exact ⟨s, hpath, finish_eq_ok_iff.1 hrun⟩
    · have ht := hus t (by simp)
      rw [List.append_assoc, List.cons_append, hpath.run_of_fails ht hfails] at hrun
      simp at hrun
  · rintro ⟨s, hpath, hresult⟩
    rw [hpath.run_append, run_mark hmark]
    exact finish_eq_ok_iff.2 hresult

/-- What a run fails at: a token that the reader cannot take, or the end mark
where no expression may end. -/
inductive Stuck (settings : Settings) (us : List Token) (mark : Token) : Fault → Prop where
  | token {front back : List Token} {t : Token} {s : State} {f : Fault}
      (hus : us = front ++ t :: back) (hpath : Path settings front s)
      (hfails : Fails settings s t f) : Stuck settings us mark f
  | mark {s : State} (hpath : Path settings us s) (hresult : s.result? = none) :
      Stuck settings us mark (s.refuse mark)

theorem run_eq_error_iff (hus : ∀ t ∈ us, t.kind ≠ .eof) (hmark : mark.kind = .eof) {f : Fault} :
    run settings stop .start (us ++ mark :: rest) = .error f ↔ Stuck settings us mark f := by
  constructor
  · intro hrun
    rcases exists_path settings us with ⟨s, hpath⟩ | ⟨front, t, back, s, f', rfl, hpath, hfails⟩
    · rw [hpath.run_append, run_mark hmark] at hrun
      obtain ⟨hresult, rfl⟩ := finish_eq_error_iff.1 hrun
      exact .mark hpath hresult
    · have ht := hus t (by simp)
      rw [List.append_assoc, List.cons_append, hpath.run_of_fails ht hfails] at hrun
      obtain rfl := Except.error.inj hrun
      exact .token rfl hpath hfails
  · intro hstuck
    cases hstuck with
    | @token front back t s f hsplit hpath hfails =>
        subst hsplit
        have ht := hus t (by simp)
        rw [List.append_assoc, List.cons_append]
        exact hpath.run_of_fails ht hfails _
    | mark hpath hresult =>
        rw [hpath.run_append, run_mark hmark]
        exact finish_eq_error_iff.2 ⟨hresult, rfl⟩

end Reader

end Typemap

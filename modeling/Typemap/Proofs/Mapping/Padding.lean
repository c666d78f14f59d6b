import Typemap.Proofs.Expression.Moved
import Typemap.Proofs.Parse
import Typemap.Proofs.Token.Padding

/-!
# Blanks between tokens do not matter

Padding a text moves its tokens, and the reader does not look at places. So a
text and its padded form mean the same mapping, or they fail for the same reason
at the same token.
-/

namespace Typemap

open Token Reader

variable {settings : Settings} {text other : String} {place : Nat → Nat} {us : List Token}
  {mark : Token}

namespace Expression

theorem parse_moved_of_ok (hscan : scan text = .ok (us ++ [mark]))
    (hother : scan other = .ok (us.map (·.moved place) ++ [mark.moved place])) {e : Expression}
    (h : parse settings text = .ok e) : parse settings other = .ok (e.moved place) := by
  obtain ⟨s, hpath, hresult⟩ := (parse_eq_ok_iff hscan).1 h
  apply (parse_eq_ok_iff hother).2
  refine ⟨s.moved place, hpath.moved, ?_⟩
  rw [State.result?_moved, hresult]
  rfl

theorem parse_moved_of_error (hscan : scan text = .ok (us ++ [mark]))
    (hother : scan other = .ok (us.map (·.moved place) ++ [mark.moved place])) {f : Failure}
    (h : parse settings text = .error f) :
    ∃ f', parse settings other = .error f' ∧ f.IsMoved place (us ++ [mark]) f' := by
  obtain ⟨fault, hstuck, rfl⟩ := (parse_eq_error_iff hscan).1 h
  obtain ⟨fault', hstuck', hmoved⟩ := hstuck.moved place
  have hother' := (parse_eq_error_iff hother).2 ⟨fault', hstuck', rfl⟩
  exact ⟨_, hother', Failure.isMoved_ofFault hmoved hstuck.exists_token text other⟩

end Expression

/-- Two texts whose tokens differ in their places only have the same meaning, or
none for the same reason. -/
theorem Mapping.parse_moved (settings : Settings) {ts : List Token} (hscan : scan text = .ok ts)
    (hother : scan other = .ok (ts.map (·.moved place))) :
    (∃ m, parse settings text = .ok m ∧ parse settings other = .ok m) ∨
      ∃ f f', parse settings text = .error f ∧ parse settings other = .error f' ∧
        f.IsMoved place ts f' := by
  obtain ⟨us, rfl, -⟩ := exists_eq_append_eof hscan
  rw [List.map_append, List.map_singleton] at hother
  cases hparse : Expression.parse settings text with
  | ok e =>
      left
      have hmoved := Expression.parse_moved_of_ok hscan hother hparse
      refine ⟨(ofExpression e).resolveWith settings, ?_, ?_⟩
      · simp [parse, hparse, Except.map]
      · simp [parse, hmoved, Except.map, ofExpression_moved]
  | error f =>
      right
      obtain ⟨f', hother', hmoved⟩ := Expression.parse_moved_of_error hscan hother hparse
      exact ⟨f, f', parse_eq_error_iff.2 hparse, parse_eq_error_iff.2 hother', hmoved⟩

/-- Blanks that are put between the tokens of a text only move them. The text
keeps its meaning, or it fails as before at the same token. -/
theorem parse_pad (settings : Settings) (p : Padding) (text : String) {ts : List Token}
    (hscan : scan text = .ok ts) (hspares : ∀ t ∈ ts, p.Spares t) :
    scan (p.pad text) = .ok (ts.map (·.moved p.place)) ∧
      ((∃ m, Mapping.parse settings text = .ok m ∧ Mapping.parse settings (p.pad text) = .ok m) ∨
        ∃ f f', Mapping.parse settings text = .error f ∧
          Mapping.parse settings (p.pad text) = .error f' ∧ f.IsMoved p.place ts f') := by
  have hpad := scan_pad hscan hspares
  exact ⟨hpad, Mapping.parse_moved settings hscan hpad⟩

/-- A blank between brackets moves the closing one, and the failure covers it too.
A blank in front of an arrow leaves the meaning as it is. -/
theorem parse_pad_space :
    (Padding.space 5).pad "A=>B<>" = "A=>B< >" ∧
      scan "A=>B<>" = .ok [⟨.word, "A", ⟨0, 1⟩⟩, ⟨.arrow, "=>", ⟨1, 2⟩⟩, ⟨.word, "B", ⟨3, 1⟩⟩,
        ⟨.langle, "<", ⟨4, 1⟩⟩, ⟨.rangle, ">", ⟨5, 1⟩⟩, eof 6] ∧
      scan "A=>B< >" = .ok [⟨.word, "A", ⟨0, 1⟩⟩, ⟨.arrow, "=>", ⟨1, 2⟩⟩, ⟨.word, "B", ⟨3, 1⟩⟩,
        ⟨.langle, "<", ⟨4, 1⟩⟩, ⟨.rangle, ">", ⟨6, 1⟩⟩, eof 7] ∧
      Mapping.parse {} "A=>B<>" = .error (.ofFault "A=>B<>" ⟨.emptyGenerics, ⟨4, 2⟩⟩) ∧
      Mapping.parse {} "A=>B< >" = .error (.ofFault "A=>B< >" ⟨.emptyGenerics, ⟨4, 3⟩⟩) ∧
      Failure.IsMoved (Padding.space 5).place
        [⟨.word, "A", ⟨0, 1⟩⟩, ⟨.arrow, "=>", ⟨1, 2⟩⟩, ⟨.word, "B", ⟨3, 1⟩⟩,
          ⟨.langle, "<", ⟨4, 1⟩⟩, ⟨.rangle, ">", ⟨5, 1⟩⟩, eof 6]
        (.ofFault "A=>B<>" ⟨.emptyGenerics, ⟨4, 2⟩⟩)
        (.ofFault "A=>B< >" ⟨.emptyGenerics, ⟨4, 3⟩⟩) ∧
      (Padding.space 1).pad "A=>B" = "A =>B" ∧
      scan "A=>B" = .ok [⟨.word, "A", ⟨0, 1⟩⟩, ⟨.arrow, "=>", ⟨1, 2⟩⟩, ⟨.word, "B", ⟨3, 1⟩⟩,
        eof 4] ∧
      scan "A =>B" = .ok [⟨.word, "A", ⟨0, 1⟩⟩, ⟨.arrow, "=>", ⟨2, 2⟩⟩, ⟨.word, "B", ⟨4, 1⟩⟩,
        eof 5] ∧
      Mapping.parse {} "A=>B" = .ok (.type ⟨"A", none⟩ "B") ∧
      Mapping.parse {} "A =>B" = .ok (.type ⟨"A", none⟩ "B") := by
  have hbrackets : scan "A=>B<>" = .ok [⟨.word, "A", ⟨0, 1⟩⟩, ⟨.arrow, "=>", ⟨1, 2⟩⟩,
      ⟨.word, "B", ⟨3, 1⟩⟩, ⟨.langle, "<", ⟨4, 1⟩⟩, ⟨.rangle, ">", ⟨5, 1⟩⟩, eof 6] := by
    decide +kernel
  have harrow : scan "A=>B" = .ok [⟨.word, "A", ⟨0, 1⟩⟩, ⟨.arrow, "=>", ⟨1, 2⟩⟩,
      ⟨.word, "B", ⟨3, 1⟩⟩, eof 4] := by
    decide +kernel
  have hfails : Mapping.parse {} "A=>B<>" =
      .error (.ofFault "A=>B<>" ⟨.emptyGenerics, ⟨4, 2⟩⟩) := by
    decide +kernel
  have hfails' : Mapping.parse {} "A=>B< >" =
      .error (.ofFault "A=>B< >" ⟨.emptyGenerics, ⟨4, 3⟩⟩) := by
    decide +kernel
  have hparse : Mapping.parse {} "A=>B" = .ok (.type ⟨"A", none⟩ "B") := by decide +kernel
  have hpad : (Padding.space 5).pad "A=>B<>" = "A=>B< >" := by decide
  have hpad' : (Padding.space 1).pad "A=>B" = "A =>B" := by decide
  obtain ⟨hscan, hfailure⟩ := parse_pad {} (Padding.space 5) "A=>B<>" hbrackets fun t ht =>
    Padding.spares_space (by revert t; decide)
  obtain ⟨hscan', hmapping⟩ := parse_pad {} (Padding.space 1) "A=>B" harrow fun t ht =>
    Padding.spares_space (by revert t; decide)
  rw [hpad] at hscan hfailure
  rw [hpad'] at hscan' hmapping
  refine ⟨hpad, hbrackets, hscan, hfails, hfails', ?_, hpad', harrow, hscan', hparse, ?_⟩
  · rcases hfailure with ⟨m, hm, -⟩ | ⟨f, f', hf, hf', hmoved⟩
    · simp [hm] at hfails
    · obtain rfl := Except.error.inj (hf.symm.trans hfails)
      obtain rfl := Except.error.inj (hf'.symm.trans hfails')
      exact hmoved
  · rcases hmapping with ⟨m, hm, hm'⟩ | ⟨f, f', hf, -⟩
    · rwa [← hm.symm.trans hparse]
    · simp [hf] at hparse

end Typemap

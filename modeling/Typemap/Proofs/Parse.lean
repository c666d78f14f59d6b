import Typemap.Parse
import Typemap.Proofs.Expression.Paths
import Typemap.Proofs.Expression.Recognition
import Typemap.Proofs.Token.Tiling

/-!
# Outcomes of a parse

A text whose scan fails is refused with the fault of the scan. Otherwise the
reader follows a path along the tokens: to a state in which an expression may
end, or to the token that it is stuck at.
-/

namespace Typemap

open Token Reader

variable {settings : Settings} {text : String}

/-- A scan ends with the only end mark, behind the whole text. -/
theorem Token.exists_eq_append_eof {ts : List Token} (hscan : scan text = .ok ts) :
    ∃ us, ts = us ++ [eof text.length] ∧ ∀ t ∈ us, t.kind ≠ .eof := by
  obtain ⟨us, rfl, hus⟩ := (tiled_of_scan hscan).eq_append_eof
  refine ⟨us, ?_, fun t ht => ne_eof_of_isLexeme (hus t ht)⟩
  rw [Nat.zero_add, String.length_toList]

theorem Token.kind_of_scan {us : List Token} {mark : Token}
    (hscan : scan text = .ok (us ++ [mark])) : mark.kind = .eof ∧ ∀ t ∈ us, t.kind ≠ .eof := by
  obtain ⟨us', heq, hus⟩ := exists_eq_append_eof hscan
  obtain ⟨rfl, hmark⟩ := List.append_inj' heq rfl
  obtain rfl := List.singleton_inj.1 hmark
  exact ⟨rfl, hus⟩

theorem reported_eq_error_iff {α : Type} {result : Except Fault α} {f : Failure} :
    reported text result = .error f ↔ ∃ fault, result = .error fault ∧ f = .ofFault text fault := by
  cases result with
  | ok a => simp [reported]
  | error fault => simp [reported, eq_comm]

namespace Expression

variable {us : List Token} {mark : Token}

theorem parse_of_scan {ts : List Token} (hscan : scan text = .ok ts) :
    parse settings text = reported text (run settings text.length .start ts) := by
  simp only [parse, hscan, ofTokens]

/-- A parse succeeds along a path to a state in which an expression may end. -/
theorem parse_eq_ok_iff (hscan : scan text = .ok (us ++ [mark])) {e : Expression} :
    parse settings text = .ok e ↔ ∃ s, Path settings us s ∧ s.result? = some e := by
  obtain ⟨hmark, hus⟩ := kind_of_scan hscan
  rw [parse_of_scan hscan, reported_eq_ok_iff, run_eq_ok_iff hus hmark]

/-- A parse fails with what the reader is stuck at. -/
theorem parse_eq_error_iff (hscan : scan text = .ok (us ++ [mark])) {f : Failure} :
    parse settings text = .error f ↔
      ∃ fault, Stuck settings us mark fault ∧ f = .ofFault text fault := by
  obtain ⟨hmark, hus⟩ := kind_of_scan hscan
  rw [parse_of_scan hscan, reported_eq_error_iff]
  simp only [run_eq_error_iff hus hmark]

end Expression

theorem Mapping.parse_eq_ok_iff {m : Mapping} :
    parse settings text = .ok m ↔
      ∃ e, Expression.parse settings text = .ok e ∧ (ofExpression e).resolveWith settings = m := by
  rw [parse]
  cases Expression.parse settings text with
  | ok e => simp [Except.map]
  | error failure => simp [Except.map]

theorem Mapping.parse_eq_error_iff {f : Failure} :
    parse settings text = .error f ↔ Expression.parse settings text = .error f := by
  rw [parse]
  cases Expression.parse settings text with
  | ok e => simp [Except.map]
  | error failure => simp [Except.map]

end Typemap

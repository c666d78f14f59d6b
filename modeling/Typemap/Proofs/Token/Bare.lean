import Typemap.Expression.Values
import Typemap.Literal.Pattern
import Typemap.Proofs.Mapping.Quoting
import Typemap.Proofs.Token.Places

/-!
# Bare values are single words

A value needs no quotes if and only if it is the lexeme of a word, that is, if
the scan of it is this one word. The characters of words are those of the bare
pattern, character by character, so no text is bare for one of the two and not
for the other. What is written for any value is a single token.
-/

namespace Typemap

open Token

namespace Literal

theorem toNat_lt_of_isWordChar {c : Char} (h : isWordChar c = true) : c.toNat < 128 := by
  have hlast (z : Char) (hz : z.toNat < 128) (h : c.val ≤ z.val) : c.toNat < 128 :=
    Nat.lt_of_le_of_lt (UInt32.le_iff_toNat_le.1 h) hz
  have hcases : (((c.isUpper || c.isLower) || c.isDigit) || c == '.' || c == '_' || c == '$' ||
      c == '-' || c == '\x7b' || c == '\x7d') = true := h
  simp only [Bool.or_eq_true, beq_iff_eq] at hcases
  rcases hcases with (((((((h | h) | h) | rfl) | rfl) | rfl) | rfl) | rfl) | rfl
  · exact hlast 'Z' (by decide) (of_decide_eq_true h).2
  · exact hlast 'z' (by decide) (of_decide_eq_true (Bool.and_eq_true_iff.1 h).2)
  · exact hlast '9' (by decide) (of_decide_eq_true (Bool.and_eq_true_iff.1 h).2)
  all_goals decide

/-- The characters of the pattern are the word characters. Outside ASCII there
are neither. -/
theorem mem_bareCharacters {c : Char} : c ∈ bareCharacters ↔ isWordChar c = true := by
  by_cases hascii : c.toNat < 128
  · have hall : ∀ n < 128, Char.ofNat n ∈ bareCharacters ↔ isWordChar (Char.ofNat n) = true := by
      decide +kernel
    have hc := hall c.toNat hascii
    rwa [Char.ofNat_toNat] at hc
  · constructor
    · intro hmem
      have hall : bareCharacters.all (fun d => decide (d.toNat < 128)) = true := by decide +kernel
      exact absurd (of_decide_eq_true (List.all_eq_true.1 hall c hmem)) hascii
    · exact fun hword => absurd (toNat_lt_of_isWordChar hword) hascii

theorem mem_matches_oneOf {cs x : List Char} : x ∈ (oneOf cs).matches' ↔ ∃ c ∈ cs, x = [c] := by
  induction cs with
  | nil => simp [oneOf]
  | cons c cs ih =>
      rw [oneOf] at ih
      rw [oneOf, List.map_cons, List.sum_cons, RegularExpression.matches'_add, Language.mem_add, ih,
        List.exists_mem_cons_iff]
      exact Iff.rfl

theorem mem_matches_star_oneOf {cs x : List Char} :
    x ∈ (oneOf cs).star.matches' ↔ ∀ c ∈ x, c ∈ cs := by
  rw [RegularExpression.matches'_star, Language.mem_kstar]
  constructor
  · rintro ⟨pieces, rfl, hpieces⟩ c hc
    obtain ⟨piece, hpiece, hmem⟩ := List.mem_flatten.1 hc
    obtain ⟨d, hd, rfl⟩ := mem_matches_oneOf.1 (hpieces piece hpiece)
    rwa [List.mem_singleton.1 hmem]
  · intro h
    refine ⟨x.map fun c => [c], ?_, ?_⟩
    · rw [← List.flatMap_def, List.flatMap_singleton']
    · intro piece hpiece
      obtain ⟨c, hc, rfl⟩ := List.mem_map.1 hpiece
      exact mem_matches_oneOf.2 ⟨c, h c hc, rfl⟩

theorem mem_matches_barePattern {x : List Char} :
    x ∈ barePattern.matches' ↔ x ≠ [] ∧ ∀ c ∈ x, c ∈ bareCharacters := by
  rw [barePattern, RegularExpression.matches'_mul, Language.mem_mul]
  constructor
  · rintro ⟨_, hfirst, rest, hrest, rfl⟩
    obtain ⟨c, hc, rfl⟩ := mem_matches_oneOf.1 hfirst
    refine ⟨List.cons_ne_nil c rest, List.forall_mem_cons.2 ⟨hc, ?_⟩⟩
    exact mem_matches_star_oneOf.1 hrest
  · rintro ⟨hne, hall⟩
    obtain ⟨c, rest, rfl⟩ := List.exists_cons_of_ne_nil hne
    obtain ⟨hc, hrest⟩ := List.forall_mem_cons.1 hall
    exact ⟨[c], mem_matches_oneOf.2 ⟨c, hc, rfl⟩, rest, mem_matches_star_oneOf.2 hrest, rfl⟩

theorem needsQuotes_eq_false_iff {cs : List Char} :
    needsQuotes cs = false ↔ IsLexeme .word cs := by
  rw [isLexeme_word_iff]
  simp [needsQuotes]

theorem isLexeme_word_iff_matches {cs : List Char} :
    IsLexeme .word cs ↔ cs ∈ barePattern.matches' := by
  rw [isLexeme_word_iff, mem_matches_barePattern, List.all_eq_true]
  simp only [mem_bareCharacters]

end Literal

theorem isLexeme_written (content : String) :
    IsLexeme (writtenKind content) (written content).toList := by
  have hvalue := Value.wellFormed_ofContent content
  unfold Value.ofContent at hvalue
  unfold writtenKind
  split at hvalue
  · rwa [if_pos ‹_›]
  · rwa [if_neg ‹_›]

/-- A text that is one lexeme has one token. -/
theorem Token.scan_of_isLexeme {kind : Token.Kind} {text : String}
    (h : IsLexeme kind text.toList) :
    scan text = .ok [⟨kind, text, ⟨0, text.length⟩⟩, Token.eof text.length] := by
  have hends : EndsBefore [] kind := by cases kind <;> simp [EndsBefore]
  have hstop : Tiled (0 + text.toList.length) [] [Token.eof (0 + text.toList.length)] := .stop
  have htiled := Tiled.token h (hstop.apart hends) hstop
  rw [List.append_nil, String.ofList_toList, Nat.zero_add, String.length_toList] at htiled
  exact scan_eq_ok_of_tiled htiled

/-- A value needs no quotes exactly if the bare pattern matches it, and exactly if
its scan is a single word. No argument that is read off a text is bare if it
would need quotes, and what is written for a value is always a single token. -/
theorem bare_iff_scan (value : String) :
    (Literal.needsQuotes value.toList = false ↔
        value.toList ∈ Literal.barePattern.matches') ∧
      (Literal.needsQuotes value.toList = false ↔
        scan value = .ok [⟨.word, value, ⟨0, value.length⟩⟩, Token.eof value.length]) ∧
      (Literal.needsQuotes value.toList = true →
        ∀ (settings : Settings) (text : String) (e : Expression),
          Expression.parse settings text = .ok e → ∀ a ∈ e.arguments, a.value ≠ .bare value) ∧
      scan (written value) = .ok [⟨writtenKind value, written value, ⟨0, (written value).length⟩⟩,
        Token.eof (written value).length] := by
  rw [Literal.needsQuotes_eq_false_iff]
  refine ⟨Literal.isLexeme_word_iff_matches, ⟨scan_of_isLexeme, fun h => ?_⟩, ?_,
    scan_of_isLexeme (isLexeme_written value)⟩
  · exact (standsIn_of_mem h List.mem_cons_self (by simp)).isLexeme
  · intro hquotes settings text e hparse a ha hbare
    obtain ⟨source, clause⟩ := e
    cases clause with
    | map target => simp [Expression.arguments, Clause.arguments] at ha
    | annotate name arguments =>
        obtain ⟨-, -, -, -, hvalues⟩ := Expression.wellFormed_of_parse hparse
        have hvalue := hvalues a ha
        rw [hbare, Value.WellFormed, ← Literal.needsQuotes_eq_false_iff, hquotes] at hvalue
        exact Bool.noConfusion hvalue

end Typemap

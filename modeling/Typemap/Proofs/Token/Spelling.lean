import Typemap.Proofs.Token.Tiling

/-!
# Spelling token lists

A text spells token lists of a certain form if, wherever it stands, tokens of
that form tile it. Texts are put together piece by piece, and each piece only
has to know that the next one does not go on with its last token.
-/

namespace Typemap.Token

/-- In front of any tiling that does not go on with a token of the kind `last`,
the text is tiled by tokens of the form `p`. -/
def Spells (text : String) (last : Kind) (p : List Token → Prop) : Prop :=
  ∀ (offset : Nat) (rest : List Char) (ts : List Token), EndsBefore rest last →
    Tiled (offset + text.length) rest ts →
      ∃ us, p us ∧ Tiled offset (text.toList ++ rest) (us ++ ts)

/-- A single token with this kind and lexeme. -/
def Single (kind : Kind) (lexeme : String) (us : List Token) : Prop :=
  ∃ span, us = [⟨kind, lexeme, span⟩]

theorem endsBefore_cons {c : Char} (h : isWordChar c = false) (cs : List Char) :
    EndsBefore (c :: cs) .word := by
  intro d hd
  obtain rfl := Option.some.inj hd
  exact h

/-- No token but a bracket makes an arrow of an equals sign before it. -/
theorem endsBefore_equals_of_isLexeme {kind : Kind} {lexeme : List Char} (h : IsLexeme kind lexeme)
    (hkind : kind ≠ .rangle) (rest : List Char) : EndsBefore (lexeme ++ rest) .equals := by
  obtain ⟨c, piece, rfl⟩ := List.exists_cons_of_ne_nil (ne_nil_of_isLexeme h)
  intro hhead
  obtain rfl : c = '>' := Option.some.inj hhead
  generalize hlexeme : '>' :: piece = lexeme at h
  cases h with
  | sign hsign =>
      subst hlexeme
      cases kind <;> simp [Kind.sign?] at hsign hkind
  | word _ hall =>
      subst hlexeme
      simp [isWordChar] at hall
  | literal hq _ =>
      obtain ⟨rfl, -⟩ := List.cons.inj hlexeme
      simp [isQuote] at hq

theorem spells_lexeme {kind : Kind} {text : String} (h : IsLexeme kind text.toList) :
    Spells text kind (Single kind text) := by
  intro offset rest ts hends hts
  rw [← String.length_toList] at hts
  refine ⟨_, ⟨⟨offset, text.toList.length⟩, rfl⟩, ?_⟩
  have htiled := Tiled.token h (hts.apart hends) hts
  rwa [String.ofList_toList] at htiled

theorem spells_blank (last : Kind) : Spells " " last (· = []) :=
  fun _ _ _ _ hts => ⟨[], rfl, .blank rfl hts⟩

/-- Tokens of the form `p` and behind them tokens of the form `q`. -/
def Beside (p q : List Token → Prop) (us : List Token) : Prop :=
  ∃ vs ws, p vs ∧ q ws ∧ vs ++ ws = us

namespace Spells

variable {a b : String} {k l : Kind} {p q : List Token → Prop}

/-- The second text must end the last token of the first one. -/
theorem append (ha : Spells a k p) (hb : Spells b l q)
    (hends : ∀ rest, EndsBefore (b.toList ++ rest) k) : Spells (a ++ b) l (Beside p q) := by
  intro offset rest ts hrest hts
  rw [String.length_append, ← Nat.add_assoc] at hts
  obtain ⟨vs, hvs, htiled⟩ := hb (offset + a.length) rest ts hrest hts
  obtain ⟨us, hus, htiled⟩ := ha offset (b.toList ++ rest) (vs ++ ts) (hends rest) htiled
  refine ⟨us ++ vs, ⟨us, vs, hus, hvs, rfl⟩, ?_⟩
  rwa [String.toList_append, List.append_assoc, List.append_assoc]

theorem imp (h : Spells a k p) (hq : ∀ us, p us → q us) : Spells a k q := by
  intro offset rest ts hrest hts
  obtain ⟨us, hus, htiled⟩ := h offset rest ts hrest hts
  exact ⟨us, hq us hus, htiled⟩

/-- Only words and equals signs mind what follows them. -/
theorem ends (h : Spells a k p) (hk : ∀ rest, EndsBefore rest k) (l : Kind) : Spells a l p :=
  fun offset rest ts _ hts => h offset rest ts (hk rest) hts

/-- A text that stands alone. -/
theorem exists_scan (h : Spells a .word p) :
    ∃ us, p us ∧ scan a = .ok (us ++ [Token.eof a.length]) := by
  have hstop : Tiled (0 + a.length) [] [Token.eof (0 + a.length)] := .stop
  obtain ⟨us, hus, htiled⟩ := h 0 [] _ (fun c hc => by simp at hc) hstop
  refine ⟨us, hus, ?_⟩
  rw [Nat.zero_add, List.append_nil] at htiled
  exact scan_eq_ok_of_tiled htiled

end Spells

theorem spells_sign (kind : Kind) (text : String) (h : kind.sign? = some text.toList)
    (hequals : kind ≠ .equals) (last : Kind) : Spells text last (Single kind text) := by
  apply (spells_lexeme (.sign h)).ends
  apply endsBefore_sign _ hequals
  rintro rfl
  simp [Kind.sign?] at h

/-- A sign between two blanks. -/
theorem spells_spaced (kind : Kind) (text : String) (h : kind.sign? = some text.toList)
    (hequals : kind ≠ .equals) (last : Kind) :
    Spells (" " ++ text ++ " ") last (Single kind text) := by
  have hsign := spells_sign kind text h hequals .comma
  have hspaced := ((spells_blank .comma).append hsign fun _ => trivial).append
    (spells_blank last) fun _ => trivial
  apply hspaced.imp
  rintro _ ⟨_, _, ⟨_, us, rfl, hus, rfl⟩, rfl, rfl⟩
  simpa using hus

/-- A comma with or without a blank behind it. -/
structure IsSeparator (text : String) : Prop where
  spells : Spells text .comma (Single .comma ",")
  ends : ∀ rest, EndsBefore (text.toList ++ rest) .word

theorem isSeparator_comma : IsSeparator "," where
  spells := spells_sign .comma "," rfl (by decide) .comma
  ends rest := endsBefore_cons rfl rest

theorem isSeparator_comma_blank : IsSeparator ", " where
  spells := by
    have hcomma := spells_sign .comma "," rfl (by decide) .comma
    apply (hcomma.append (spells_blank .comma) fun _ => trivial).imp
    rintro _ ⟨us, _, hus, rfl, rfl⟩
    simpa using hus
  ends rest := endsBefore_cons rfl (' ' :: rest)

/-- Tokens for each of some items, with commas between neighbours. -/
inductive Separated {α : Type} (p : α → List Token → Prop) : List α → List Token → Prop where
  | last {a : α} {us : List Token} (h : p a us) : Separated p [a] us
  | more {a : α} {rest : List α} {us vs : List Token} {comma : Token} (h : p a us)
      (hcomma : comma.kind = .comma) (hrest : Separated p rest vs) :
      Separated p (a :: rest) (us ++ comma :: vs)

theorem spells_separated {separator : String} (hseparator : IsSeparator separator) {α : Type}
    {text : α → String} {p : α → List Token → Prop} {items : List α} (hne : items ≠ [])
    (h : ∀ a ∈ items, Spells (text a) .word (p a)) :
    Spells (separator.intercalate (items.map text)) .word (Separated p items) := by
  induction items with
  | nil => exact absurd rfl hne
  | cons a rest ih =>
      have ha := h a List.mem_cons_self
      by_cases hrest : rest = []
      · subst hrest
        rw [List.map_singleton, String.intercalate_singleton]
        exact ha.imp fun us hus => .last hus
      · have htail := ih hrest fun b hb => h b (List.mem_cons_of_mem a hb)
        rw [List.map_cons, String.intercalate_cons_of_ne_nil (by simpa using hrest)]
        apply ((ha.append hseparator.spells hseparator.ends).append htail fun _ => trivial).imp
        rintro _ ⟨_, vs, ⟨us, _, hus, ⟨span, rfl⟩, rfl⟩, hvs, rfl⟩
        rw [List.append_assoc, List.singleton_append]
        exact .more hus rfl hvs

end Typemap.Token

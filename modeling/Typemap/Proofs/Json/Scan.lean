import Typemap.Json.Scan
import Typemap.Json.Write

/-!
# Scanning what was written

A written token is scanned back, whatever follows it. Only a number must not run
on into the text behind it; as every sign ends a number, tokens can be put side
by side as long as no two scalars touch.
-/

namespace Typemap.Json

theorem hexValue?_hexDigit : ∀ n < 16, hexValue? (hexDigit n) = some n := by
  decide

theorem unit?_hexDigit {n : Nat} (h : n < 0x20) :
    unit? '0' '0' (hexDigit (n / 16)) (hexDigit (n % 16)) = some n := by
  have hzero : hexValue? '0' = some 0 := rfl
  have hhigh := hexValue?_hexDigit (n / 16) (by omega)
  have hlow := hexValue?_hexDigit (n % 16) (by omega)
  have hn : ((0 * 16 + 0) * 16 + n / 16) * 16 + n % 16 = n := by omega
  simp only [unit?, hzero, hhigh, hlow, hn]

section

variable {cs after text : List Char} {ps : List Piece}

theorem pieces?_escaped {c e : Char} (he : escaped? e = some c)
    (h : pieces? cs = some (ps, after)) :
    pieces? ('\\' :: e :: cs) = some (.char c :: ps, after) := by
  have hne : e ≠ 'u' := by
    rintro rfl
    simp [escaped?] at he
  rw [pieces?]
  · rw [he, h]
  · exact fun _ _ _ _ _ hu _ => hne hu

theorem pieces?_unit {a b c d : Char} {n : Nat} (hn : unit? a b c d = some n)
    (h : pieces? cs = some (ps, after)) :
    pieces? ('\\' :: 'u' :: a :: b :: c :: d :: cs) = some (.unit n :: ps, after) := by
  rw [pieces?, hn, h]

theorem pieces?_plain {c : Char} (hquote : c ≠ '"') (hshield : c ≠ '\\') (hc : ¬ c.toNat < 0x20)
    (h : pieces? cs = some (ps, after)) : pieces? (c :: cs) = some (.char c :: ps, after) := by
  rw [pieces?]
  · rw [if_neg hc, h]
  · exact fun hc => hquote hc
  · exact fun _ _ _ _ _ hc => absurd hc hshield
  · exact fun _ _ hc => absurd hc hshield

theorem assemble?_char (c : Char) (h : assemble? ps = some text) :
    assemble? (.char c :: ps) = some (c :: text) := by
  rw [assemble?, h, Option.map_some]

/-- A unit below the surrogates stands for itself, whatever unit follows it. -/
theorem assemble?_unit {n : Nat} (hn : n < 0xd800) (h : assemble? ps = some text) :
    assemble? (.unit n :: ps) = some (Char.ofNat n :: text) := by
  have hhigh : isHighSurrogate n = false := by simp [isHighSurrogate]; omega
  have hlow : isLowSurrogate n = false := by simp [isLowSurrogate]; omega
  match ps with
  | [] | .char _ :: _ => simp [assemble?, hhigh, hlow] at h ⊢; exact h
  | .unit m :: ps => simp [assemble?, hhigh, hlow, h]

end

/-- A character is written behind a backslash, as a unit, or as it is. -/
theorem escapeChar_cases (c : Char) :
    (∃ e, escaped? e = some c ∧ escapeChar c = ['\\', e]) ∨
      (c.toNat < 0x20 ∧ escapeChar c =
        ['\\', 'u', '0', '0', hexDigit (c.toNat / 16), hexDigit (c.toNat % 16)]) ∨
        (c ≠ '"' ∧ c ≠ '\\' ∧ ¬ c.toNat < 0x20 ∧ escapeChar c = [c]) := by
  unfold escapeChar
  iterate 7
    split
    · rename_i h
      refine .inl ⟨_, ?_, rfl⟩
      subst h
      rfl
  split
  · rename_i h
    exact .inr (.inl ⟨h, rfl⟩)
  · rename_i hquote hshield _ _ _ _ _ h
    exact .inr (.inr ⟨hquote, hshield, h, rfl⟩)

/-- The inside of a literal, with its closing quote, has pieces that make up the
text again. -/
theorem exists_pieces (text rest : List Char) :
    ∃ ps, pieces? (text.flatMap escapeChar ++ '"' :: rest) = some (ps, rest) ∧
      assemble? ps = some text := by
  induction text with
  | nil => exact ⟨[], rfl, rfl⟩
  | cons c text ih =>
      obtain ⟨ps, hps, htext⟩ := ih
      rw [List.flatMap_cons, List.append_assoc]
      rcases escapeChar_cases c with
        ⟨e, he, hescape⟩ | ⟨hc, hescape⟩ | ⟨hquote, hshield, hc, hescape⟩
      · rw [hescape]
        exact ⟨_, pieces?_escaped he hps, assemble?_char c htext⟩
      · rw [hescape]
        refine ⟨_, pieces?_unit (unit?_hexDigit hc) hps, ?_⟩
        rw [assemble?_unit (by omega) htext, Char.ofNat_toNat]
      · rw [hescape]
        exact ⟨_, pieces?_plain hquote hshield hc hps, assemble?_char c htext⟩

/-- A text that does not go on with a number before it. -/
def EndsNumber (rest : List Char) : Prop :=
  ∀ c ∈ rest.head?, c.isDigit = false ∧ c ≠ '.' ∧ c ≠ 'e' ∧ c ≠ 'E'

section

variable {rest : List Char}

theorem digits_append {ds : List Char} (hds : ∀ c ∈ ds, c.isDigit = true)
    (hrest : ∀ c ∈ rest.head?, c.isDigit = false) :
    digits (ds ++ rest) = ds ∧ behindDigits (ds ++ rest) = rest := by
  have hstop : digits rest = [] ∧ behindDigits rest = rest := by
    cases rest with
    | nil => exact ⟨rfl, rfl⟩
    | cons c cs => simp [digits, behindDigits, hrest c rfl]
  rw [digits, behindDigits, List.takeWhile_append_of_pos hds, List.dropWhile_append_of_pos hds]
  exact ⟨by rw [← digits, hstop.1, List.append_nil], hstop.2⟩

theorem isDigit_of_mem_toDigits (n : Nat) : ∀ c ∈ Nat.toDigits 10 n, c.isDigit = true :=
  fun _ hc => Nat.isDigit_of_mem_toDigits (by decide) (by decide) hc

theorem digits_toDigits (n : Nat) (hrest : ∀ c ∈ rest.head?, c.isDigit = false) :
    digits (Nat.toDigits 10 n ++ rest) = Nat.toDigits 10 n ∧
      behindDigits (Nat.toDigits 10 n ++ rest) = rest :=
  digits_append (isDigit_of_mem_toDigits n) hrest

@[simp] theorem ofDigitChars_toDigits (n : Nat) : Nat.ofDigitChars 10 (Nat.toDigits 10 n) 0 = n :=
  Nat.ofDigitChars_toDigits (by decide) (by decide)

/-- Only zero is written with a zero in front. -/
theorem head?_toDigits_ne {n : Nat} (h : 0 < n) : (Nat.toDigits 10 n).head? ≠ some '0' := by
  induction n using Nat.strongRecOn with
  | ind n ih =>
      by_cases hn : n < 10
      · have hdigit : ∀ d < 10, 0 < d → Nat.digitChar d ≠ '0' := by decide
        rw [Nat.toDigits_of_lt_base hn, List.head?_cons]
        exact fun hzero => hdigit n hn h (Option.some.inj hzero)
      · have hquotient := ih (n / 10) (by omega) (by omega)
        obtain ⟨c, cs, hdigits⟩ := List.exists_cons_of_ne_nil
          (Nat.toDigits_ne_nil (n := n / 10) (b := 10))
        rw [Nat.toDigits_of_base_le (by decide) (by omega), hdigits]
        rwa [hdigits] at hquotient

theorem exists_head_toDigits (n : Nat) :
    ∃ c cs, Nat.toDigits 10 n = c :: cs ∧ c.isDigit = true := by
  obtain ⟨c, cs, hn⟩ := List.exists_cons_of_ne_nil (Nat.toDigits_ne_nil (n := n) (b := 10))
  exact ⟨c, cs, hn, isDigit_of_mem_toDigits n c (by rw [hn]; exact List.mem_cons_self)⟩

/-- Written digits pass for the whole part of a number. -/
theorem isWhole_toDigits (n : Nat) :
    ((Nat.toDigits 10 n).isEmpty ||
      ((Nat.toDigits 10 n).head? == some '0' && (Nat.toDigits 10 n).length ≠ 1)) = false := by
  rcases Nat.eq_zero_or_pos n with rfl | h
  · rfl
  · simp [Nat.toDigits_ne_nil, head?_toDigits_ne h]

theorem EndsNumber.isDigit (h : EndsNumber rest) : ∀ c ∈ rest.head?, c.isDigit = false :=
  fun c hc => (h c hc).1

theorem EndsNumber.fraction? (h : EndsNumber rest) : Json.fraction? rest = some ([], rest) := by
  cases rest with
  | nil => rfl
  | cons c cs =>
      unfold Json.fraction?
      split
      · rename_i heq
        obtain ⟨rfl, -⟩ := List.cons.inj heq
        exact absurd rfl (h '.' rfl).2.1
      · rfl

theorem EndsNumber.exponent? (h : EndsNumber rest) : Json.exponent? rest = some (none, rest) := by
  cases rest with
  | nil => rfl
  | cons c cs =>
      obtain ⟨-, -, he, hE⟩ := h c rfl
      simp [Json.exponent?, he, hE]

theorem number?_natural (n : Nat) (h : EndsNumber rest) :
    number? false (Nat.toDigits 10 n ++ rest) = some (.natural n, rest) := by
  obtain ⟨hdigits, hbehind⟩ := digits_toDigits n h.isDigit
  simp only [number?, hdigits, hbehind, isWhole_toDigits, h.fraction?, h.exponent?,
    List.append_nil, ofDigitChars_toDigits]
  rfl

theorem exponentDigits?_toDigits (negative : Bool) (n : Nat) (h : EndsNumber rest) :
    exponentDigits? negative (Nat.toDigits 10 n ++ rest) =
      some (if negative then -(n : Int) else n, rest) := by
  obtain ⟨hdigits, hbehind⟩ := digits_toDigits n h.isDigit
  simp [exponentDigits?, hdigits, hbehind, Nat.toDigits_ne_nil]

/-- The sign of an exponent is written in front of its digits. -/
theorem exponent?_written (exponent : Int) (h : EndsNumber rest) :
    exponent? ('e' :: ((if exponent < 0 then ['-'] else []) ++
        Nat.toDigits 10 exponent.natAbs ++ rest)) = some (some exponent, rest) := by
  by_cases hneg : exponent < 0
  · have habs : -(exponent.natAbs : Int) = exponent := by omega
    have hdigits := exponentDigits?_toDigits true exponent.natAbs h
    rw [if_pos rfl, habs] at hdigits
    rw [if_pos hneg, List.singleton_append, List.cons_append]
    simp only [exponent?, true_or, if_true, hdigits, Option.map_some]
  · have habs : (exponent.natAbs : Int) = exponent := by omega
    have hdigits := exponentDigits?_toDigits false exponent.natAbs h
    obtain ⟨c, cs, hn, hc⟩ := exists_head_toDigits exponent.natAbs
    have hminus : c ≠ '-' := by
      rintro rfl
      simp at hc
    have hplus : c ≠ '+' := by
      rintro rfl
      simp at hc
    rw [if_neg Bool.false_ne_true, habs, hn, List.cons_append] at hdigits
    rw [if_neg hneg, List.nil_append, hn, List.cons_append]
    simp [exponent?, hminus, hplus, hdigits]

theorem number?_decimal (negative : Bool) (n : Nat) {tail : List Char} {exponent : Int}
    (h : exponent? ('e' :: tail) = some (some exponent, rest)) :
    number? negative (Nat.toDigits 10 n ++ 'e' :: tail) =
      some (.decimal negative n exponent, rest) := by
  obtain ⟨hdigits, hbehind⟩ := @digits_toDigits ('e' :: tail) n (by simp)
  simp only [number?, hdigits, hbehind, isWhole_toDigits, Bool.false_eq_true, if_false]
  simp [fraction?, h]

end

/-- The token is the first piece of the text, and `rest` is what follows it. -/
def CutsOff (t : Token) (cs rest : List Char) : Prop :=
  ∃ c tail, cs = c :: tail ∧ isGap c = false ∧ token? c tail = some (t, rest)

theorem CutsOff.scan? {t : Token} {cs rest : List Char} (h : CutsOff t cs rest) :
    Json.scan? cs = (Json.scan? rest).map (t :: ·) := by
  obtain ⟨c, tail, rfl, hgap, htoken⟩ := h
  rw [Json.scan?, if_neg (by rw [hgap]; exact Bool.false_ne_true)]
  split
  · rename_i hnone
    simp [htoken] at hnone
  · rename_i t' rest' hsome
    obtain ⟨rfl, rfl⟩ := Prod.mk.inj (Option.some.inj (htoken.symm.trans hsome))
    rfl

/-- The tokens that are no scalars. Each of them is one character, which ends a
number. -/
def Token.isSign : Token → Bool
  | scalar _ => false
  | _ => true

theorem Token.endsNumber_of_isSign {t : Token} (h : t.isSign = true) (rest : List Char) :
    EndsNumber (t.spelling ++ rest) := by
  intro c hc
  cases t with
  | scalar s => simp [isSign] at h
  | openArray | closeArray | openObject | closeObject | colon | comma =>
      obtain rfl := Option.some.inj hc
      decide

theorem Token.cutsOff_of_isSign {t : Token} (h : t.isSign = true) (rest : List Char) :
    CutsOff t (t.spelling ++ rest) rest := by
  cases t with
  | scalar s => simp [isSign] at h
  | openArray | closeArray | openObject | closeObject | colon | comma =>
      exact ⟨_, _, rfl, rfl, rfl⟩

namespace Scalar

variable {rest : List Char}

theorem token?_of_isDigit {c : Char} (h : c.isDigit = true) (cs : List Char) :
    token? c cs = (number? false (c :: cs)).map fun (s, rest) => (.scalar s, rest) := by
  unfold token?
  split
  case h_12 => rfl
  all_goals simp at h

theorem isGap_of_isDigit {c : Char} (h : c.isDigit = true) : isGap c = false := by
  cases hgap : isGap c with
  | false => rfl
  | true =>
      simp only [isGap, Bool.or_eq_true, beq_iff_eq] at hgap
      rcases hgap with ((rfl | rfl) | rfl) | rfl <;> simp at h

/-- A number that is written without a sign. -/
theorem cutsOff_of_number {c : Char} {cs : List Char} {s : Scalar} (hc : c.isDigit = true)
    (h : number? false (c :: cs) = some (s, rest)) : CutsOff (.scalar s) (c :: cs) rest := by
  refine ⟨c, cs, rfl, isGap_of_isDigit hc, ?_⟩
  rw [token?_of_isDigit hc, h, Option.map_some]

theorem cutsOff_signed {cs : List Char} {s : Scalar} (h : number? true cs = some (s, rest)) :
    CutsOff (.scalar s) ('-' :: cs) rest :=
  ⟨'-', cs, rfl, rfl, by simp [token?, h]⟩

theorem cutsOff_literal {content : Text} {cs : List Char} {ps : List Piece}
    (hpieces : pieces? cs = some (ps, rest))
    (hcontent : (assemble? ps).map String.ofList = content) :
    CutsOff (.scalar (.string content)) ('"' :: cs) rest := by
  refine ⟨'"', cs, rfl, rfl, ?_⟩
  simp [token?, hpieces, hcontent]

theorem cutsOff_null (rest : List Char) :
    CutsOff (.scalar .null) (spelling .null ++ rest) rest :=
  ⟨'n', 'u' :: 'l' :: 'l' :: rest, rfl, rfl, by simp [token?, behind?]⟩

theorem cutsOff_bool (b : Bool) (rest : List Char) :
    CutsOff (.scalar (.bool b)) (spelling (.bool b) ++ rest) rest := by
  cases b with
  | false => exact ⟨'f', 'a' :: 'l' :: 's' :: 'e' :: rest, rfl, rfl, by simp [token?, behind?]⟩
  | true => exact ⟨'t', 'r' :: 'u' :: 'e' :: rest, rfl, rfl, by simp [token?, behind?]⟩

theorem cutsOff_natural (n : Nat) (h : EndsNumber rest) :
    CutsOff (.scalar (.natural n)) (spelling (.natural n) ++ rest) rest := by
  have hnumber := number?_natural n h
  obtain ⟨c, cs, hn, hc⟩ := exists_head_toDigits n
  rw [spelling, hn, List.cons_append]
  rw [hn, List.cons_append] at hnumber
  exact cutsOff_of_number hc hnumber

theorem cutsOff_decimal (negative : Bool) (digits : Nat) (exponent : Int) (h : EndsNumber rest) :
    CutsOff (.scalar (.decimal negative digits exponent))
      (spelling (.decimal negative digits exponent) ++ rest) rest := by
  have hnumber := number?_decimal negative digits (exponent?_written exponent h)
  cases negative with
  | true => simpa [spelling] using cutsOff_signed hnumber
  | false =>
      obtain ⟨c, cs, hn, hc⟩ := exists_head_toDigits digits
      rw [hn, List.cons_append] at hnumber
      have hcut := cutsOff_of_number hc hnumber
      simpa [spelling, hn] using hcut

/-- A text is written as its literal; a literal without text, as half a pair. -/
theorem cutsOff_string (content : Text) (rest : List Char) :
    CutsOff (.scalar (.string content)) (spelling (.string content) ++ rest) rest := by
  cases content with
  | none =>
      have hlone : pieces? ('\\' :: 'u' :: 'd' :: '8' :: '0' :: '0' :: '"' :: rest) =
          some ([.unit 0xd800], rest) := pieces?_unit rfl rfl
      have hcontent : (assemble? [.unit 0xd800]).map String.ofList = none := rfl
      exact cutsOff_literal hlone hcontent
  | some text =>
      obtain ⟨ps, hps, htext⟩ := exists_pieces text.toList rest
      have hcontent : (assemble? ps).map String.ofList = some text := by
        rw [htext, Option.map_some, String.ofList_toList]
      simpa [spelling, literal] using cutsOff_literal hps hcontent

theorem cutsOff_spelling (s : Scalar) (h : EndsNumber rest) :
    CutsOff (.scalar s) (s.spelling ++ rest) rest := by
  cases s with
  | null => exact cutsOff_null rest
  | bool b => exact cutsOff_bool b rest
  | natural n => exact cutsOff_natural n h
  | decimal negative digits exponent => exact cutsOff_decimal negative digits exponent h
  | string content => exact cutsOff_string content rest

end Scalar

/-- In front of a text that ends a number, the tokens are scanned back. -/
def Scans (ts : List Token) : Prop :=
  ∀ rest, EndsNumber rest →
    scan? (ts.flatMap (·.spelling) ++ rest) = (scan? rest).map (ts ++ ·)

namespace Scans

variable {ts us : List Token}

theorem scalar (s : Scalar) : Scans [.scalar s] := by
  intro rest hrest
  have hcut := (s.cutsOff_spelling hrest).scan?
  simpa [Token.spelling] using hcut

theorem sign {t : Token} (ht : t.isSign = true) (h : Scans ts) : Scans (t :: ts) := by
  intro rest hrest
  have hcut := (t.cutsOff_of_isSign ht (ts.flatMap (·.spelling) ++ rest)).scan?
  rw [List.flatMap_cons, List.append_assoc, hcut, h rest hrest, Option.map_map]
  rfl

theorem nil : Scans [] := by
  intro rest _
  simp

/-- Tokens that a sign follows. -/
theorem append {t : Token} (h : Scans ts) (ht : t.isSign = true) (hus : Scans (t :: us)) :
    Scans (ts ++ t :: us) := by
  intro rest hrest
  have hends : EndsNumber ((t :: us).flatMap (·.spelling) ++ rest) := by
    rw [List.flatMap_cons, List.append_assoc]
    exact t.endsNumber_of_isSign ht _
  rw [List.flatMap_append, List.append_assoc, h _ hends, hus rest hrest, Option.map_map]
  simp [Function.comp_def]

theorem scan?_spelling (h : Scans ts) : scan? (ts.flatMap (·.spelling)) = some ts := by
  have hends : EndsNumber [] := fun c hc => by simp at hc
  simpa using h [] hends

end Scans

end Typemap.Json

import Typemap.Json.Basic

/-!
# Cutting JSON text into tokens

Blanks are space, tabulator, line feed and carriage return. Numbers have no
leading zeros and no plus sign. Strings hold no bare control characters, and an
escape of four hexadecimal digits names a UTF-16 unit, of which a high and a low
surrogate in a row make one character.
-/

namespace Typemap.Json

def isGap (c : Char) : Bool := c == ' ' || c == '\t' || c == '\n' || c == '\r'

/-- A piece of a string literal: a character, or a UTF-16 unit by its number. -/
inductive Piece where
  | char (c : Char)
  | unit (n : Nat)
  deriving DecidableEq, Repr

def hexValue? (c : Char) : Option Nat :=
  if c.isDigit then some (c.toNat - '0'.toNat)
  else if 'a' ≤ c && c ≤ 'f' then some (c.toNat - 'a'.toNat + 10)
  else if 'A' ≤ c && c ≤ 'F' then some (c.toNat - 'A'.toNat + 10)
  else none

def unit? (a b c d : Char) : Option Nat :=
  match hexValue? a, hexValue? b, hexValue? c, hexValue? d with
  | some a, some b, some c, some d => some (((a * 16 + b) * 16 + c) * 16 + d)
  | _, _, _, _ => none

def escaped? : Char → Option Char
  | '"' => some '"'
  | '\\' => some '\\'
  | '/' => some '/'
  | 'b' => some '\x08'
  | 'f' => some '\x0c'
  | 'n' => some '\n'
  | 'r' => some '\r'
  | 't' => some '\t'
  | _ => none

/-- The pieces up to the closing quote, and what follows it. -/
def pieces? : List Char → Option (List Piece × List Char)
  | [] => none
  | '"' :: rest => some ([], rest)
  | '\\' :: 'u' :: a :: b :: c :: d :: rest =>
      match unit? a b c d, pieces? rest with
      | some n, some (pieces, after) => some (.unit n :: pieces, after)
      | _, _ => none
  | '\\' :: c :: rest =>
      match escaped? c, pieces? rest with
      | some c, some (pieces, after) => some (.char c :: pieces, after)
      | _, _ => none
  | c :: rest =>
      if c.toNat < 0x20 then none
      else match pieces? rest with
        | some (pieces, after) => some (.char c :: pieces, after)
        | none => none

def isHighSurrogate (n : Nat) : Bool := 0xd800 ≤ n && n < 0xdc00

def isLowSurrogate (n : Nat) : Bool := 0xdc00 ≤ n && n < 0xe000

/-- The text of the pieces, unless a surrogate lacks its partner. -/
def assemble? : List Piece → Option (List Char)
  | [] => some []
  | .char c :: pieces => (assemble? pieces).map (c :: ·)
  | .unit high :: .unit low :: pieces =>
      if isHighSurrogate high then
        if isLowSurrogate low then
          (assemble? pieces).map
            (Char.ofNat (0x10000 + (high - 0xd800) * 0x400 + (low - 0xdc00)) :: ·)
        else none
      else if isLowSurrogate high then none
      else (assemble? (.unit low :: pieces)).map (Char.ofNat high :: ·)
  | .unit n :: pieces =>
      if isHighSurrogate n || isLowSurrogate n then none
      else (assemble? pieces).map (Char.ofNat n :: ·)

def behind? : List Char → List Char → Option (List Char)
  | [], cs => some cs
  | w :: ws, c :: cs => if w = c then behind? ws cs else none
  | _ :: _, [] => none

def digits (cs : List Char) : List Char := cs.takeWhile Char.isDigit

def behindDigits (cs : List Char) : List Char := cs.dropWhile Char.isDigit

/-- The digits behind a point, or none when there is no point. -/
def fraction? : List Char → Option (List Char × List Char)
  | '.' :: cs => if (digits cs).isEmpty then none else some (digits cs, behindDigits cs)
  | cs => some ([], cs)

def exponentDigits? (negative : Bool) (cs : List Char) : Option (Int × List Char) :=
  if (digits cs).isEmpty then none
  else
    let n : Int := Nat.ofDigitChars 10 (digits cs) 0
    some (if negative then -n else n, behindDigits cs)

/-- An exponent behind its letter, or none when there is no such letter. -/
def exponent? : List Char → Option (Option Int × List Char)
  | c :: cs =>
      if c = 'e' ∨ c = 'E' then
        (match cs with
          | '-' :: cs => exponentDigits? true cs
          | '+' :: cs => exponentDigits? false cs
          | cs => exponentDigits? false cs).map fun (n, rest) => (some n, rest)
      else some (none, c :: cs)
  | [] => some (none, [])

/-- The number at the front of `cs`, behind its sign. -/
def number? (negative : Bool) (cs : List Char) : Option (Scalar × List Char) :=
  let whole := digits cs
  if whole.isEmpty || (whole.head? == some '0' && whole.length ≠ 1) then none
  else match fraction? (behindDigits cs) with
    | none => none
    | some (fraction, rest) =>
        match exponent? rest with
        | none => none
        | some (exponent, rest) =>
            let n := Nat.ofDigitChars 10 (whole ++ fraction) 0
            if !negative && fraction.isEmpty && exponent.isNone then some (.natural n, rest)
            else some (.decimal negative n (exponent.getD 0 - fraction.length), rest)

/-- The token at the front of `c :: cs`, and what follows it. -/
def token? (c : Char) (cs : List Char) : Option (Token × List Char) :=
  match c with
  | '[' => some (.openArray, cs)
  | ']' => some (.closeArray, cs)
  | '{' => some (.openObject, cs)
  | '}' => some (.closeObject, cs)
  | ':' => some (.colon, cs)
  | ',' => some (.comma, cs)
  | '"' =>
      (pieces? cs).map fun (pieces, rest) =>
        (.scalar (.string ((assemble? pieces).map String.ofList)), rest)
  | 'n' => (behind? "ull".toList cs).map fun rest => (.scalar .null, rest)
  | 't' => (behind? "rue".toList cs).map fun rest => (.scalar (.bool true), rest)
  | 'f' => (behind? "alse".toList cs).map fun rest => (.scalar (.bool false), rest)
  | '-' => (number? true cs).map fun (s, rest) => (.scalar s, rest)
  | _ => (number? false (c :: cs)).map fun (s, rest) => (.scalar s, rest)

theorem length_digits_add (cs : List Char) :
    (digits cs).length + (behindDigits cs).length = cs.length := by
  rw [← List.length_append, digits, behindDigits, List.takeWhile_append_dropWhile]

theorem length_pieces? {cs after : List Char} {pieces : List Piece}
    (h : pieces? cs = some (pieces, after)) : after.length < cs.length := by
  fun_induction pieces? cs generalizing pieces after with
  | case1 => simp at h
  | case2 rest =>
      obtain ⟨-, rfl⟩ := Prod.mk.inj (Option.some.inj h)
      simp
  | case3 a b c d rest n ps after' hrest _ ih =>
      obtain ⟨-, rfl⟩ := Prod.mk.inj (Option.some.inj h)
      have := ih hrest
      simp only [List.length_cons]
      omega
  | case4 => simp at h
  | case5 c rest _ c' ps after' hrest _ ih =>
      obtain ⟨-, rfl⟩ := Prod.mk.inj (Option.some.inj h)
      have := ih hrest
      simp only [List.length_cons]
      omega
  | case6 => simp at h
  | case7 => simp at h
  | case8 c rest _ _ _ _ ps after' hrest ih =>
      obtain ⟨-, rfl⟩ := Prod.mk.inj (Option.some.inj h)
      have := ih hrest
      simp only [List.length_cons]
      omega
  | case9 => simp at h

theorem length_behind? {ws cs rest : List Char} (h : behind? ws cs = some rest) :
    rest.length ≤ cs.length := by
  fun_induction behind? ws cs with
  | case1 => simp_all
  | case2 w ws cs ih =>
      have := ih h
      simp only [List.length_cons]
      omega
  | case3 => simp at h
  | case4 => simp at h

theorem length_fraction? {cs fraction rest : List Char} (h : fraction? cs = some (fraction, rest)) :
    rest.length ≤ cs.length := by
  unfold fraction? at h
  split at h
  · rename_i cs
    split at h
    · simp at h
    · obtain ⟨-, rfl⟩ := Prod.mk.inj (Option.some.inj h)
      have := length_digits_add cs
      simp only [List.length_cons]
      omega
  · obtain ⟨-, rfl⟩ := Prod.mk.inj (Option.some.inj h)
    exact Nat.le_refl _

theorem length_exponentDigits? {negative : Bool} {cs rest : List Char} {n : Int}
    (h : exponentDigits? negative cs = some (n, rest)) : rest.length ≤ cs.length := by
  unfold exponentDigits? at h
  split at h
  · simp at h
  · obtain ⟨-, rfl⟩ := Prod.mk.inj (Option.some.inj h)
    have := length_digits_add cs
    omega

theorem length_exponent? {cs rest : List Char} {exponent : Option Int}
    (h : exponent? cs = some (exponent, rest)) : rest.length ≤ cs.length := by
  unfold exponent? at h
  split at h
  · rename_i c cs
    split at h
    · obtain ⟨⟨n, rest'⟩, h', heq⟩ := Option.map_eq_some_iff.1 h
      obtain ⟨-, rfl⟩ := Prod.mk.inj heq
      split at h' <;>
        · have := length_exponentDigits? h'
          simp only [List.length_cons] at this ⊢
          omega
    · obtain ⟨-, rfl⟩ := Prod.mk.inj (Option.some.inj h)
      exact Nat.le_refl _
  · obtain ⟨-, rfl⟩ := Prod.mk.inj (Option.some.inj h)
    exact Nat.le_refl _

theorem length_number? {negative : Bool} {cs rest : List Char} {s : Scalar}
    (h : number? negative cs = some (s, rest)) : rest.length < cs.length := by
  unfold number? at h
  simp only at h
  split at h
  · simp at h
  · rename_i hwhole
    split at h
    · simp at h
    · rename_i fraction rest₁ hfraction
      split at h
      · simp at h
      · rename_i exponent rest₂ hexponent
        have hpos : 0 < (digits cs).length := by
          cases hd : digits cs with
          | nil => simp [hd] at hwhole
          | cons d ds => simp
        have h₀ := length_digits_add cs
        have h₁ := length_fraction? hfraction
        have h₂ := length_exponent? hexponent
        have : rest = rest₂ := by
          split at h <;> exact (Prod.mk.inj (Option.some.inj h)).2.symm
        subst this
        omega

theorem length_token? {c : Char} {cs rest : List Char} {t : Token}
    (h : token? c cs = some (t, rest)) : rest.length ≤ cs.length := by
  unfold token? at h
  split at h
  case h_7 =>
    obtain ⟨⟨_, _⟩, h', heq⟩ := Option.map_eq_some_iff.1 h
    obtain ⟨-, rfl⟩ := Prod.mk.inj heq
    exact Nat.le_of_lt (length_pieces? h')
  case h_8 | h_9 | h_10 =>
    obtain ⟨_, h', heq⟩ := Option.map_eq_some_iff.1 h
    obtain ⟨-, rfl⟩ := Prod.mk.inj heq
    exact length_behind? h'
  case h_11 =>
    obtain ⟨⟨_, _⟩, h', heq⟩ := Option.map_eq_some_iff.1 h
    obtain ⟨-, rfl⟩ := Prod.mk.inj heq
    exact Nat.le_of_lt (length_number? h')
  case h_12 =>
    obtain ⟨⟨_, _⟩, h', heq⟩ := Option.map_eq_some_iff.1 h
    obtain ⟨-, rfl⟩ := Prod.mk.inj heq
    exact Nat.le_of_lt_succ (length_number? h')
  all_goals
    obtain ⟨-, rfl⟩ := Prod.mk.inj (Option.some.inj h)
    exact Nat.le_refl _

/-- The tokens of a text, if it is made of tokens and blanks. -/
def scan? : List Char → Option (List Token)
  | [] => some []
  | c :: cs =>
      if isGap c then scan? cs
      else match _h : token? c cs with
        | none => none
        | some (t, rest) => (scan? rest).map (t :: ·)
  termination_by cs => cs.length
  decreasing_by
    · exact Nat.lt_succ_self _
    · exact Nat.lt_succ_of_le (length_token? _h)

@[simp] theorem scan?_nil : scan? [] = some [] := by
  rw [scan?]

end Typemap.Json

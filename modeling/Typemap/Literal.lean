import Typemap.Text.CharClass

/-!
# Quoted literals and bare values

A value is either a word or a literal: a quote, any characters in which a
backslash shields the next one, and the same quote again. `close` finds the end
of a literal, `content` reads a written value, and `write` writes one. Reading
undoes writing for every text.
-/

namespace Typemap.Literal

/-- Splits what follows the opening quote `q` behind the first unshielded `q`.
The first part holds that closing quote. -/
def close (q : Char) : List Char → Option (List Char × List Char)
  | [] => none
  | '\\' :: c :: rest =>
      (close q rest).map fun (body, after) => ('\\' :: c :: body, after)
  | c :: rest =>
      if c = q then some ([c], rest)
      else (close q rest).map fun (body, after) => (c :: body, after)

theorem append_of_close {q : Char} {cs body after : List Char}
    (h : close q cs = some (body, after)) : body ++ after = cs := by
  fun_induction close q cs generalizing body after with
  | case1 => simp at h
  | case2 c rest ih =>
      obtain ⟨⟨body', after'⟩, h', heq⟩ := Option.map_eq_some_iff.1 h
      obtain ⟨rfl, rfl⟩ := Prod.mk.inj heq
      simp [ih h']
  | case3 rest =>
      obtain ⟨rfl, rfl⟩ := Prod.mk.inj (Option.some.inj h)
      rfl
  | case4 c rest _ _ ih =>
      obtain ⟨⟨body', after'⟩, h', heq⟩ := Option.map_eq_some_iff.1 h
      obtain ⟨rfl, rfl⟩ := Prod.mk.inj heq
      simp [ih h']

/-- Drops the backslashes that shield a character, and a last one that shields
nothing. -/
def unescape : List Char → List Char
  | [] => []
  | ['\\'] => []
  | '\\' :: c :: rest => c :: unescape rest
  | c :: rest => c :: unescape rest

def escape : List Char → List Char
  | [] => []
  | c :: rest => if c = '"' ∨ c = '\\' then '\\' :: c :: escape rest else c :: escape rest

/-- A text of two characters or more that begins and ends with the same quote. -/
def isQuoted : List Char → Bool
  | q :: c :: rest => isQuote q && (c :: rest).getLast? == some q
  | _ => false

/-- What a written value stands for. A word stands for itself. -/
def content (text : List Char) : List Char :=
  if isQuoted text then unescape text.tail.dropLast else text

/-- A value that is no word cannot be written bare. -/
def needsQuotes (value : List Char) : Bool :=
  value.isEmpty || !value.all isWordChar

/-- Writes a value bare where that is possible, else between double quotes. -/
def write (value : List Char) : List Char :=
  if needsQuotes value then '"' :: escape value ++ ['"'] else value

@[simp] theorem unescape_escape (value : List Char) : unescape (escape value) = value := by
  induction value with
  | nil => rfl
  | cons c rest ih =>
      by_cases h : c = '"' ∨ c = '\\'
      · simp [escape, h, unescape, ih]
      · have hc : c ≠ '\\' := fun hc => h (.inr hc)
        rw [escape, if_neg h, unescape, ih]
        · exact fun h' => absurd h' hc
        · exact fun _ _ h' => absurd h' hc

theorem isQuoted_delimited {q : Char} (hq : isQuote q = true) (body : List Char) :
    isQuoted (q :: body ++ [q]) = true := by
  cases body with
  | nil => simp [isQuoted, hq]
  | cons c body =>
      rw [List.cons_append, List.cons_append, isQuoted, ← List.cons_append, List.getLast?_concat]
      simp [hq]

theorem isQuoted_of_word {text : List Char} (h : text.all isWordChar) : isQuoted text = false := by
  match text with
  | [] | [_] => rfl
  | q :: c :: rest =>
      have hq : isWordChar q = true := by simp at h; exact h.1
      simp [isQuoted, isQuote_eq_false_of_isWordChar hq]

@[simp] theorem content_write (value : List Char) : content (write value) = value := by
  unfold write
  split
  · rw [content, if_pos (isQuoted_delimited (by decide) _)]
    simp
  · rename_i h
    simp only [needsQuotes, Bool.or_eq_true, Bool.not_eq_eq_eq_not, Bool.not_true, not_or,
      Bool.not_eq_false] at h
    simp [content, isQuoted_of_word h.2]

end Typemap.Literal

/-!
# The package placeholder

A type name may leave its package open. `fill` puts a package into every place
where the placeholder stands, from left to right and without overlap.
-/

namespace Typemap.Placeholder

def text : List Char := "\x7bpackage-name\x7d".toList

theorem text_ne_nil : text ≠ [] := by decide

/-- What is left of `cs` behind a placeholder at its front. -/
def strip? (cs : List Char) : Option (List Char) := text.isPrefixOf? cs

theorem isPrefixOf?_cons_cons (a c : Char) (front cs : List Char) :
    (a :: front).isPrefixOf? (c :: cs) = if a == c then front.isPrefixOf? cs else none := rfl

theorem isPrefixOf?_eq_some_iff (front cs rest : List Char) :
    front.isPrefixOf? cs = some rest ↔ front ++ rest = cs := by
  induction front generalizing cs with
  | nil =>
      show some cs = some rest ↔ rest = cs
      rw [Option.some.injEq, eq_comm]
  | cons a front ih =>
      cases cs with
      | nil =>
          show none = some rest ↔ a :: front ++ rest = []
          simp
      | cons c cs =>
          rw [isPrefixOf?_cons_cons]
          by_cases h : a = c
          · simp [h, ih]
          · simp [h]

theorem strip?_eq_some_iff {cs rest : List Char} : strip? cs = some rest ↔ text ++ rest = cs :=
  isPrefixOf?_eq_some_iff text cs rest

theorem length_lt_of_strip? {cs rest : List Char} (h : strip? cs = some rest) :
    rest.length < cs.length := by
  rw [← strip?_eq_some_iff.1 h, List.length_append]
  exact Nat.lt_add_of_pos_left (List.length_pos_iff.2 text_ne_nil)

def fill (package : List Char) : List Char → List Char
  | [] => []
  | c :: cs =>
      match _h : strip? (c :: cs) with
      | some rest => package ++ fill package rest
      | none => c :: fill package cs
  termination_by cs => cs.length
  decreasing_by
    · exact length_lt_of_strip? _h
    · exact Nat.lt_succ_self _

@[simp] theorem fill_nil (package : List Char) : fill package [] = [] := by
  rw [fill]

def resolve (package text : String) : String :=
  String.ofList (fill package.toList text.toList)

end Typemap.Placeholder

/-!
# Lists in text

Items side by side, with a comma and a space between neighbours.
-/

namespace Typemap

def listed : List String → String
  | [] => ""
  | [item] => item
  | item :: next :: rest => item ++ ", " ++ listed (next :: rest)

@[simp] theorem listed_singleton (item : String) : listed [item] = item := rfl

theorem listed_eq_intercalate (items : List String) : listed items = ", ".intercalate items := by
  induction items with
  | nil => rfl
  | cons item rest ih =>
      cases rest with
      | nil => simp
      | cons next rest => rw [listed, ih, String.intercalate_cons_cons]

end Typemap

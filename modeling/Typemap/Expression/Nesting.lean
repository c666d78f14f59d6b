import Typemap.Expression
import Typemap.Settings
import Typemap.Token

/-!
# Nesting of generic lists

How deep the generic lists of an expression are nested, in its tree and in its
tokens. A bracket is inside the lists that have been opened and not yet closed
in front of it.
-/

namespace Typemap

/-- The same settings with another limit for the nesting. -/
def Settings.limited (depth : Nat) (s : Settings) : Settings := { s with maxDepth := depth }

/-- How deep the generic lists of the target type are nested. A clause without
generic lists has depth zero. -/
def Clause.depth : Clause → Nat
  | map target => target.generics.depth
  | annotate _ _ => 0

namespace Token

/-- How many more lists are open behind a token of this kind. -/
def Kind.weight : Kind → Int
  | langle => 1
  | rangle => -1
  | _ => 0

theorem Kind.weight_nonpos {kind : Kind} (h : kind ≠ .langle) : kind.weight ≤ 0 := by
  cases kind <;> simp_all [weight]

/-- The number of lists that the tokens open and do not close. -/
def nesting : List Token → Int
  | [] => 0
  | t :: ts => t.kind.weight + nesting ts

@[simp] theorem nesting_append (ts us : List Token) :
    nesting (ts ++ us) = nesting ts + nesting us := by
  induction ts with
  | nil => simp [nesting]
  | cons t ts ih => simp [nesting, ih, Int.add_assoc]

@[simp] theorem nesting_singleton (t : Token) : nesting [t] = t.kind.weight := by
  simp [nesting]

/-- Behind the tokens in front of it, the token opens a list that is enclosed in
exactly `depth` others. -/
structure OpensInside (depth : Nat) (front : List Token) (t : Token) : Prop where
  kind : t.kind = .langle
  nesting : nesting front = depth

/-- The leftmost bracket that opens a list inside exactly `depth` others. -/
def IsLeftmostInside (depth : Nat) (ts : List Token) (t : Token) : Prop :=
  ∃ front back, ts = front ++ t :: back ∧ OpensInside depth front t ∧
    ∀ before u after, front = before ++ u :: after → ¬ OpensInside depth before u

theorem IsLeftmostInside.append {depth : Nat} {ts : List Token} {t : Token}
    (h : IsLeftmostInside depth ts t) (us : List Token) : IsLeftmostInside depth (ts ++ us) t := by
  obtain ⟨front, back, rfl, hopens, hleftmost⟩ := h
  exact ⟨front, back ++ us, by simp, hopens, hleftmost⟩

end Token

end Typemap

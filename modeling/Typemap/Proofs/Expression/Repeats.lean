import Typemap.Proofs.Expression.Completion

/-!
# Names that repeat

Only a parameter name has an equals sign behind it, and the reader keeps all of
these names. So a name that is repeated when its value is due shows in the
tokens that have been read as well as in the state.
-/

namespace Typemap

namespace Reader

open Token

variable {settings : Settings} {s s' : State} {t : Token} {front read : List Token}

/-- The names of the parameters so far, with the one whose value is due. -/
def State.given : State → List String
  | parameter _ _ done | candidate _ _ done _ | parameters _ _ done => done.filterMap (·.name?)
  | value _ _ done token => done.filterMap (·.name?) ++ [token.lexeme]
  | complete ⟨_, .annotate _ arguments⟩ => arguments.filterMap (·.name?)
  | _ => []

theorem Moves.given_subset (h : Moves settings s t s') : s.given ⊆ s'.given := by
  cases h <;> simp [State.given]

/-- What stands in front of an equals sign is a name that has been given. -/
theorem Path.mem_given {back : List Token} {name equals : Token}
    (h : Path settings (front ++ name :: equals :: back) s) (hequals : equals.kind = .equals) :
    name.lexeme ∈ s.given := by
  induction back using List.reverseRecOn generalizing s with
  | nil =>
      have hsplit : front ++ [name, equals] = front ++ [name] ++ [equals] := by simp
      rw [hsplit] at h
      obtain ⟨_, hpath, hmove⟩ := h.exists_last
      obtain ⟨source, _, done, token, rfl, rfl⟩ := hmove.of_equals hequals
      obtain ⟨front', hfront, -⟩ := hpath.exists_of_candidate
      obtain ⟨-, htoken⟩ := List.append_inj' hfront rfl
      obtain rfl := List.singleton_inj.1 htoken
      simp [State.given]
  | append_singleton back last ih =>
      have hsplit : front ++ name :: equals :: (back ++ [last]) =
          front ++ name :: equals :: back ++ [last] := by
        simp
      rw [hsplit] at h
      obtain ⟨_, hpath, hmove⟩ := h.exists_last
      exact hmove.given_subset (ih hpath)

theorem Path.repeatsName (h : Path settings read s) (hs : s.Repeats) : RepeatsName read := by
  cases s with
  | value source name done token =>
      obtain ⟨a, ha, hname⟩ := hs
      obtain ⟨before, earlier, between, equals, rfl, hwords, hlexeme, hgoverns⟩ :=
        h.reads.exists_earlier ha hname
      obtain ⟨hearlier, hrepeated⟩ := hgoverns []
      exact .mk hwords hlexeme hearlier hrepeated
  | _ => exact absurd hs id

theorem exists_equals_of_governs {before after : List Token}
    (h : Governs .parameter before after) :
    ∃ sign back, after = sign :: back ∧ sign.kind = .equals := by
  cases h with
  | parameter _ _ hequals => exact ⟨_, _, rfl, hequals⟩

theorem Path.repeats (h : Path settings read s) (hread : RepeatsName read) : s.Repeats := by
  cases hread with
  | @mk before between earlier token equals hwords hlexeme hearlier hrepeated =>
      obtain ⟨_, _, hcons, hequals⟩ := exists_equals_of_governs hrepeated
      obtain ⟨rfl, -⟩ := List.cons.inj hcons
      obtain ⟨sign, back, hbetween, hsign⟩ := exists_equals_of_governs hearlier
      cases between with
      | nil =>
          obtain ⟨rfl, -⟩ := List.cons.inj hbetween
          simp [hwords.2] at hsign
      | cons sign' between =>
          obtain ⟨rfl, -⟩ := List.cons.inj hbetween
          have hsplit : before ++ earlier :: sign' :: between ++ [token, equals] =
              before ++ earlier :: sign' :: between ++ [token] ++ [equals] := by
            simp
          rw [hsplit] at h
          obtain ⟨_, hpath, hmove⟩ := h.exists_last
          obtain ⟨source, name, done, token', rfl, rfl⟩ := hmove.of_equals hequals
          obtain ⟨front, hfront, hparameter⟩ := hpath.exists_of_candidate
          obtain ⟨rfl, htoken⟩ := List.append_inj' hfront rfl
          obtain rfl := List.singleton_inj.1 htoken
          -- In front of the repeated name the earlier one belongs to a complete parameter.
          have hgiven := hparameter.mem_given hsign
          obtain ⟨a, ha, hname⟩ := List.mem_filterMap.1 hgiven
          exact ⟨a, ha, by rw [hlexeme, hname]⟩

end Reader

end Typemap

import Typemap.Placeholder
import Typemap.Proofs.Name

/-!
# Filling the placeholder

A character that the placeholder lacks cuts a text into two that are filled on
their own, whatever stands around it. In a qualified name each placeholder is a
piece between dots, so no package can complete a placeholder together with the
text beside it. Filling such a name twice is filling it once with a filled
package.
-/

namespace Typemap

namespace Placeholder

variable {package cs rest : List Char}

theorem fill_of_strip? (h : strip? cs = some rest) :
    fill package cs = package ++ fill package rest := by
  cases cs with
  | nil => simp [strip?_eq_some_iff, text_ne_nil] at h
  | cons c cs =>
      rw [fill]
      split
      · rename_i rest' h'
        obtain rfl := Option.some.inj (h'.symm.trans h)
        rfl
      · rename_i hnone
        simp [hnone] at h

theorem fill_cons_of_strip? {c : Char} (h : strip? (c :: cs) = none) :
    fill package (c :: cs) = c :: fill package cs := by
  rw [fill]
  split
  · rename_i rest hsome
    simp [hsome] at h
  · rfl

theorem strip?_eq_none_iff : strip? cs = none ↔ ¬ text <+: cs := by
  constructor
  · rintro hnone ⟨rest, hrest⟩
    have hsome := strip?_eq_some_iff.2 hrest
    simp [hnone] at hsome
  · intro hprefix
    rw [Option.eq_none_iff_forall_ne_some]
    intro rest hrest
    exact hprefix ⟨rest, strip?_eq_some_iff.1 hrest⟩

theorem strip?_append (h : strip? cs = some rest) (more : List Char) :
    strip? (cs ++ more) = some (rest ++ more) := by
  rw [strip?_eq_some_iff, ← strip?_eq_some_iff.1 h, List.append_assoc]

/-- A placeholder does not run on into a text that cannot go on with it. -/
theorem strip?_append_eq_none {more : List Char} (h : strip? cs = none)
    (hmore : ∀ c ∈ more.head?, c ∉ text) : strip? (cs ++ more) = none := by
  rw [strip?_eq_none_iff] at h ⊢
  rintro ⟨rest, hrest⟩
  rcases List.append_eq_append_iff.1 hrest with ⟨inner, hinner, -⟩ | ⟨tail, htail, hmoreTail⟩
  · exact h ⟨inner, hinner.symm⟩
  · cases tail with
    | nil => exact h ⟨[], by rw [htail, List.append_nil, List.append_nil]⟩
    | cons d tail =>
        have hd : d ∉ text := hmore d (by rw [hmoreTail]; rfl)
        apply hd
        rw [htail]
        simp

theorem fill_append (cs : List Char) {more : List Char} (hmore : ∀ c ∈ more.head?, c ∉ text) :
    fill package (cs ++ more) = fill package cs ++ fill package more := by
  induction cs using fill.induct with
  | case1 => simp
  | case2 c cs rest h ih =>
      rw [fill_of_strip? h, fill_of_strip? (strip?_append h more), ih, List.append_assoc]
  | case3 c cs h ih =>
      have hnone := strip?_append_eq_none h hmore
      rw [List.cons_append] at hnone ⊢
      rw [fill_cons_of_strip? h, fill_cons_of_strip? hnone, ih, List.cons_append]

theorem fill_append_cons (cs : List Char) {c : Char} (hc : c ∉ text) (more : List Char) :
    fill package (cs ++ c :: more) = fill package cs ++ c :: fill package more := by
  have hnone : strip? (c :: more) = none := by
    rw [strip?_eq_none_iff]
    rintro ⟨rest, hrest⟩
    obtain ⟨d, tail, htext⟩ := List.exists_cons_of_ne_nil text_ne_nil
    rw [htext, List.cons_append] at hrest
    obtain ⟨rfl, -⟩ := List.cons.inj hrest
    apply hc
    rw [htext]
    exact List.mem_cons_self
  have hhead : ∀ d ∈ (c :: more).head?, d ∉ text := by
    intro d hd
    obtain rfl := Option.some.inj hd
    exact hc
  rw [fill_append cs hhead, fill_cons_of_strip? hnone]

@[simp] theorem fill_text (package : List Char) : fill package text = package := by
  have hstrip : strip? text = some [] := strip?_eq_some_iff.2 (List.append_nil text)
  rw [fill_of_strip? hstrip, fill_nil, List.append_nil]

/-- A text without the placeholder stays as it is. -/
theorem fill_eq_self (h : ¬ text <:+: cs) : fill package cs = cs := by
  induction cs with
  | nil => exact fill_nil package
  | cons c cs ih =>
      have hcs : ¬ text <:+: cs := fun hpart => h (hpart.trans (List.suffix_cons c cs).isInfix)
      have hnone : strip? (c :: cs) = none := by
        rw [strip?_eq_none_iff]
        exact fun hprefix => h hprefix.isInfix
      rw [fill_cons_of_strip? hnone, ih hcs]

theorem fill_intercalate (package : List Char) {c : Char} (hc : c ∉ text)
    (items : List (List Char)) :
    fill package ([c].intercalate items) = [c].intercalate (items.map (fill package)) := by
  induction items with
  | nil => simp
  | cons item items ih =>
      cases items with
      | nil => simp
      | cons next items =>
          rw [List.intercalate_cons_cons, List.append_assoc, List.singleton_append,
            fill_append_cons item hc, ih]
          simp

theorem length_le_length_fill (h : text.length ≤ package.length) (cs : List Char) :
    cs.length ≤ (fill package cs).length := by
  induction cs using fill.induct with
  | case1 => exact Nat.zero_le _
  | case2 c cs rest hstrip ih =>
      rw [fill_of_strip? hstrip, ← strip?_eq_some_iff.1 hstrip, List.length_append,
        List.length_append]
      exact Nat.add_le_add h ih
  | case3 c cs hstrip ih =>
      rw [fill_cons_of_strip? hstrip]
      exact Nat.succ_le_succ ih

/-- A text gets longer where a package longer than the placeholder is put in. -/
theorem length_lt_length_fill (h : text.length < package.length) (hpart : text <:+: cs) :
    cs.length < (fill package cs).length := by
  induction cs using fill.induct with
  | case1 => exact absurd (List.infix_nil.1 hpart) text_ne_nil
  | case2 c cs rest hstrip _ =>
      rw [fill_of_strip? hstrip, ← strip?_eq_some_iff.1 hstrip, List.length_append,
        List.length_append]
      exact Nat.add_lt_add_of_lt_of_le h (length_le_length_fill (Nat.le_of_lt h) rest)
  | case3 c cs hstrip ih =>
      rw [fill_cons_of_strip? hstrip]
      rcases List.infix_cons_iff.1 hpart with hprefix | hpart
      · exact absurd hprefix (strip?_eq_none_iff.1 hstrip)
      · exact Nat.succ_lt_succ (ih hpart)

/-- The package is settled: it stays the same when it is put into itself. -/
theorem fill_self_iff : fill package package = package ↔ (text <:+: package → package = text) := by
  constructor
  · intro hself hpart
    rcases Nat.lt_or_eq_of_le hpart.length_le with hlt | heq
    · have hlonger := length_lt_length_fill hlt hpart
      rw [hself] at hlonger
      exact absurd hlonger (Nat.lt_irrefl _)
    · exact (hpart.eq_of_length heq).symm
  · intro h
    by_cases hpart : text <:+: package
    · rw [h hpart, fill_text]
    · exact fill_eq_self hpart

/-- Filling twice is filling once with the filled package. -/
def Seamless (cs : List Char) : Prop :=
  ∀ package later, fill later (fill package cs) = fill (fill later package) cs

theorem seamless_text : Seamless text := by
  intro package later
  rw [fill_text, fill_text]

theorem seamless_of_not_infix (h : ¬ text <:+: cs) : Seamless cs := by
  intro package later
  rw [fill_eq_self h, fill_eq_self h, fill_eq_self h]

theorem Seamless.intercalate {c : Char} (hc : c ∉ text) {items : List (List Char)}
    (h : ∀ item ∈ items, Seamless item) : Seamless ([c].intercalate items) := by
  intro package later
  rw [fill_intercalate package hc, fill_intercalate later hc, fill_intercalate _ hc, List.map_map]
  have hitems := List.map_congr_left fun item hitem => h item hitem package later
  exact congrArg [c].intercalate hitems

end Placeholder

namespace Name

variable {package name piece : List Char}

/-- Only a segment that is the placeholder makes room for the package. -/
theorem fill_of_isSegment (h : isSegment piece = true) :
    Placeholder.fill package piece = if piece = Placeholder.text then package else piece := by
  rcases Bool.or_eq_true_iff.1 h with hplain | htext
  · have habsent := not_infix_of_isPlain hplain
    rw [Placeholder.fill_eq_self habsent, if_neg]
    rintro rfl
    exact habsent (List.infix_refl _)
  · rw [eq_of_beq htext, if_pos rfl, Placeholder.fill_text]

/-- A filled name has the pieces of its filled pieces. -/
theorem pieces_fill (package name : List Char) :
    pieces (Placeholder.fill package name) =
      (pieces name).flatMap fun piece => pieces (Placeholder.fill package piece) := by
  have hdot : '.' ∉ Placeholder.text := by decide
  have hfill := Placeholder.fill_intercalate package hdot (pieces name)
  rw [intercalate_pieces] at hfill
  rw [hfill, pieces_intercalate (by simpa using pieces_ne_nil name), List.flatMap_map]

theorem IsQualified.fill (hname : IsQualified name) (hpackage : IsQualified package) :
    IsQualified (Placeholder.fill package name) := by
  rw [isQualified_iff] at hname hpackage ⊢
  intro piece hpiece
  rw [pieces_fill] at hpiece
  obtain ⟨whole, hwhole, hpart⟩ := List.mem_flatMap.1 hpiece
  have hsegment := hname whole hwhole
  rw [fill_of_isSegment hsegment] at hpart
  split at hpart
  case isTrue => exact hpackage piece hpart
  case isFalse =>
    rw [pieces_of_not_mem (not_mem_of_isSegment hsegment), List.mem_singleton] at hpart
    rwa [hpart]

end Name

end Typemap

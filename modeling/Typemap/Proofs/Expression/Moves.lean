import Typemap.Expression.Grammar

/-!
# The moves of the reader

`Moves` lists the steps that the reader can take, with what each demands of the
token. `step_eq_ok_iff` says that these are all of them, so that an invariant of
the reader only has to look at the moves.
-/

namespace Typemap

namespace Reader

open Grammar

theorem qualified_of_isName {t : Token} (h : IsName t) : qualified t = .ok t.lexeme := by
  have hdefect : Name.defect? t.lexeme.toList = none := h.isQualified
  simp [qualified, hdefect]

theorem isName_of_map_qualified {t : Token} {f : String → State} {s : State}
    (hkind : t.kind = .word) (h : (qualified t).map f = .ok s) : IsName t ∧ f t.lexeme = s := by
  unfold qualified at h
  split at h
  · simp [Except.map] at h
  · rename_i hdefect
    exact ⟨⟨hkind, hdefect⟩, Except.ok.inj h⟩

/-- A word or a literal, which can be a value. -/
def IsValue (t : Token) : Prop := t.kind = .word ∨ t.kind = .literal

theorem IsValue.kind_ne_eof {t : Token} (h : IsValue t) : t.kind ≠ .eof := by
  rcases h with hkind | hkind <;> simp [hkind]

inductive Moves (settings : Settings) : State → Token → State → Prop where
  | sourceType {t : Token} (hname : IsName t) :
      Moves settings .start t (.sourceType ⟨t.lexeme, none⟩)
  | formatOpening {name : String} {t : Token} (hkind : t.kind = .lparen) :
      Moves settings (.sourceType ⟨name, none⟩) t (.format name t.span)
  | arrow {source : Source} {t : Token} (hkind : t.kind = .arrow) :
      Moves settings (.sourceType source) t (.target source [])
  | atSign {name : String} {t : Token} (hkind : t.kind = .atSign) :
      Moves settings (.sourceType ⟨name, none⟩) t (.annotating ⟨name, none⟩)
  | format {name : String} {opening : Span} {t : Token} (hkind : t.kind = .word)
      (hformat : Name.isFormat t.lexeme.toList = true) :
      Moves settings (.format name opening) t (.formatText name opening t.lexeme)
  | formatClosing {name text : String} {opening : Span} {t : Token} (hkind : t.kind = .rparen) :
      Moves settings (.formatText name opening text) t (.sourceType ⟨name, some ⟨text, opening⟩⟩)
  | target {source : Source} {frames : List Frame} {t : Token} (hname : IsName t) :
      Moves settings (.target source frames) t (.targetName source frames t.lexeme)
  | genericsOpening {source : Source} {frames : List Frame} {name : String} {t : Token}
      (hkind : t.kind = .langle) (hdepth : frames.length < settings.maxDepth) :
      Moves settings (.targetName source frames name) t
        (.opened source (⟨name, []⟩ :: frames) t.span)
  | plainComma {source : Source} {inner : Frame} {outer : List Frame} {name : String} {t : Token}
      (hkind : t.kind = .comma) :
      Moves settings (.targetName source (inner :: outer) name) t
        (.target source (inner.push ⟨name, .nil⟩ :: outer))
  | plainClosing {source : Source} {inner : Frame} {outer : List Frame} {name : String}
      {t : Token} (hkind : t.kind = .rangle) :
      Moves settings (.targetName source (inner :: outer) name) t
        (closeTarget source (inner.push ⟨name, .nil⟩).close outer)
  | opened {source : Source} {frames : List Frame} {bracket : Span} {t : Token}
      (hname : IsName t) :
      Moves settings (.opened source frames bracket) t (.targetName source frames t.lexeme)
  | argumentComma {source : Source} {inner : Frame} {outer : List Frame} {target : Target}
      {t : Token} (hkind : t.kind = .comma) :
      Moves settings (.argument source inner outer target) t
        (.target source (inner.push target :: outer))
  | argumentClosing {source : Source} {inner : Frame} {outer : List Frame} {target : Target}
      {t : Token} (hkind : t.kind = .rangle) :
      Moves settings (.argument source inner outer target) t
        (closeTarget source (inner.push target).close outer)
  | annotating {source : Source} {t : Token} (hname : IsName t) :
      Moves settings (.annotating source) t (.annotated source t.lexeme)
  | parametersOpening {source : Source} {name : String} {t : Token} (hkind : t.kind = .lparen) :
      Moves settings (.annotated source name) t (.parameter source name [])
  | candidate {source : Source} {name : String} {done : List Argument} {t : Token}
      (hvalue : IsValue t) :
      Moves settings (.parameter source name done) t (.candidate source name done t)
  | equals {source : Source} {name : String} {done : List Argument} {token t : Token}
      (hkind : t.kind = .equals) (hword : token.kind = .word)
      (hname : Name.isPlain token.lexeme.toList = true) :
      Moves settings (.candidate source name done token) t (.value source name done token)
  | unnamed {source : Source} {name : String} {token t : Token} (hkind : t.kind = .rparen)
      (hallowed : settings.allowUnnamed = true) :
      Moves settings (.candidate source name [] token) t
        (.complete ⟨source, .annotate name [⟨none, valueOf token, token.span⟩]⟩)
  | value {source : Source} {name : String} {done : List Argument} {token t : Token}
      (hvalue : IsValue t) (hfresh : ∀ a ∈ done, a.name? ≠ some token.lexeme) :
      Moves settings (.value source name done token) t
        (.parameters source name (done ++ [⟨some token.lexeme, valueOf t, token.span⟩]))
  | parametersComma {source : Source} {name : String} {done : List Argument} {t : Token}
      (hkind : t.kind = .comma) :
      Moves settings (.parameters source name done) t (.parameter source name done)
  | parametersClosing {source : Source} {name : String} {done : List Argument} {t : Token}
      (hkind : t.kind = .rparen) :
      Moves settings (.parameters source name done) t (.complete ⟨source, .annotate name done⟩)

theorem step_of_moves {settings : Settings} {s s' : State} {t : Token}
    (h : Moves settings s t s') : step settings s t = .ok s' := by
  cases h with
  | sourceType hname | target hname | opened hname | annotating hname =>
      simp [step, hname.isWord, qualified_of_isName hname, Except.map]
  | candidate hvalue => rcases hvalue with hkind | hkind <;> simp [step, hkind]
  | @value _ _ done token _ hvalue hfresh =>
      have hany : (done.any fun a => a.name? == some token.lexeme) = false := by
        simpa [List.any_eq_false] using hfresh
      rcases hvalue with hkind | hkind <;> simp [step, hkind, hany]
  | _ => simp_all [step, afterArgument]

theorem afterArgument_eq_ok {t : Token} {source : Source} {inner : Frame} {outer : List Frame}
    {target : Target} {refused : Fault} {s : State}
    (h : afterArgument t source inner outer target refused = .ok s) :
    (t.kind = .comma ∧ s = .target source (inner.push target :: outer)) ∨
      (t.kind = .rangle ∧ s = closeTarget source (inner.push target).close outer) := by
  unfold afterArgument at h
  split at h
  · exact .inl ⟨‹_›, (Except.ok.inj h).symm⟩
  · exact .inr ⟨‹_›, (Except.ok.inj h).symm⟩
  · simp at h

theorem moves_of_step {settings : Settings} {s s' : State} {t : Token}
    (h : step settings s t = .ok s') : Moves settings s t s' := by
  cases s with
  | start =>
      cases hkind : t.kind <;> simp only [step, hkind, reduceCtorEq] at h
      obtain ⟨hname, rfl⟩ := isName_of_map_qualified hkind h
      exact .sourceType hname
  | sourceType source =>
      obtain ⟨name, _ | format⟩ := source <;>
        cases hkind : t.kind <;> simp only [step, hkind, reduceCtorEq, Except.ok.injEq] at h <;>
        subst h
      · exact .formatOpening hkind
      · exact .arrow hkind
      · exact .atSign hkind
      · exact .arrow hkind
  | format name opening =>
      cases hkind : t.kind <;> simp only [step, hkind, reduceCtorEq] at h
      split at h
      · obtain rfl := Except.ok.inj h
        exact .format hkind ‹_›
      · simp at h
  | formatText name opening text =>
      cases hkind : t.kind <;> simp only [step, hkind, reduceCtorEq, Except.ok.injEq] at h
      subst h
      exact .formatClosing hkind
  | target source frames =>
      cases hkind : t.kind <;> simp only [step, hkind, reduceCtorEq] at h
      obtain ⟨hname, rfl⟩ := isName_of_map_qualified hkind h
      exact .target hname
  | targetName source frames name =>
      by_cases hkind : t.kind = .langle
      · simp only [step, hkind] at h
        split at h
        · obtain rfl := Except.ok.inj h
          exact .genericsOpening hkind ‹_›
        · simp at h
      · cases frames with
        | nil => simp [step] at h
        | cons inner outer =>
            have h' := afterArgument_eq_ok (by simpa [step, hkind] using h)
            rcases h' with ⟨hcomma, rfl⟩ | ⟨hrangle, rfl⟩
            · exact .plainComma hcomma
            · exact .plainClosing hrangle
  | opened source frames bracket =>
      cases hkind : t.kind <;> simp only [step, hkind, reduceCtorEq] at h
      obtain ⟨hname, rfl⟩ := isName_of_map_qualified hkind h
      exact .opened hname
  | argument source inner outer target =>
      rcases afterArgument_eq_ok h with ⟨hcomma, rfl⟩ | ⟨hrangle, rfl⟩
      · exact .argumentComma hcomma
      · exact .argumentClosing hrangle
  | annotating source =>
      cases hkind : t.kind <;> simp only [step, hkind, reduceCtorEq] at h
      obtain ⟨hname, rfl⟩ := isName_of_map_qualified hkind h
      exact .annotating hname
  | annotated source name =>
      cases hkind : t.kind <;> simp only [step, hkind, reduceCtorEq, Except.ok.injEq] at h
      subst h
      exact .parametersOpening hkind
  | parameter source name done =>
      cases hkind : t.kind <;> simp only [step, hkind, reduceCtorEq, Except.ok.injEq] at h <;>
        subst h
      · exact .candidate (.inl hkind)
      · exact .candidate (.inr hkind)
  | candidate source name done token =>
      cases hkind : t.kind
      case equals =>
        cases htoken : token.kind <;> simp only [step, hkind, htoken, reduceCtorEq] at h
        split at h
        · obtain rfl := Except.ok.inj h
          exact .equals hkind htoken ‹_›
        · simp at h
      case rparen =>
        simp only [step, hkind] at h
        split at h
        · rename_i halone
          obtain ⟨hempty, hallowed⟩ := Bool.and_eq_true_iff.1 halone
          obtain rfl := List.isEmpty_iff.1 hempty
          obtain rfl := Except.ok.inj h
          exact .unnamed hkind hallowed
        · simp at h
      all_goals simp only [step, hkind, reduceCtorEq] at h
  | value source name done token =>
      cases hany : done.any fun a => a.name? == some token.lexeme with
      | true => cases hkind : t.kind <;> simp [step, hkind, hany] at h
      | false =>
          have hfresh : ∀ a ∈ done, a.name? ≠ some token.lexeme := by
            simpa [List.any_eq_false] using hany
          cases hkind : t.kind <;> simp only [step, hkind, hany, reduceCtorEq, Except.ok.injEq,
            Bool.false_eq_true, if_false] at h <;> subst h
          · exact .value (.inl hkind) hfresh
          · exact .value (.inr hkind) hfresh
  | parameters source name done =>
      cases hkind : t.kind <;> simp only [step, hkind, reduceCtorEq, Except.ok.injEq] at h <;>
        subst h
      · exact .parametersClosing hkind
      · exact .parametersComma hkind
  | complete expression => simp [step] at h

theorem step_eq_ok_iff {settings : Settings} {s s' : State} {t : Token} :
    step settings s t = .ok s' ↔ Moves settings s t s' :=
  ⟨moves_of_step, step_of_moves⟩

theorem Moves.kind_ne_eof {settings : Settings} {s s' : State} {t : Token}
    (h : Moves settings s t s') : t.kind ≠ .eof := by
  intro heof
  cases h with
  | sourceType hname | target hname | opened hname | annotating hname =>
      simp [hname.isWord] at heof
  | candidate hvalue | value hvalue => exact hvalue.kind_ne_eof heof
  | _ => simp_all

/-- A generic list is only opened behind the name of a type. -/
theorem Moves.of_opened {settings : Settings} {s : State} {t : Token} {source : Source}
    {frames : List Frame} {bracket : Span}
    (h : Moves settings s t (.opened source frames bracket)) :
    t.kind = .langle ∧ t.span = bracket ∧ ∃ outer name, s = .targetName source outer name := by
  generalize hs : State.opened source frames bracket = s' at h
  cases h with
  | genericsOpening hkind =>
      obtain ⟨rfl, rfl, rfl⟩ := State.opened.inj hs
      exact ⟨hkind, rfl, _, _, rfl⟩
  | @plainClosing _ _ outer | @argumentClosing _ _ outer => cases outer <;> simp [closeTarget] at hs
  | _ => simp at hs

theorem Moves.of_candidate {settings : Settings} {s : State} {t : Token} {source : Source}
    {name : String} {done : List Argument} {token : Token}
    (h : Moves settings s t (.candidate source name done token)) :
    s = .parameter source name done ∧ t = token := by
  generalize hs : State.candidate source name done token = s' at h
  cases h with
  | candidate hvalue =>
      obtain ⟨rfl, rfl, rfl, rfl⟩ := State.candidate.inj hs
      exact ⟨rfl, rfl⟩
  | @plainClosing _ _ outer | @argumentClosing _ _ outer => cases outer <;> simp [closeTarget] at hs
  | _ => simp at hs

theorem Moves.of_value {settings : Settings} {s : State} {t : Token} {source : Source}
    {name : String} {done : List Argument} {token : Token}
    (h : Moves settings s t (.value source name done token)) :
    s = .candidate source name done token ∧ t.kind = .equals := by
  generalize hs : State.value source name done token = s' at h
  cases h with
  | equals hkind _ _ =>
      obtain ⟨rfl, rfl, rfl, rfl⟩ := State.value.inj hs
      exact ⟨rfl, hkind⟩
  | @plainClosing _ _ outer | @argumentClosing _ _ outer => cases outer <;> simp [closeTarget] at hs
  | _ => simp at hs

/-- An equals sign is only read behind the name of a parameter. -/
theorem Moves.of_equals {settings : Settings} {s s' : State} {t : Token}
    (h : Moves settings s t s') (hkind : t.kind = .equals) :
    ∃ source name done token, s = .candidate source name done token ∧
      s' = .value source name done token := by
  cases h with
  | equals => exact ⟨_, _, _, _, rfl, rfl⟩
  | sourceType hname | target hname | opened hname | annotating hname =>
      simp [hname.isWord] at hkind
  | candidate hvalue | value hvalue => rcases hvalue with h | h <;> simp [h] at hkind
  | _ => simp_all

theorem run_of_moves {settings : Settings} {s s' : State} {t : Token}
    (h : Moves settings s t s') (stop : Nat) (ts : List Token) :
    run settings stop s (t :: ts) = run settings stop s' ts := by
  rw [run, if_neg h.kind_ne_eof, step_eq_ok_iff.2 h]

end Reader

end Typemap

import Typemap.Proofs.Expression.Moves

/-!
# The refusals of the reader

`Fails` lists the faults that the reader can report, with the state and the
token that cause each of them. A token whose kind does not fit the state is
refused as such; every other fault has a token of a fitting kind. Together with
the moves these are all steps.
-/

namespace Typemap

namespace Reader

/-- The kinds of tokens that the state can go on with. -/
def State.fits (settings : Settings) (kind : Token.Kind) : State → Bool
  | start | format _ _ | target _ _ | annotating _ => kind == .word
  | sourceType source =>
      kind == .arrow || kind == .atSign || (kind == .lparen && source.format?.isNone)
  | formatText _ _ _ => kind == .rparen
  | targetName _ frames _ =>
      kind == .langle || (!frames.isEmpty && (kind == .comma || kind == .rangle))
  | opened _ _ _ => kind == .word || kind == .rangle
  | argument _ _ _ _ => kind == .comma || kind == .rangle
  | annotated _ _ => kind == .lparen
  | parameter _ _ _ | value _ _ _ _ => kind == .word || kind == .literal
  | candidate _ _ done token =>
      (kind == .equals && token.kind == .word) ||
        (kind == .rparen && done.isEmpty && settings.allowUnnamed)
  | parameters _ _ _ => kind == .comma || kind == .rparen
  | complete _ => false

/-- A qualified name is due. -/
inductive NameDue : State → Prop where
  | start : NameDue .start
  | target {source : Source} {frames : List Frame} : NameDue (.target source frames)
  | opened {source : Source} {frames : List Frame} {bracket : Span} :
      NameDue (.opened source frames bracket)
  | annotating {source : Source} : NameDue (.annotating source)

inductive Fails (settings : Settings) : State → Token → Fault → Prop where
  | refused {s : State} {t : Token} (hfits : s.fits settings t.kind = false) :
      Fails settings s t (s.refuse t)
  | name {s : State} {t : Token} {defect : Name.Defect} (hdue : NameDue s)
      (hkind : t.kind = .word) (hdefect : Name.defect? t.lexeme.toList = some defect) :
      Fails settings s t ⟨.malformedName t.lexeme.toList defect, t.span⟩
  | format {name : String} {opening : Span} {t : Token} (hkind : t.kind = .word)
      (hformat : Name.isFormat t.lexeme.toList = false) :
      Fails settings (.format name opening) t ⟨.malformedFormat t.lexeme, t.span⟩
  | misplacedFormat {name : String} {format : Format} {t : Token} (hkind : t.kind = .atSign) :
      Fails settings (.sourceType ⟨name, some format⟩) t ⟨.misplacedFormat, format.opening⟩
  | tooDeep {source : Source} {frames : List Frame} {name : String} {t : Token}
      (hkind : t.kind = .langle) (hdepth : settings.maxDepth ≤ frames.length) :
      Fails settings (.targetName source frames name) t ⟨.tooDeep settings.maxDepth, t.span⟩
  | emptyGenerics {source : Source} {frames : List Frame} {bracket : Span} {t : Token}
      (hkind : t.kind = .rangle) :
      Fails settings (.opened source frames bracket) t ⟨.emptyGenerics, bracket.through t.span⟩
  | parameterName {source : Source} {name : String} {done : List Argument} {token t : Token}
      (hkind : t.kind = .equals) (hword : token.kind = .word)
      (hname : Name.isPlain token.lexeme.toList = false) :
      Fails settings (.candidate source name done token) t
        ⟨.malformedParameterName token.lexeme, token.span⟩
  | duplicate {source : Source} {name : String} {done : List Argument} {token t : Token}
      (hvalue : IsValue t) {a : Argument} (ha : a ∈ done) (hname : a.name? = some token.lexeme) :
      Fails settings (.value source name done token) t
        ⟨.duplicateParameter token.lexeme, token.span⟩

variable {settings : Settings} {s : State} {t : Token} {f : Fault}

theorem step_of_fits_eq_false (h : s.fits settings t.kind = false) :
    step settings s t = .error (s.refuse t) := by
  cases s with
  | sourceType source =>
      obtain ⟨name, _ | format⟩ := source <;> cases hkind : t.kind <;> simp_all [State.fits, step]
  | targetName source frames name =>
      cases frames <;> cases hkind : t.kind <;> simp_all [State.fits, step, afterArgument]
  | _ => cases hkind : t.kind <;> simp_all [State.fits, step, afterArgument]

theorem map_qualified_eq_error_iff {next : String → State} :
    (qualified t).map next = .error f ↔
      ∃ defect, Name.defect? t.lexeme.toList = some defect ∧
        f = ⟨.malformedName t.lexeme.toList defect, t.span⟩ := by
  unfold qualified
  cases hdefect : Name.defect? t.lexeme.toList with
  | none => simp [Except.map]
  | some defect => simp [Except.map, eq_comm]

/-- Where a name is due, a word is checked before anything else. -/
theorem NameDue.exists_step (settings : Settings) (hdue : NameDue s) (hkind : t.kind = .word) :
    ∃ next, step settings s t = (qualified t).map next := by
  cases hdue with
  | start => exact ⟨fun name => .sourceType ⟨name, none⟩, by simp only [step, hkind]⟩
  | @target source frames => exact ⟨.targetName source frames, by simp only [step, hkind]⟩
  | @opened source frames _ => exact ⟨.targetName source frames, by simp only [step, hkind]⟩
  | @annotating source => exact ⟨.annotated source, by simp only [step, hkind]⟩

theorem fails_of_nameDue (hdue : NameDue s) (hkind : t.kind = .word)
    (h : step settings s t = .error f) : Fails settings s t f := by
  obtain ⟨next, hstep⟩ := hdue.exists_step settings hkind
  obtain ⟨defect, hdefect, rfl⟩ := map_qualified_eq_error_iff.1 (hstep.symm.trans h)
  exact .name hdue hkind hdefect

theorem fails_of_step (h : step settings s t = .error f) : Fails settings s t f := by
  cases hfits : s.fits settings t.kind with
  | false =>
      obtain rfl : s.refuse t = f := Except.error.inj ((step_of_fits_eq_false hfits).symm.trans h)
      exact .refused hfits
  | true =>
      cases s with
      | start => exact fails_of_nameDue .start (by simpa [State.fits] using hfits) h
      | target source frames =>
          exact fails_of_nameDue .target (by simpa [State.fits] using hfits) h
      | annotating source =>
          exact fails_of_nameDue .annotating (by simpa [State.fits] using hfits) h
      | opened source frames bracket =>
          have hkind : t.kind = .word ∨ t.kind = .rangle := by simpa [State.fits] using hfits
          rcases hkind with hkind | hkind
          · exact fails_of_nameDue .opened hkind h
          · simp only [step, hkind] at h
            obtain rfl := Except.error.inj h
            exact .emptyGenerics hkind
      | format name opening =>
          have hkind : t.kind = .word := by simpa [State.fits] using hfits
          simp only [step, hkind] at h
          split at h
          · simp at h
          · rename_i hformat
            obtain rfl := Except.error.inj h
            exact .format hkind (Bool.eq_false_iff.2 hformat)
      | sourceType source =>
          obtain ⟨name, _ | format⟩ := source
          · cases hkind : t.kind <;> simp_all [State.fits, step]
          · have hkind : t.kind = .arrow ∨ t.kind = .atSign := by
              simpa [State.fits] using hfits
            rcases hkind with hkind | hkind
            · simp [step, hkind] at h
            · simp only [step, hkind] at h
              obtain rfl := Except.error.inj h
              exact .misplacedFormat hkind
      | targetName source frames name =>
          by_cases hkind : t.kind = .langle
          · simp only [step, hkind] at h
            split at h
            · simp at h
            · rename_i hdepth
              obtain rfl := Except.error.inj h
              exact .tooDeep hkind (Nat.le_of_not_lt hdepth)
          · cases frames <;> cases hrest : t.kind <;> simp_all [State.fits, step, afterArgument]
      | candidate source name done token =>
          by_cases hkind : t.kind = .equals
          · have hword : token.kind = .word := by simpa [State.fits, hkind] using hfits
            simp only [step, hkind, hword] at h
            split at h
            · simp at h
            · rename_i hname
              obtain rfl := Except.error.inj h
              exact .parameterName hkind hword (Bool.eq_false_iff.2 hname)
          · have hclosing : t.kind = .rparen ∧ done = [] ∧ settings.allowUnnamed = true := by
              simpa [State.fits, hkind, and_assoc] using hfits
            simp [step, hclosing.1, hclosing.2.1, hclosing.2.2] at h
      | value source name done token =>
          have hvalue : IsValue t := by simpa [State.fits, IsValue] using hfits
          cases hany : done.any fun a => a.name? == some token.lexeme with
          | false => rcases hvalue with hkind | hkind <;> simp [step, hkind, hany] at h
          | true =>
              obtain ⟨a, ha, hname⟩ := List.any_eq_true.1 hany
              have hfault : f = ⟨.duplicateParameter token.lexeme, token.span⟩ := by
                rcases hvalue with hkind | hkind <;> simpa [step, hkind, hany, eq_comm] using h
              subst hfault
              exact .duplicate hvalue ha (eq_of_beq hname)
      | _ => cases hkind : t.kind <;> simp_all [State.fits, step, afterArgument]

theorem step_of_fails (h : Fails settings s t f) : step settings s t = .error f := by
  cases h with
  | refused hfits => exact step_of_fits_eq_false hfits
  | name hdue hkind hdefect =>
      obtain ⟨next, hstep⟩ := hdue.exists_step settings hkind
      rw [hstep]
      exact map_qualified_eq_error_iff.2 ⟨_, hdefect, rfl⟩
  | format hkind hformat => simp [step, hkind, hformat]
  | misplacedFormat hkind => simp [step, hkind]
  | tooDeep hkind hdepth => simp [step, hkind, Nat.not_lt.2 hdepth]
  | emptyGenerics hkind => simp [step, hkind]
  | parameterName hkind hword hname => simp [step, hkind, hword, hname]
  | @duplicate _ _ done token _ hvalue a ha hname =>
      have hany : (done.any fun a => a.name? == some token.lexeme) = true :=
        List.any_eq_true.2 ⟨a, ha, by simp [hname]⟩
      rcases hvalue with hkind | hkind <;> simp [step, hkind, hany]

theorem step_eq_error_iff : step settings s t = .error f ↔ Fails settings s t f :=
  ⟨fails_of_step, step_of_fails⟩

end Reader

end Typemap

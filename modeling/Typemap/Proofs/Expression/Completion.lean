import Typemap.Expression.Viable
import Typemap.Proofs.Expression.Blame

/-!
# Completing what has been read

Open frames can be closed, and a name that is due can be given, if need be one
that no parameter has. So from almost every state further tokens lead to an
expression. One exception is a value that is due behind a repeated name. The
other is a first token inside the parentheses that may be neither a name nor a
value on its own; whatever stands behind it, this token itself is blamed.
-/

namespace Typemap

namespace Reader

open Grammar Token

variable {settings : Settings} {stop : Nat} {s s' : State} {t : Token}

/-- Further tokens lead from the state to an expression. -/
def Completable (settings : Settings) (s : State) : Prop :=
  ∃ more e, ∀ stop, run settings stop s more = .ok e

theorem Completable.of_result {e : Expression} (h : s.result? = some e) : Completable settings s :=
  ⟨[], e, fun _ => finish_eq_ok_iff.2 h⟩

theorem Completable.of_moves (h : Moves settings s t s') (hs' : Completable settings s') :
    Completable settings s := by
  obtain ⟨more, e, hrun⟩ := hs'
  exact ⟨t :: more, e, fun stop => (run_of_moves h stop more).trans (hrun stop)⟩

/-- A token of a kind, which is a name if it is a word. -/
def sample (kind : Token.Kind) : Token := ⟨kind, "x", .point 0⟩

theorem isName_sample : IsName (sample .word) := ⟨rfl, by decide⟩

theorem completable_closeTarget (source : Source) (target : Target) (frames : List Frame) :
    Completable settings (closeTarget source target frames) := by
  induction frames generalizing target with
  | nil => exact .of_result rfl
  | cons inner outer ih =>
      have hmove : Moves settings (.argument source inner outer target) (sample .rangle) _ :=
        .argumentClosing rfl
      exact .of_moves hmove (ih _)

theorem completable_targetName (source : Source) (frames : List Frame) (name : String) :
    Completable settings (.targetName source frames name) := by
  cases frames with
  | nil => exact .of_result rfl
  | cons inner outer =>
      have hmove : Moves settings (.targetName source (inner :: outer) name) (sample .rangle) _ :=
        .plainClosing rfl
      exact .of_moves hmove (completable_closeTarget _ _ _)

theorem completable_sourceType (source : Source) :
    Completable settings (.sourceType source) := by
  have harrow : Moves settings (.sourceType source) (sample .arrow) _ := .arrow rfl
  exact .of_moves harrow (.of_moves (.target isName_sample) (completable_targetName _ _ _))

theorem completable_formatText (name : String) (opening : Span) (text : String) :
    Completable settings (.formatText name opening text) := by
  have hclosing : Moves settings (.formatText name opening text) (sample .rparen) _ :=
    .formatClosing rfl
  exact .of_moves hclosing (completable_sourceType _)

theorem completable_parameters (source : Source) (name : String) (done : List Argument) :
    Completable settings (.parameters source name done) := by
  have hclosing : Moves settings (.parameters source name done) (sample .rparen) _ :=
    .parametersClosing rfl
  exact .of_moves hclosing (.of_result rfl)

theorem completable_value (source : Source) (name : String) {done : List Argument} {token : Token}
    (hfresh : ∀ a ∈ done, a.name? ≠ some token.lexeme) :
    Completable settings (.value source name done token) := by
  have hvalue : Moves settings (.value source name done token) (sample .word) _ :=
    .value (.inl rfl) hfresh
  exact .of_moves hvalue (completable_parameters _ _ _)

theorem exists_length_le (done : List Argument) :
    ∃ n, ∀ a ∈ done, ∀ name ∈ a.name?, name.length ≤ n := by
  induction done with
  | nil => exact ⟨0, by simp⟩
  | cons a done ih =>
      obtain ⟨n, hn⟩ := ih
      refine ⟨max (a.name?.getD "").length n, List.forall_mem_cons.2 ⟨?_, ?_⟩⟩
      · intro name hname
        rw [Option.mem_def.1 hname]
        exact Nat.le_max_left _ _
      · exact fun b hb name hname => Nat.le_trans (hn b hb name hname) (Nat.le_max_right _ _)

/-- There is always another name for a parameter. -/
theorem exists_fresh (done : List Argument) :
    ∃ name : String, Name.isPlain name.toList = true ∧ ∀ a ∈ done, a.name? ≠ some name := by
  obtain ⟨n, hn⟩ := exists_length_le done
  refine ⟨String.ofList (List.replicate (n + 1) 'x'), ?_, ?_⟩
  · rw [String.toList_ofList, List.replicate_succ, Name.isPlain, List.all_replicate]
    simp [show Name.isInitial 'x' = true from rfl, show Name.isInner 'x' = true from rfl]
  · intro a ha hname
    have hle := hn a ha _ hname
    rw [String.length_ofList, List.length_replicate] at hle
    exact absurd hle (Nat.not_succ_le_self n)

theorem completable_parameter (source : Source) (name : String) (done : List Argument) :
    Completable settings (.parameter source name done) := by
  obtain ⟨fresh, hplain, hfresh⟩ := exists_fresh done
  have hname : Moves settings (.parameter source name done) ⟨.word, fresh, .point 0⟩ _ :=
    .candidate (.inl rfl)
  have hequals : Moves settings (.candidate source name done ⟨.word, fresh, .point 0⟩)
      (sample .equals) _ := .equals rfl rfl hplain
  exact .of_moves hname (.of_moves hequals (completable_value _ _ hfresh))

/-- The value of a parameter is due whose name an earlier one has. -/
def State.Repeats : State → Prop
  | value _ _ done token => ∃ a ∈ done, a.name? = some token.lexeme
  | _ => False

theorem completable_of_nameDue (h : NameDue s) : Completable settings s := by
  cases h with
  | start => exact .of_moves (.sourceType isName_sample) (completable_sourceType _)
  | target => exact .of_moves (.target isName_sample) (completable_targetName _ _ _)
  | opened => exact .of_moves (.opened isName_sample) (completable_targetName _ _ _)
  | annotating => exact .of_moves (.annotating isName_sample) (.of_result rfl)

theorem completable_format (name : String) (opening : Span) :
    Completable settings (.format name opening) := by
  have hformat : Moves settings (.format name opening) (sample .word) _ := .format rfl (by decide)
  exact .of_moves hformat (completable_formatText _ _ _)

/-- Where a refused token is blamed itself, only a repeated name is in the way. -/
theorem completable_or_repeats
    (h : ∀ source name done token, s ≠ .candidate source name done token) :
    Completable settings s ∨ s.Repeats := by
  cases s with
  | start => exact .inl (completable_of_nameDue .start)
  | sourceType source => exact .inl (completable_sourceType source)
  | format name opening => exact .inl (completable_format name opening)
  | formatText name opening text => exact .inl (completable_formatText name opening text)
  | target source frames => exact .inl (completable_of_nameDue .target)
  | targetName source frames name => exact .inl (completable_targetName source frames name)
  | opened source frames bracket => exact .inl (completable_of_nameDue .opened)
  | argument source inner outer target =>
      exact .inl (completable_closeTarget source target (inner :: outer))
  | annotating source => exact .inl (completable_of_nameDue .annotating)
  | annotated source name => exact .inl (.of_result rfl)
  | parameter source name done => exact .inl (completable_parameter source name done)
  | candidate source name done token => exact absurd rfl (h source name done token)
  | value source name done token =>
      by_cases hrepeats : ∃ a ∈ done, a.name? = some token.lexeme
      · exact .inr hrepeats
      · left
        apply completable_value
        intro a ha hname
        exact hrepeats ⟨a, ha, hname⟩
  | parameters source name done => exact .inl (completable_parameters source name done)
  | complete e => exact .inl (.of_result rfl)

/-- Nothing leads on from a repeated name. -/
theorem run_ne_ok_of_repeats (h : s.Repeats) (ts : List Token) (e : Expression) :
    run settings stop s ts ≠ .ok e := by
  cases s with
  | value source name done token =>
      obtain ⟨a, ha, hname⟩ := h
      cases ts with
      | nil => simp [run, finish, State.result?]
      | cons t ts =>
          have hfails : ∃ f, Fails settings (.value source name done token) t f := by
            by_cases hvalue : IsValue t
            · exact ⟨_, .duplicate hvalue ha hname⟩
            · refine ⟨_, .refused ?_⟩
              simpa [State.fits, IsValue] using hvalue
          obtain ⟨f, hfails⟩ := hfails
          rw [run, step_of_fails hfails]
          split <;> simp [finish, State.result?]
  | _ => exact absurd h id

end Reader

end Typemap

import Typemap.Parse
import Typemap.Proofs.Expression.Completeness
import Typemap.Proofs.Expression.Paths
import Typemap.Proofs.Expression.Walk

/-!
# The descent reads as the reader does

Each rule is followed by the state of the reader in front of the same tokens. The
outcome is what the reader comes to; a rule either ends with its fault or goes on
to a state that has the same outcome. So the two cannot come apart, though the
rules look one token further where a parameter may have a name, and find a
repeated name one token later.
-/

namespace Typemap

namespace Descent

open Reader Grammar

variable {input : Marked} {settings : Settings} {stop : Nat} {outcome : Except Fault Expression}
  {s s' : State} {t : Token} {us : List Token}

namespace Marked

/-- What the reader comes to from the state `s` on, with the tokens `us` and the
mark ahead. -/
def read (input : Marked) (settings : Settings) (stop : Nat) (s : State) (us : List Token) :
    Except Fault Expression :=
  run settings stop s (us ++ [input.mark])

theorem read_of_moves (h : Moves settings s t s') (us : List Token) :
    input.read settings stop s (t :: us) = input.read settings stop s' us :=
  run_of_moves h stop (us ++ [input.mark])

theorem read_of_fails {f : Fault} (h : Fails settings s t f) (ht : t.kind ≠ .eof)
    (us : List Token) : input.read settings stop s (t :: us) = .error f := by
  rw [read, List.cons_append, run, if_neg ht, step_of_fails h]

theorem eq_error_of_fails {f : Fault} (h : outcome = input.read settings stop s (t :: us))
    (hfails : Fails settings s t f) (ht : t.kind ≠ .eof) : outcome = .error f :=
  h.trans (read_of_fails hfails ht us)

theorem read_nil (s : State) : input.read settings stop s [] = finish s input.mark :=
  run_mark input.isMark []

theorem read_of_fits_eq_false (hfits : s.fits settings (input.next us).kind = false)
    (hresult : s.result? = none) :
    input.read settings stop s us = .error (s.refuse (input.next us)) := by
  cases us with
  | nil => exact (read_nil s).trans (finish_eq_error_iff.2 ⟨hresult, rfl⟩)
  | cons t us =>
      by_cases ht : t.kind = .eof
      · rw [read, List.cons_append, run_mark ht]
        exact finish_eq_error_iff.2 ⟨hresult, rfl⟩
      · exact read_of_fails (.refused hfits) ht us

/-- States that do the same with the next token have the same outcome. -/
theorem read_congr (h : ∀ ts, run settings stop s (input.next us :: ts) =
      run settings stop s' (input.next us :: ts)) :
    input.read settings stop s us = input.read settings stop s' us := by
  cases us with
  | nil => exact h []
  | cons t us => exact h (us ++ [input.mark])

end Marked

/-- Where the reader can only go on with a token of one kind, the rules consume
one or have its fault. -/
theorem meets_consume_of_fits {kind : Token.Kind} {wanted : Expectation} (hkind : kind ≠ .eof)
    (houtcome : outcome = input.read settings stop s us) (hresult : s.result? = none)
    (hfits : s.fits settings (input.next us).kind = ((input.next us).kind == kind))
    (hrefuse : s.refuse (input.next us) =
      ⟨.unexpected wanted (input.next us).lexeme?, (input.next us).span⟩) :
    Meets input outcome (consume input.tokens kind wanted) us fun t us' =>
      us = t :: us' ∧ t.kind = kind := by
  refine meets_consume hkind fun hne => ?_
  rw [houtcome, ← hrefuse]
  exact Marked.read_of_fits_eq_false (hfits.trans (beq_eq_false_iff_ne.2 hne)) hresult

theorem meets_qualifiedName {wanted : Expectation} (hdue : NameDue s)
    (houtcome : outcome = input.read settings stop s us)
    (hfits : s.fits settings (input.next us).kind = ((input.next us).kind == .word))
    (hrefuse : s.refuse (input.next us) =
      ⟨.unexpected wanted (input.next us).lexeme?, (input.next us).span⟩) :
    Meets input outcome (qualifiedName input.tokens wanted) us fun name us' =>
      ∃ t, us = t :: us' ∧ IsName t ∧ t.lexeme = name := by
  have hresult : s.result? = none := by cases hdue <;> rfl
  refine (meets_consume_of_fits (by decide) houtcome hresult hfits hrefuse).bind ?_
  rintro t us' ⟨rfl, hword⟩
  cases hdefect : Name.defect? t.lexeme.toList with
  | none => exact .result ⟨t, rfl, ⟨hword, hdefect⟩, rfl⟩
  | some defect =>
      exact .fault (Marked.eq_error_of_fails houtcome (.name hdue hword hdefect) (by simp [hword]))

theorem meets_sourceType (houtcome : outcome = input.read settings stop .start us) :
    Meets input outcome (sourceType input.tokens) us fun source us' =>
      us'.length < us.length ∧ outcome = input.read settings stop (.sourceType source) us' ∧
        ((input.next us').kind = .lparen → source.format?.isSome = true) := by
  refine (meets_qualifiedName .start houtcome rfl rfl).bind ?_
  rintro _ us ⟨name, rfl, hname, rfl⟩
  rw [Marked.read_of_moves (.sourceType hname)] at houtcome
  refine meets_ite_check (by decide) ?_ fun hne =>
    .result ⟨by simp, houtcome, fun hlparen => absurd hlparen hne⟩
  rintro opening us rfl hopening
  rw [Marked.read_of_moves (.formatOpening hopening)] at houtcome
  refine (meets_advance opening us).bind ?_
  rintro _ _ ⟨rfl, rfl⟩
  refine (meets_consume_of_fits (by decide) houtcome rfl rfl rfl).bind ?_
  rintro t us ⟨rfl, hword⟩
  cases hformat : Name.isFormat t.lexeme.toList with
  | false =>
      rw [if_neg Bool.false_ne_true]
      exact .fault (Marked.eq_error_of_fails houtcome (.format hword hformat) (by simp [hword]))
  | true =>
      rw [Marked.read_of_moves (.format hword hformat)] at houtcome
      rw [if_pos rfl]
      refine (meets_consume_of_fits (by decide) houtcome rfl rfl rfl).bind ?_
      rintro closing us ⟨rfl, hclosing⟩
      rw [Marked.read_of_moves (.formatClosing hclosing)] at houtcome
      exact .result ⟨by simp; omega, houtcome, fun _ => rfl⟩

/-- A target type is due in front of the token `next`, and no other token than its
name can follow. -/
structure AwaitsTarget (settings : Settings) (source : Source) (frames : List Frame)
    (next : Token) (s : State) : Prop where
  nameDue : NameDue s
  targetDue : TargetDue settings source frames s
  fits_eq : s.fits settings next.kind = (next.kind == .word)
  refuse_eq : s.refuse next = ⟨.unexpected .targetType next.lexeme?, next.span⟩

section Target

variable {source : Source} {frames outer : List Frame} {name : String} {next : Token}

theorem awaitsTarget_target : AwaitsTarget settings source frames next (.target source frames) :=
  ⟨.target, targetDue_target source frames, rfl, rfl⟩

/-- An empty list is refused as such, not for a missing name. -/
theorem awaitsTarget_opened {bracket : Span} (hnext : next.kind ≠ .rangle) :
    AwaitsTarget settings source frames next (.opened source frames bracket) :=
  ⟨.opened, targetDue_opened source frames bracket, by simp [State.fits, hnext], rfl⟩

/-- The arguments of an open list, given the rule for each of them. -/
theorem meets_targets {rounds : Nat} {done : List Target} {item : Rule Target}
    (hitem : ∀ {us s done}, us.length < rounds →
      AwaitsTarget settings source (⟨name, done⟩ :: outer) (input.next us) s →
        outcome = input.read settings stop s us →
          Meets input outcome item us fun target us' => us'.length < us.length ∧
            outcome = input.read settings stop (.argument source ⟨name, done⟩ outer target) us')
    (hrounds : us.length < rounds)
    (hawaits : AwaitsTarget settings source (⟨name, done⟩ :: outer) (input.next us) s)
    (houtcome : outcome = input.read settings stop s us) :
    Meets input outcome (separated input.tokens (fun _ => item) rounds done) us
      fun targets us' => us'.length < us.length ∧ (input.next us').kind ≠ .comma ∧
        ∃ done target, done ++ [target] = targets ∧
          outcome = input.read settings stop (.argument source ⟨name, done⟩ outer target) us' := by
  have hstep : ∀ done us, us.length < rounds →
      (∃ s, AwaitsTarget settings source (⟨name, done⟩ :: outer) (input.next us) s ∧
        outcome = input.read settings stop s us) →
      Meets input outcome item us fun target us' => us'.length < us.length ∧
        ∃ before last, before ++ [last] = done ++ [target] ∧
          outcome = input.read settings stop (.argument source ⟨name, before⟩ outer last) us' := by
    rintro done us hlt ⟨s, hawaits, houtcome⟩
    refine (hitem hlt hawaits houtcome).mono ?_
    rintro target us' ⟨hshorter, houtcome⟩
    exact ⟨hshorter, done, target, rfl, houtcome⟩
  refine meets_separated hstep ?_ hrounds hrounds ⟨s, hawaits, houtcome⟩
  rintro _ comma us hkind ⟨done, target, rfl, houtcome⟩
  rw [Marked.read_of_moves (.argumentComma hkind)] at houtcome
  exact ⟨_, awaitsTarget_target, houtcome⟩

/-- The rule for target types, by induction on its rounds. An inner list is opened
behind a name and a bracket, so that fewer tokens are ahead of it. -/
theorem meets_targetType {rounds : Nat} (hrounds : us.length < rounds)
    (hawaits : AwaitsTarget settings source frames (input.next us) s)
    (houtcome : outcome = input.read settings stop s us) :
    Meets input outcome (targetType settings input.tokens rounds frames.length) us
      fun target us' => us'.length < us.length ∧
        outcome = input.read settings stop (closeTarget source target frames) us' := by
  induction rounds generalizing us frames s with
  | zero => exact absurd hrounds (Nat.not_lt_zero _)
  | succ rounds ih =>
      refine (meets_qualifiedName hawaits.nameDue houtcome hawaits.fits_eq
        hawaits.refuse_eq).bind ?_
      rintro _ us ⟨name, rfl, hname, rfl⟩
      rw [Marked.read_of_moves (hawaits.targetDue name hname)] at houtcome
      rw [List.length_cons] at hrounds
      refine meets_ite_check (by decide) ?_ fun hne =>
        .result ⟨by simp, houtcome.trans
          (Marked.read_congr (run_targetName hne source frames name.lexeme))⟩
      rintro opening us rfl hopening
      rw [List.length_cons] at hrounds
      refine (meets_advance opening us).bind ?_
      rintro _ _ ⟨rfl, rfl⟩
      by_cases hdepth : frames.length < settings.maxDepth
      · rw [Marked.read_of_moves (.genericsOpening hopening hdepth)] at houtcome
        rw [if_neg (by omega)]
        refine meets_ite_check (by decide) ?_ fun hnonempty => ?_
        · rintro closing us rfl hclosing
          refine (meets_peek (closing :: us)).bind ?_
          rintro _ _ ⟨rfl, rfl⟩
          exact .fault
            (Marked.eq_error_of_fails houtcome (.emptyGenerics hclosing) (by simp [hclosing]))
        · refine (meets_targets (fun hrounds => ih hrounds) (by omega)
            (awaitsTarget_opened hnonempty) houtcome).bind ?_
          rintro _ us' ⟨hshorter, hcomma, done, target, rfl, houtcome⟩
          refine (meets_consume_of_fits (by decide) houtcome rfl (by simp [State.fits, hcomma])
            rfl).bind ?_
          rintro closing us' ⟨rfl, hclosing⟩
          rw [Marked.read_of_moves (.argumentClosing hclosing)] at houtcome
          exact .result ⟨by simp at hshorter ⊢; omega, houtcome⟩
      · rw [if_pos (by omega)]
        have hdeep : settings.maxDepth ≤ frames.length := Nat.le_of_not_lt hdepth
        exact .fault
          (Marked.eq_error_of_fails houtcome (.tooDeep hopening hdeep) (by simp [hopening]))

end Target

section Parameters

variable {source : Source} {name : String} {done : List Argument} {next token : Token}

theorem meets_value (houtcome : outcome = input.read settings stop s us)
    (hresult : s.result? = none)
    (hfits : s.fits settings (input.next us).kind =
      ((input.next us).kind == .word || (input.next us).kind == .literal))
    (hrefuse : s.refuse (input.next us) =
      ⟨.unexpected .parameterValue (input.next us).lexeme?, (input.next us).span⟩) :
    Meets input outcome (value input.tokens) us fun v us' =>
      ∃ t, us = t :: us' ∧ IsValue t ∧ valueOf t = v := by
  refine (meets_peek us).bind ?_
  rintro _ _ ⟨rfl, rfl⟩
  split
  · rename_i hkind
    obtain ⟨t, us, rfl, ht⟩ := Marked.exists_cons (by decide) hkind
    refine (meets_advance t us).bind ?_
    rintro _ _ ⟨rfl, rfl⟩
    exact .result ⟨t, rfl, .inr ht, if_pos ht⟩
  · rename_i hkind
    obtain ⟨t, us, rfl, ht⟩ := Marked.exists_cons (by decide) hkind
    refine (meets_advance t us).bind ?_
    rintro _ _ ⟨rfl, rfl⟩
    exact .result ⟨t, rfl, .inl ht, if_neg (by simp [ht])⟩
  · rename_i hliteral hword
    refine meets_unexpected ?_
    rw [houtcome, ← hrefuse]
    exact Marked.read_of_fits_eq_false (by simpa [hfits] using ⟨hword, hliteral⟩) hresult

theorem meets_namesParameter (us : List Token) :
    Meets input outcome (namesParameter input.tokens) us fun named us' => us = us' ∧
      ((named = true ∧ ∃ t equals rest, us = t :: equals :: rest ∧ t.kind = .word ∧
          equals.kind = .equals) ∨
        (named = false ∧ ∀ t rest, us = t :: rest → t.kind = .word →
          (input.next rest).kind ≠ .equals)) := by
  refine meets_ite_check (by decide) ?_ fun hne => ?_
  · rintro t us rfl ht
    refine (meets_peekNext t us).bind ?_
    rintro _ _ ⟨rfl, rfl⟩
    refine .result ⟨rfl, ?_⟩
    by_cases hequals : (input.next us).kind = .equals
    · obtain ⟨equals, us, rfl, he⟩ := Marked.exists_cons (by decide) hequals
      exact .inl ⟨beq_iff_eq.2 hequals, t, equals, us, rfl, ht, he⟩
    · refine .inr ⟨beq_eq_false_iff_ne.2 hequals, fun t' rest hcons _ => ?_⟩
      obtain ⟨rfl, rfl⟩ := List.cons.inj hcons
      exact hequals
  · refine .result ⟨rfl, .inr ⟨rfl, fun t rest hcons ht => ?_⟩⟩
    exact absurd (hcons ▸ ht) hne

theorem meets_isAlone (first : Bool) (us : List Token) :
    Meets input outcome (isAlone input.tokens first) us fun alone us' =>
      (first && (input.next us).kind == .rparen) = alone ∧ us = us' := by
  cases first with
  | false => exact .result ⟨rfl, rfl⟩
  | true => exact meets_check .rparen us

/-- A value that is alone is a parameter without a name, whose list ends here. -/
theorem Marked.read_candidate (hnext : (input.next us).kind = .rparen)
    (hallowed : settings.allowUnnamed = true) :
    input.read settings stop (.candidate source name [] token) us = input.read settings stop
      (.parameters source name [⟨none, valueOf token, token.span⟩]) us := by
  obtain ⟨closing, us, rfl, hclosing⟩ := exists_cons (by decide) hnext
  rw [read_of_moves (.unnamed hclosing hallowed), read_of_moves (.parametersClosing hclosing)]

theorem text_valueOf (t : Token) : (valueOf t).text = t.lexeme := by
  unfold valueOf
  split <;> rfl

/-- A value that has no name and is not alone is refused, whatever is behind it. -/
theorem fits_candidate_eq_false
    (hunnamed : token.kind = .word → next.kind ≠ .equals)
    (halone : (done.isEmpty && next.kind == .rparen && settings.allowUnnamed) = false) :
    (State.candidate source name done token).fits settings next.kind = false := by
  have hequals : (next.kind == .equals && token.kind == .word) = false := by
    rw [Bool.and_comm]
    simpa using hunnamed
  rw [State.fits, hequals, Bool.and_comm (next.kind == .rparen), halone, Bool.false_or]

/-- The reader finds a repeated name with the value, the rules find it behind the
parameter. -/
theorem meets_parameter
    (houtcome : outcome = input.read settings stop (.parameter source name done) us) :
    Meets input outcome (parameter settings input.tokens done.isEmpty) us fun a us' =>
      us'.length < us.length ∧
        if done.any fun b => b.name? == a.name? then
          outcome = .error ⟨.duplicateParameter (a.name?.getD ""), a.span⟩
        else outcome = input.read settings stop (.parameters source name (done ++ [a])) us' := by
  refine (meets_namesParameter us).bind ?_
  rintro named _ ⟨rfl, ⟨rfl, token, equals, us, rfl, hword, hequals⟩ | ⟨rfl, hunnamed⟩⟩
  · rw [if_pos rfl]
    rw [Marked.read_of_moves (.candidate (.inl hword))] at houtcome
    refine (meets_advance token (equals :: us)).bind ?_
    rintro _ _ ⟨rfl, rfl⟩
    cases hplain : Name.isPlain token.lexeme.toList with
    | false =>
        rw [if_neg Bool.false_ne_true]
        exact .fault (Marked.eq_error_of_fails houtcome (.parameterName hequals hword hplain)
          (by simp [hequals]))
    | true =>
        rw [if_pos rfl]
        rw [Marked.read_of_moves (.equals hequals hword hplain)] at houtcome
        refine (meets_advance equals us).bind ?_
        rintro _ _ ⟨rfl, rfl⟩
        refine (meets_value houtcome rfl rfl rfl).bind ?_
        rintro _ us ⟨t, rfl, hvalue, rfl⟩
        refine .result ⟨by simp; omega, ?_⟩
        split
        · rename_i hany
          obtain ⟨b, hb, hname⟩ := List.any_eq_true.1 hany
          exact Marked.eq_error_of_fails houtcome (.duplicate hvalue hb (eq_of_beq hname))
            hvalue.kind_ne_eof
        · rename_i hany
          have hfresh : ∀ b ∈ done, b.name? ≠ some token.lexeme := by
            simpa using hany
          exact houtcome.trans (Marked.read_of_moves (.value hvalue hfresh) us)
  · rw [if_neg Bool.false_ne_true]
    refine (meets_peek us).bind ?_
    rintro _ _ ⟨rfl, rfl⟩
    refine (meets_value houtcome rfl rfl rfl).bind ?_
    rintro _ us ⟨token, rfl, hvalue, rfl⟩
    rw [Marked.read_of_moves (.candidate hvalue)] at houtcome
    refine (meets_isAlone done.isEmpty us).bind ?_
    rintro _ _ ⟨rfl, rfl⟩
    split
    · rename_i halone
      obtain ⟨⟨rfl, hrparen⟩, hallowed⟩ : (done = [] ∧ (input.next us).kind = .rparen) ∧
          settings.allowUnnamed = true := by simpa using halone
      exact .result ⟨by simp, houtcome.trans (Marked.read_candidate hrparen hallowed)⟩
    · rename_i halone
      have hfits : (State.candidate source name done token).fits settings (input.next us).kind =
          false :=
        fits_candidate_eq_false (hunnamed token us rfl) (Bool.eq_false_iff.2 halone)
      refine .fault (houtcome.trans ((Marked.read_of_fits_eq_false hfits rfl).trans ?_))
      rw [text_valueOf]
      rfl

theorem meets_freshParameter
    (houtcome : outcome = input.read settings stop (.parameter source name done) us) :
    Meets input outcome (freshParameter settings input.tokens done) us fun a us' =>
      us'.length < us.length ∧
        outcome = input.read settings stop (.parameters source name (done ++ [a])) us' := by
  refine (meets_parameter houtcome).bind ?_
  rintro a us' ⟨hshorter, hread⟩
  split at hread
  · rename_i hany
    rw [if_pos hany]
    exact .fault hread
  · rename_i hany
    rw [if_neg hany]
    exact .result ⟨hshorter, hread⟩

theorem meets_parameters {rounds : Nat} (hrounds : us.length < rounds)
    (houtcome : outcome = input.read settings stop (.parameter source name done) us) :
    Meets input outcome (separated input.tokens (freshParameter settings input.tokens) rounds done)
      us fun arguments us' => us'.length < us.length ∧ (input.next us').kind ≠ .comma ∧
        outcome = input.read settings stop (.parameters source name arguments) us' := by
  have hstep : ∀ done us, us.length < rounds →
      outcome = input.read settings stop (.parameter source name done) us →
      Meets input outcome (freshParameter settings input.tokens done) us fun a us' =>
        us'.length < us.length ∧
          outcome = input.read settings stop (.parameters source name (done ++ [a])) us' :=
    fun done us _ houtcome => meets_freshParameter houtcome
  refine meets_separated hstep ?_ hrounds hrounds houtcome
  intro arguments comma us hkind houtcome
  rwa [Marked.read_of_moves (.parametersComma hkind)] at houtcome

end Parameters

theorem meets_annotatedClause {source : Source} {rounds : Nat} (hrounds : us.length < rounds)
    (houtcome : outcome = input.read settings stop (.annotating source) us) :
    Meets input outcome (annotatedClause settings input.tokens rounds) us fun clause us' =>
      outcome = input.read settings stop (.complete ⟨source, clause⟩) us' := by
  refine (meets_qualifiedName .annotating houtcome rfl rfl).bind ?_
  rintro _ us ⟨name, rfl, hname, rfl⟩
  rw [Marked.read_of_moves (.annotating hname)] at houtcome
  refine (meets_accept (by decide) us).bind ?_
  rintro taken us' (⟨rfl, opening, rfl, hopening⟩ | ⟨rfl, rfl, hopening⟩)
  · rw [Marked.read_of_moves (.parametersOpening hopening)] at houtcome
    rw [if_pos rfl]
    refine (meets_parameters (by simp at hrounds; omega) houtcome).bind ?_
    rintro arguments us' ⟨-, hcomma, houtcome⟩
    refine (meets_consume_of_fits (by decide) houtcome rfl (by simp [State.fits, hcomma])
      rfl).bind ?_
    rintro closing us' ⟨rfl, hclosing⟩
    rw [Marked.read_of_moves (.parametersClosing hclosing)] at houtcome
    exact .result houtcome
  · rw [if_neg Bool.false_ne_true]
    exact .result
      (houtcome.trans (Marked.read_congr (run_annotated hopening source name.lexeme)))

theorem meets_mapping {rounds : Nat} (hrounds : us.length < rounds)
    (houtcome : outcome = input.read settings stop .start us) :
    Meets input outcome (mapping settings input.tokens rounds) us fun e us' =>
      outcome = input.read settings stop (.complete e) us' := by
  refine (meets_sourceType houtcome).bind ?_
  rintro source us ⟨hshorter, houtcome, hopening⟩
  refine (meets_peek us).bind ?_
  rintro _ _ ⟨rfl, rfl⟩
  split
  · rename_i harrow
    obtain ⟨arrow, us, rfl, hkind⟩ := Marked.exists_cons (by decide) harrow
    rw [Marked.read_of_moves (.arrow hkind)] at houtcome
    refine (meets_advance arrow us).bind ?_
    rintro _ _ ⟨rfl, rfl⟩
    rw [List.length_cons] at hshorter
    refine (meets_targetType (by omega) awaitsTarget_target houtcome).bind ?_
    rintro target us' ⟨-, houtcome⟩
    exact .result houtcome
  · rename_i format hatSign hformat
    obtain ⟨atSign, us, rfl, hkind⟩ := Marked.exists_cons (by decide) hatSign
    obtain ⟨name, _⟩ := source
    obtain rfl := hformat
    exact .fault (Marked.eq_error_of_fails houtcome (.misplacedFormat hkind) (by simp [hkind]))
  · rename_i hatSign hformat
    obtain ⟨atSign, us, rfl, hkind⟩ := Marked.exists_cons (by decide) hatSign
    rw [Marked.read_of_moves (moves_atSign hformat hkind)] at houtcome
    refine (meets_advance atSign us).bind ?_
    rintro _ _ ⟨rfl, rfl⟩
    rw [List.length_cons] at hshorter
    refine (meets_annotatedClause (by omega) houtcome).bind ?_
    intro clause us' houtcome
    exact .result houtcome
  · rename_i harrow hsome hnone
    have hatSign : (input.next us).kind ≠ .atSign := by
      intro hkind
      cases hformat : source.format? with
      | none => exact hnone hkind hformat
      | some format => exact hsome format hkind hformat
    have hfits : (State.sourceType source).fits settings (input.next us).kind = false := by
      simpa [State.fits, hatSign] using ⟨harrow, hopening⟩
    exact meets_unexpected (houtcome.trans (Marked.read_of_fits_eq_false hfits rfl))

theorem meets_whole {rounds : Nat} (hrounds : us.length < rounds)
    (houtcome : outcome = input.read settings stop .start us) :
    Meets input outcome (whole settings input.tokens rounds) us fun e _ => outcome = .ok e := by
  refine (meets_mapping hrounds houtcome).bind ?_
  intro e us houtcome
  refine .of_plain fun hplain => ?_
  refine (meets_check .eof us).bind ?_
  rintro _ _ ⟨rfl, rfl⟩
  cases us with
  | nil =>
      rw [Marked.next_nil, if_pos (beq_iff_eq.2 input.isMark)]
      exact .result (houtcome.trans (Marked.read_nil _))
  | cons t us =>
      have ht : t.kind ≠ .eof := hplain t List.mem_cons_self
      rw [Marked.next_cons, if_neg (mt beq_iff_eq.1 ht)]
      refine (meets_peek (t :: us)).bind ?_
      rintro _ _ ⟨rfl, rfl⟩
      exact .fault (Marked.eq_error_of_fails houtcome (.refused rfl) ht)

/-- The descent ends on every list with an end mark, no further than there, and
comes to what the reader comes to in front of the mark. -/
theorem exists_whole (input : Marked) (settings : Settings) (stop : Nat) {rounds : Nat}
    (hrounds : input.front.length < rounds) :
    ∃ walk, whole settings input.tokens rounds ⟨0, []⟩ =
        some (input.read settings stop .start input.front, walk) ∧
      walk.Within input.front.length := by
  have hstands : Stands input input.front ⟨0, []⟩ := ⟨⟨[], rfl, rfl⟩, by simp⟩
  rcases meets_whole hrounds rfl _ hstands with
    ⟨fault, walk, hwhole, hwithin, houtcome⟩ | ⟨e, us, walk, hwhole, hstands', houtcome⟩
  · exact ⟨walk, by rw [hwhole, houtcome], hwithin⟩
  · exact ⟨walk, by rw [hwhole, houtcome], hstands'.within⟩

end Descent

end Typemap

import Typemap.Proofs.Expression.Moves

/-!
# The reader takes every derivation

What the reader does with the tokens of a derivation, rule by rule and with any
tokens behind them. A target type is complete as soon as the next token opens no
generic list; from there on it makes no difference whether it had one.
-/

namespace Typemap

namespace Reader

open Grammar

variable {settings : Settings} {stop : Nat}

theorem run_source (d : SourceTree) (ts : List Token) :
    run settings stop .start (d.tokens ++ ts) = run settings stop (.sourceType d.source) ts := by
  cases d with
  | plain name hname => exact run_of_moves (.sourceType hname) stop ts
  | formatted name opening format closing hname hopening hword hformat hclosing =>
      calc
        _ = run settings stop (.sourceType ⟨name.lexeme, none⟩)
              (opening :: format :: closing :: ts) := run_of_moves (.sourceType hname) stop _
        _ = run settings stop (.format name.lexeme opening.span) (format :: closing :: ts) :=
          run_of_moves (.formatOpening hopening) stop _
        _ = run settings stop (.formatText name.lexeme opening.span format.lexeme)
              (closing :: ts) := run_of_moves (.format hword hformat) stop _
        _ = _ := run_of_moves (.formatClosing hclosing) stop _

/-- A name is a complete target type when no generic list follows. -/
theorem run_targetName {t : Token} (ht : t.kind ≠ .langle) (source : Source)
    (frames : List Frame) (name : String) (ts : List Token) :
    run settings stop (.targetName source frames name) (t :: ts) =
      run settings stop (closeTarget source ⟨name, .nil⟩ frames) (t :: ts) := by
  cases frames with
  | nil => simp only [run, step, closeTarget, finish, State.result?, State.refuse]
  | cons inner outer =>
      simp only [run, step, closeTarget, finish, State.result?, State.refuse]

/-- What is due before a name of a target type inside the frames. -/
def TargetDue (settings : Settings) (source : Source) (frames : List Frame) (s : State) : Prop :=
  ∀ t, IsName t → Moves settings s t (.targetName source frames t.lexeme)

theorem targetDue_target (source : Source) (frames : List Frame) :
    TargetDue settings source frames (.target source frames) :=
  fun _ hname => .target hname

theorem targetDue_opened (source : Source) (frames : List Frame) (bracket : Span) :
    TargetDue settings source frames (.opened source frames bracket) :=
  fun _ hname => .opened hname

theorem one_le_depth (d : GenericsTree) : 1 ≤ d.generics.depth := by
  have hcons (name : String) (inner rest : Generics) : 1 ≤ (Generics.cons name inner rest).depth :=
    Nat.le_trans (Nat.le_add_left 1 inner.depth) (Nat.le_max_left _ _)
  cases d with
  | last target => exact hcons _ _ _
  | more target comma rest hcomma => exact hcons _ _ _

mutual

theorem run_target (d : TargetTree) {source : Source} {frames : List Frame} {s : State}
    (hs : TargetDue settings source frames s)
    (hdepth : d.target.generics.depth + frames.length ≤ settings.maxDepth) {t : Token}
    (ht : d.target.generics = .nil → t.kind ≠ .langle) (ts : List Token) :
    run settings stop s (d.tokens ++ t :: ts) =
      run settings stop (closeTarget source d.target frames) (t :: ts) := by
  cases d with
  | plain name hname =>
      calc
        _ = run settings stop (.targetName source frames name.lexeme) (t :: ts) :=
          run_of_moves (hs name hname) stop _
        _ = _ := run_targetName (ht rfl) source frames name.lexeme ts
  | generic name opening list closing hname hopening hclosing =>
      have hroom : frames.length < settings.maxDepth :=
        Nat.lt_of_lt_of_le (Nat.lt_add_of_pos_left (one_le_depth list)) hdepth
      calc
        _ = run settings stop (.targetName source frames name.lexeme)
              (opening :: (list.tokens ++ closing :: t :: ts)) := by
          rw [← run_of_moves (hs name hname)]
          simp [TargetTree.tokens]
        _ = run settings stop (.opened source (⟨name.lexeme, []⟩ :: frames) opening.span)
              (list.tokens ++ closing :: t :: ts) :=
          run_of_moves (.genericsOpening hopening hroom) stop _
        _ = run settings stop
              (closeTarget source ⟨name.lexeme, .ofList list.generics.toList⟩ frames) (t :: ts) :=
          run_generics list [] (targetDue_opened _ _ _) hdepth hclosing _
        _ = _ := by rw [Generics.ofList_toList]; rfl

theorem run_generics (d : GenericsTree) {source : Source} {name : String} (done : List Target)
    {outer : List Frame} {s : State} (hs : TargetDue settings source (⟨name, done⟩ :: outer) s)
    (hdepth : d.generics.depth + outer.length ≤ settings.maxDepth) {closing : Token}
    (hclosing : closing.kind = .rangle) (ts : List Token) :
    run settings stop s (d.tokens ++ closing :: ts) =
      run settings stop (closeTarget source ⟨name, .ofList (done ++ d.generics.toList)⟩ outer)
        ts := by
  cases d with
  | last target =>
      simp only [GenericsTree.generics, Generics.depth] at hdepth
      have hd : target.target.generics.depth + (outer.length + 1) ≤ settings.maxDepth := by omega
      rw [GenericsTree.tokens, run_target target hs hd (fun _ => by simp [hclosing])]
      exact run_of_moves (.argumentClosing hclosing) stop ts
  | more target comma rest hcomma =>
      simp only [GenericsTree.generics, Generics.depth] at hdepth
      have hd : target.target.generics.depth + (outer.length + 1) ≤ settings.maxDepth := by omega
      have hrest : rest.generics.depth + outer.length ≤ settings.maxDepth := by omega
      rw [GenericsTree.tokens, List.append_assoc, List.cons_append,
        run_target target hs hd (fun _ => by simp [hcomma])]
      calc
        _ = run settings stop (.target source (⟨name, done ++ [target.target]⟩ :: outer))
              (rest.tokens ++ closing :: ts) := run_of_moves (.argumentComma hcomma) stop _
        _ = run settings stop (closeTarget source
              ⟨name, .ofList (done ++ [target.target] ++ rest.generics.toList)⟩ outer) ts :=
          run_generics rest _ (targetDue_target _ _) hrest hclosing ts
        _ = _ := by
          rw [List.append_assoc]
          rfl

end

theorem isValue_token (d : ValueTree) : IsValue d.token := by
  cases d with
  | bare _ hword => exact .inl hword
  | quoted _ hliteral => exact .inr hliteral

theorem valueOf_token (d : ValueTree) : valueOf d.token = d.value := by
  cases d with
  | bare token hword => simp [valueOf, ValueTree.token, ValueTree.value, hword]
  | quoted token hliteral => simp [valueOf, ValueTree.token, ValueTree.value, hliteral]

theorem run_named (d : NamedTree) (source : Source) (name : String) {done : List Argument}
    (hfresh : ∀ a ∈ done, a.name? ≠ some d.name.lexeme) (ts : List Token) :
    run settings stop (.parameter source name done) (d.tokens ++ ts) =
      run settings stop (.parameters source name (done ++ [d.argument])) ts := by
  calc
    _ = run settings stop (.candidate source name done d.name) (d.equals :: d.value.token :: ts) :=
      run_of_moves (.candidate (.inl d.isWord)) stop _
    _ = run settings stop (.value source name done d.name) (d.value.token :: ts) :=
      run_of_moves (.equals d.isEquals d.isWord d.isPlain) stop _
    _ = _ := by
      rw [run_of_moves (.value (isValue_token d.value) hfresh), valueOf_token]
      rfl

/-- The reader goes through a list of parameters whose names differ from each
other and from those before it. -/
theorem run_parameters (d : ParametersTree) (source : Source) (name : String)
    {done : List Argument} (hdistinct : ((done ++ d.arguments).map (·.name?)).Nodup)
    (ts : List Token) :
    run settings stop (.parameter source name done) (d.tokens ++ ts) =
      run settings stop (.parameters source name (done ++ d.arguments)) ts := by
  induction d generalizing done with
  | last p =>
      apply run_named
      intro a ha heq
      rw [List.map_append, List.nodup_append] at hdistinct
      exact hdistinct.2.2 _ (List.mem_map_of_mem ha) _ (List.mem_singleton_self _) heq
  | more p comma rest hcomma ih =>
      have hfresh : ∀ a ∈ done, a.name? ≠ some p.name.lexeme := by
        intro a ha heq
        rw [List.map_append, List.nodup_append] at hdistinct
        exact hdistinct.2.2 _ (List.mem_map_of_mem ha) _ List.mem_cons_self heq
      rw [ParametersTree.arguments, ← List.singleton_append, ← List.append_assoc] at hdistinct
      rw [ParametersTree.tokens, List.append_assoc, List.cons_append, run_named p _ _ hfresh,
        run_of_moves (.parametersComma hcomma), ih hdistinct, ParametersTree.arguments,
        List.append_assoc, List.singleton_append]

theorem run_arguments (d : ArgumentsTree settings) (source : Source) (name : String)
    {closing : Token} (hclosing : closing.kind = .rparen) (ts : List Token) :
    run settings stop (.parameter source name []) (d.tokens ++ closing :: ts) =
      run settings stop (.complete ⟨source, .annotate name d.arguments⟩) ts := by
  cases d with
  | named list hdistinct =>
      rw [ArgumentsTree.tokens, run_parameters list source name hdistinct]
      exact run_of_moves (.parametersClosing hclosing) stop ts
  | unnamed value hallowed =>
      calc
        _ = run settings stop (.candidate source name [] value.token) (closing :: ts) :=
          run_of_moves (.candidate (isValue_token value)) stop _
        _ = _ := by
          rw [run_of_moves (.unnamed hclosing hallowed), valueOf_token]
          rfl

theorem run_annotated {t : Token} (ht : t.kind ≠ .lparen) (source : Source) (name : String)
    (ts : List Token) :
    run settings stop (.annotated source name) (t :: ts) =
      run settings stop (.complete ⟨source, .annotate name []⟩) (t :: ts) := by
  simp only [run, step, finish, State.result?, State.refuse]

theorem moves_atSign {source : Source} (hplain : source.format? = none) {t : Token}
    (hkind : t.kind = .atSign) : Moves settings (.sourceType source) t (.annotating source) := by
  obtain ⟨name, format?⟩ := source
  obtain rfl : format? = none := hplain
  exact .atSign hkind

/-- The reader is through with an expression behind the tokens of a derivation. -/
theorem run_derivation (d : Derivation settings) {t : Token} (ht : Ends d.expression t)
    (ts : List Token) :
    run settings stop .start (d.tokens ++ t :: ts) =
      run settings stop (.complete d.expression) (t :: ts) := by
  cases d with
  | map source arrow target harrow hdepth =>
      have hend : target.target.generics = .nil → t.kind ≠ .langle := by
        intro hnil
        apply ht.1 target.target.name
        rw [← hnil]
        rfl
      rw [Derivation.tokens, List.append_assoc, List.cons_append, run_source,
        run_of_moves (.arrow harrow)]
      exact run_target target (targetDue_target source.source []) hdepth hend ts
  | annotate source mark name hplain hmark hname =>
      rw [Derivation.tokens, List.append_assoc, run_source]
      calc
        _ = run settings stop (.annotating source.source) (name :: t :: ts) :=
          run_of_moves (moves_atSign hplain hmark) stop _
        _ = run settings stop (.annotated source.source name.lexeme) (t :: ts) :=
          run_of_moves (.annotating hname) stop _
        _ = _ := run_annotated (ht.2 name.lexeme rfl) _ _ _
  | annotateWith source mark name opening arguments closing hplain hmark hname hopening hclosing =>
      have htokens : source.tokens ++ mark :: name :: opening :: arguments.tokens ++ [closing] ++
          t :: ts = source.tokens ++ mark :: name :: opening ::
            (arguments.tokens ++ closing :: t :: ts) := by
        simp
      rw [Derivation.tokens, htokens, run_source]
      calc
        _ = run settings stop (.annotating source.source)
              (name :: opening :: (arguments.tokens ++ closing :: t :: ts)) :=
          run_of_moves (moves_atSign hplain hmark) stop _
        _ = run settings stop (.annotated source.source name.lexeme)
              (opening :: (arguments.tokens ++ closing :: t :: ts)) :=
          run_of_moves (.annotating hname) stop _
        _ = run settings stop (.parameter source.source name.lexeme [])
              (arguments.tokens ++ closing :: t :: ts) :=
          run_of_moves (.parametersOpening hopening) stop _
        _ = _ := run_arguments arguments _ _ hclosing _

theorem run_eq_ok_of_derivation (d : Derivation settings) {mark : Token}
    (hmark : mark.kind = .eof) (ts : List Token) :
    run settings stop .start (d.tokens ++ mark :: ts) = .ok d.expression := by
  rw [run_derivation d ⟨fun _ _ => by simp [hmark], fun _ _ => by simp [hmark]⟩, run, if_pos hmark]
  rfl

end Reader

end Typemap

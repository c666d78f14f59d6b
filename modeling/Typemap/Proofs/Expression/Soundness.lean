import Typemap.Proofs.Expression.Moves

/-!
# What the reader has read

`Reads` relates a state of the reader to the tokens that lead to it: complete
parts have derivations, and each open frame has the tokens that opened it. Every
move keeps the relation, so a run that succeeds has read a derivation.
-/

namespace Typemap

namespace Reader

open Grammar

/-- Items that are complete, with a comma behind each of them. -/
inductive OpenList {α β : Type} (value : β → α) (tokens : β → List Token) :
    List α → List Token → Prop where
  | nil : OpenList value tokens [] []
  | snoc {done : List α} {ts : List Token} (h : OpenList value tokens done ts) (d : β)
      {comma : Token} (hcomma : comma.kind = .comma) :
      OpenList value tokens (done ++ [value d]) (ts ++ tokens d ++ [comma])

theorem OpenList.eq_nil {α β : Type} {value : β → α} {tokens : β → List Token} {ts : List Token}
    (h : OpenList value tokens [] ts) : ts = [] := by
  generalize hdone : ([] : List α) = done at h
  cases h with
  | nil => rfl
  | snoc => simp at hdone

theorem exists_genericsTree {done : List Target} {ts : List Token}
    (h : OpenList TargetTree.target TargetTree.tokens done ts) (d : GenericsTree) :
    ∃ d' : GenericsTree, d'.tokens = ts ++ d.tokens ∧
      d'.generics.toList = done ++ d.generics.toList := by
  induction h generalizing d with
  | nil => exact ⟨d, rfl, rfl⟩
  | snoc _ target hcomma ih =>
      obtain ⟨d', htokens, hgenerics⟩ := ih (.more target _ d hcomma)
      refine ⟨d', ?_, ?_⟩
      · rw [htokens]
        simp [GenericsTree.tokens]
      · rw [hgenerics]
        simp [GenericsTree.generics, Generics.toList]

theorem exists_parametersTree {done : List Argument} {ts : List Token}
    (h : OpenList NamedTree.argument NamedTree.tokens done ts) (d : ParametersTree) :
    ∃ d' : ParametersTree, d'.tokens = ts ++ d.tokens ∧
      d'.arguments = done ++ d.arguments := by
  induction h generalizing d with
  | nil => exact ⟨d, rfl, rfl⟩
  | snoc _ parameter hcomma ih =>
      obtain ⟨d', htokens, harguments⟩ := ih (.more parameter _ d hcomma)
      refine ⟨d', ?_, ?_⟩
      · rw [htokens]
        simp [ParametersTree.tokens]
      · rw [harguments]
        simp [ParametersTree.arguments]

theorem depth_ofList_add_le {ts : List Target} {n m : Nat} (hroom : n ≤ m)
    (h : ∀ t ∈ ts, t.generics.depth + n < m) : (Generics.ofList ts).depth + n ≤ m := by
  induction ts with
  | nil => simpa [Generics.ofList, Generics.depth] using hroom
  | cons t ts ih =>
      have ht := h t List.mem_cons_self
      have hts := ih fun u hu => h u (List.mem_cons_of_mem _ hu)
      simp only [Generics.ofList, Generics.depth]
      omega

theorem exists_valueTree {t : Token} (h : IsValue t) :
    ∃ d : ValueTree, d.token = t ∧ d.value = valueOf t := by
  rcases h with hkind | hkind
  · exact ⟨.bare t hkind, rfl, by simp [ValueTree.value, valueOf, hkind]⟩
  · exact ⟨.quoted t hkind, rfl, by simp [ValueTree.value, valueOf, hkind]⟩

variable {settings : Settings}

/-- The tokens of the generic lists that are still open. Each list leaves room
for those around it. -/
inductive OpenFrames (settings : Settings) : List Frame → List Token → Prop where
  | nil : OpenFrames settings [] []
  | cons {outer : List Frame} {ts us : List Token} {name opening : Token} {done : List Target}
      (h : OpenFrames settings outer ts) (hname : IsName name) (hopening : opening.kind = .langle)
      (hdone : OpenList TargetTree.target TargetTree.tokens done us)
      (hroom : outer.length < settings.maxDepth)
      (hdepth : ∀ t ∈ done, t.generics.depth + outer.length + 1 ≤ settings.maxDepth) :
      OpenFrames settings (⟨name.lexeme, done⟩ :: outer) (ts ++ name :: opening :: us)

/-- The tokens in front of a target type. -/
inductive TargetHead : Source → List Token → Prop where
  | mk {source : Source} (d : SourceTree) (hd : d.source = source) {arrow : Token}
      (harrow : arrow.kind = .arrow) : TargetHead source (d.tokens ++ [arrow])

/-- The tokens in front of an annotation type. -/
inductive AnnotationHead : Source → List Token → Prop where
  | mk {source : Source} (d : SourceTree) (hd : d.source = source)
      (hplain : source.format? = none) {mark : Token} (hmark : mark.kind = .atSign) :
      AnnotationHead source (d.tokens ++ [mark])

/-- The tokens in front of the parameters of an annotation. -/
inductive ParametersHead : Source → String → List Token → Prop where
  | mk {source : Source} {ts : List Token} (h : AnnotationHead source ts) {name opening : Token}
      (hname : IsName name) (hopening : opening.kind = .lparen) :
      ParametersHead source name.lexeme (ts ++ [name, opening])

/-- The parameters behind which a comma stands. Their names differ. -/
structure OpenParameters (done : List Argument) (ts : List Token) : Prop where
  isOpen : OpenList NamedTree.argument NamedTree.tokens done ts
  distinct : (done.map (·.name?)).Nodup

inductive Reads (settings : Settings) : State → List Token → Prop where
  | start : Reads settings .start []
  | sourceType {source : Source} (d : SourceTree) (hd : d.source = source) :
      Reads settings (.sourceType source) d.tokens
  | format {name opening : Token} (hname : IsName name) (hopening : opening.kind = .lparen) :
      Reads settings (.format name.lexeme opening.span) [name, opening]
  | formatText {name opening format : Token} (hname : IsName name)
      (hopening : opening.kind = .lparen) (hword : format.kind = .word)
      (hformat : Name.isFormat format.lexeme.toList = true) :
      Reads settings (.formatText name.lexeme opening.span format.lexeme) [name, opening, format]
  | target {source : Source} {frames : List Frame} {ts us : List Token}
      (hhead : TargetHead source ts) (hframes : OpenFrames settings frames us) :
      Reads settings (.target source frames) (ts ++ us)
  | opened {source : Source} {frames : List Frame} {bracket : Span} {ts us : List Token}
      (hhead : TargetHead source ts) (hframes : OpenFrames settings frames us) :
      Reads settings (.opened source frames bracket) (ts ++ us)
  | targetName {source : Source} {frames : List Frame} {name : Token} {ts us : List Token}
      (hhead : TargetHead source ts) (hframes : OpenFrames settings frames us)
      (hname : IsName name) :
      Reads settings (.targetName source frames name.lexeme) (ts ++ us ++ [name])
  | argument {source : Source} {inner : Frame} {outer : List Frame} {target : Target}
      {ts us : List Token} (hhead : TargetHead source ts)
      (hframes : OpenFrames settings (inner :: outer) us) (d : TargetTree)
      (hd : d.target = target)
      (hdepth : target.generics.depth + outer.length + 1 ≤ settings.maxDepth) :
      Reads settings (.argument source inner outer target) (ts ++ us ++ d.tokens)
  | annotating {source : Source} {ts : List Token} (hhead : AnnotationHead source ts) :
      Reads settings (.annotating source) ts
  | annotated {source : Source} {name : Token} {ts : List Token}
      (hhead : AnnotationHead source ts) (hname : IsName name) :
      Reads settings (.annotated source name.lexeme) (ts ++ [name])
  | parameter {source : Source} {name : String} {done : List Argument} {ts us : List Token}
      (hhead : ParametersHead source name ts) (hdone : OpenParameters done us) :
      Reads settings (.parameter source name done) (ts ++ us)
  | candidate {source : Source} {name : String} {done : List Argument} {token : Token}
      {ts us : List Token} (hhead : ParametersHead source name ts)
      (hdone : OpenParameters done us) (hvalue : IsValue token) :
      Reads settings (.candidate source name done token) (ts ++ us ++ [token])
  | value {source : Source} {name : String} {done : List Argument} {token equals : Token}
      {ts us : List Token} (hhead : ParametersHead source name ts)
      (hdone : OpenParameters done us) (hword : token.kind = .word)
      (hname : Name.isPlain token.lexeme.toList = true) (hequals : equals.kind = .equals) :
      Reads settings (.value source name done token) (ts ++ us ++ [token, equals])
  | parameters {source : Source} {name : String} {done : List Argument} {ts us : List Token}
      (hhead : ParametersHead source name ts)
      (hdone : OpenList NamedTree.argument NamedTree.tokens done us) (d : NamedTree)
      (hdistinct : ((done ++ [d.argument]).map (·.name?)).Nodup) :
      Reads settings (.parameters source name (done ++ [d.argument])) (ts ++ us ++ d.tokens)
  | complete {e : Expression} (d : Derivation settings) (hd : d.expression = e) :
      Reads settings (.complete e) d.tokens

theorem OpenFrames.push {inner : Frame} {outer : List Frame} {us : List Token}
    (h : OpenFrames settings (inner :: outer) us) (d : TargetTree)
    (hdepth : d.target.generics.depth + outer.length + 1 ≤ settings.maxDepth) {comma : Token}
    (hcomma : comma.kind = .comma) :
    OpenFrames settings (inner.push d.target :: outer) (us ++ d.tokens ++ [comma]) := by
  cases h with
  | @cons _ ts us name opening done h hname hopening hdone hroom hdone' =>
      have hall : ∀ t ∈ done ++ [d.target], t.generics.depth + outer.length + 1 ≤
          settings.maxDepth := by
        intro t ht
        rcases List.mem_append.1 ht with ht | ht
        · exact hdone' t ht
        · obtain rfl := List.mem_singleton.1 ht
          exact hdepth
      have hpush := h.cons hname hopening (hdone.snoc d hcomma) hroom hall
      simpa [Frame.push] using hpush

/-- A bracket makes a target type of the innermost frame. -/
theorem OpenFrames.close {inner : Frame} {outer : List Frame} {us : List Token}
    (h : OpenFrames settings (inner :: outer) us) (d : TargetTree)
    (hdepth : d.target.generics.depth + outer.length + 1 ≤ settings.maxDepth) {closing : Token}
    (hclosing : closing.kind = .rangle) :
    ∃ (vs : List Token) (d' : TargetTree), OpenFrames settings outer vs ∧
      d'.target = (inner.push d.target).close ∧
      d'.target.generics.depth + outer.length ≤ settings.maxDepth ∧
      vs ++ d'.tokens = us ++ d.tokens ++ [closing] := by
  cases h with
  | @cons _ ts us name opening done h hname hopening hdone hroom hdone' =>
      obtain ⟨g, htokens, hlist⟩ := exists_genericsTree hdone (.last d)
      have hgenerics : g.generics = .ofList (done ++ [d.target]) := by
        rw [← Generics.ofList_toList g.generics, hlist]
        rfl
      refine ⟨ts, .generic name opening g closing hname hopening hclosing, h, ?_, ?_, ?_⟩
      · rw [TargetTree.target, hgenerics]
        rfl
      · rw [TargetTree.target, hgenerics]
        apply depth_ofList_add_le (Nat.le_of_lt hroom)
        intro t ht
        rcases List.mem_append.1 ht with ht | ht
        · exact hdone' t ht
        · obtain rfl := List.mem_singleton.1 ht
          exact hdepth
      · simp [TargetTree.tokens, htokens, GenericsTree.tokens]

theorem TargetHead.exists_derivation {source : Source} {ts : List Token}
    (h : TargetHead source ts) (d : TargetTree)
    (hdepth : d.target.generics.depth ≤ settings.maxDepth) :
    ∃ d' : Derivation settings, d'.tokens = ts ++ d.tokens ∧
      d'.expression = ⟨source, .map d.target⟩ := by
  cases h with
  | mk d' hd harrow =>
      subst hd
      exact ⟨.map d' _ d harrow hdepth, by simp [Derivation.tokens], rfl⟩

theorem reads_closeTarget {source : Source} {outer : List Frame} {ts us : List Token}
    (hhead : TargetHead source ts) (hframes : OpenFrames settings outer us) (d : TargetTree)
    (hdepth : d.target.generics.depth + outer.length ≤ settings.maxDepth) :
    Reads settings (closeTarget source d.target outer) (ts ++ us ++ d.tokens) := by
  cases outer with
  | nil =>
      cases hframes
      obtain ⟨d', htokens, he⟩ := hhead.exists_derivation d hdepth
      rw [List.append_nil, ← htokens]
      exact .complete d' he
  | cons inner outer => exact .argument hhead hframes d rfl hdepth

theorem Reads.comma {source : Source} {inner : Frame} {outer : List Frame} {ts us : List Token}
    (hhead : TargetHead source ts) (hframes : OpenFrames settings (inner :: outer) us)
    (d : TargetTree) (hdepth : d.target.generics.depth + outer.length + 1 ≤ settings.maxDepth)
    {t : Token} (hkind : t.kind = .comma) :
    Reads settings (.target source (inner.push d.target :: outer))
      (ts ++ us ++ d.tokens ++ [t]) := by
  have hread : Reads settings _ _ := .target hhead (hframes.push d hdepth hkind)
  simpa using hread

theorem Reads.closing {source : Source} {inner : Frame} {outer : List Frame} {ts us : List Token}
    (hhead : TargetHead source ts) (hframes : OpenFrames settings (inner :: outer) us)
    (d : TargetTree) (hdepth : d.target.generics.depth + outer.length + 1 ≤ settings.maxDepth)
    {t : Token} (hkind : t.kind = .rangle) :
    Reads settings (closeTarget source (inner.push d.target).close outer)
      (ts ++ us ++ d.tokens ++ [t]) := by
  obtain ⟨vs, d', hvs, htarget, hdepth', htokens⟩ := hframes.close d hdepth hkind
  rw [← htarget, List.append_assoc, List.append_assoc, ← List.append_assoc us, ← htokens,
    ← List.append_assoc]
  exact reads_closeTarget hhead hvs d' hdepth'

theorem ParametersHead.closing {source : Source} {name : String} {ts : List Token}
    (h : ParametersHead source name ts) (arguments : ArgumentsTree settings) {t : Token}
    (hkind : t.kind = .rparen) :
    Reads settings (.complete ⟨source, .annotate name arguments.arguments⟩)
      (ts ++ arguments.tokens ++ [t]) := by
  cases h with
  | mk hhead hname hopening =>
      cases hhead with
      | mk d hd hplain hmark =>
          subst hd
          have hread : Reads settings _ _ := .complete
            (.annotateWith d _ _ _ arguments t hplain hmark hname hopening hkind) rfl
          simpa [Derivation.tokens, Derivation.expression] using hread

theorem OpenParameters.distinct_snoc {done : List Argument} {ts : List Token}
    (h : OpenParameters done ts) {a : Argument} (hfresh : ∀ b ∈ done, b.name? ≠ a.name?) :
    ((done ++ [a]).map (·.name?)).Nodup := by
  rw [List.map_append, List.map_singleton, List.nodup_append]
  refine ⟨h.distinct, List.pairwise_singleton _ _, ?_⟩
  intro x hx y hy
  obtain ⟨b, hb, rfl⟩ := List.mem_map.1 hx
  obtain rfl := List.mem_singleton.1 hy
  exact hfresh b hb

theorem Reads.valued {source : Source} {name : String} {done : List Argument}
    {token equals t : Token} {ts us : List Token} (hhead : ParametersHead source name ts)
    (hdone : OpenParameters done us) (hword : token.kind = .word)
    (hname : Name.isPlain token.lexeme.toList = true) (hequals : equals.kind = .equals)
    (hvalue : IsValue t) (hfresh : ∀ a ∈ done, a.name? ≠ some token.lexeme) :
    Reads settings
      (.parameters source name (done ++ [⟨some token.lexeme, valueOf t, token.span⟩]))
      (ts ++ us ++ [token, equals] ++ [t]) := by
  obtain ⟨d, rfl, hd⟩ := exists_valueTree hvalue
  have hread : Reads settings _ _ := .parameters hhead hdone.isOpen
    ⟨token, equals, d, hword, hname, hequals⟩ (hdone.distinct_snoc hfresh)
  rw [← hd]
  simpa [NamedTree.argument, NamedTree.tokens] using hread

theorem OpenFrames.room {inner : Frame} {outer : List Frame} {us : List Token}
    (h : OpenFrames settings (inner :: outer) us) :
    Generics.nil.depth + outer.length + 1 ≤ settings.maxDepth := by
  cases h with
  | cons _ _ _ _ hroom _ =>
      rw [Generics.depth, Nat.zero_add]
      exact hroom

/-- One more token is read by a move. -/
theorem Reads.move {s s' : State} {ts : List Token} {t : Token} (h : Reads settings s ts)
    (hmove : Moves settings s t s') : Reads settings s' (ts ++ [t]) := by
  cases hmove with
  | sourceType hname =>
      cases h
      exact .sourceType (.plain t hname) rfl
  | formatOpening hkind =>
      cases h with
      | sourceType d hd =>
          cases d with
          | plain name hname =>
              cases hd
              exact .format hname hkind
          | formatted => cases hd
  | arrow hkind =>
      cases h with
      | sourceType d hd =>
          have hframes : OpenFrames settings [] [] := .nil
          simpa using Reads.target (.mk d hd hkind) hframes
  | atSign hkind =>
      cases h with
      | sourceType d hd => exact .annotating (.mk d hd rfl hkind)
  | format hkind hformat =>
      cases h with
      | format hname hopening => exact .formatText hname hopening hkind hformat
  | formatClosing hkind =>
      cases h with
      | formatText hname hopening hword hformat =>
          exact .sourceType (.formatted _ _ _ t hname hopening hword hformat hkind) rfl
  | target hname =>
      cases h with
      | target hhead hframes => exact .targetName hhead hframes hname
  | opened hname =>
      cases h with
      | opened hhead hframes => exact .targetName hhead hframes hname
  | genericsOpening hkind hdepth =>
      cases h with
      | targetName hhead hframes hname =>
          have hread : Reads settings (.opened _ _ t.span) _ :=
            .opened hhead (hframes.cons hname hkind .nil hdepth (by simp))
          simpa using hread
  | plainComma hkind =>
      cases h with
      | targetName hhead hframes hname =>
          exact .comma hhead hframes (.plain _ hname) hframes.room hkind
  | plainClosing hkind =>
      cases h with
      | targetName hhead hframes hname =>
          exact .closing hhead hframes (.plain _ hname) hframes.room hkind
  | argumentComma hkind =>
      cases h with
      | argument hhead hframes d hd hdepth =>
          subst hd
          exact .comma hhead hframes d hdepth hkind
  | argumentClosing hkind =>
      cases h with
      | argument hhead hframes d hd hdepth =>
          subst hd
          exact .closing hhead hframes d hdepth hkind
  | annotating hname =>
      cases h with
      | annotating hhead => exact .annotated hhead hname
  | parametersOpening hkind =>
      cases h with
      | annotated hhead hname =>
          have hread : Reads settings (.parameter _ _ []) _ :=
            .parameter (.mk hhead hname hkind) ⟨.nil, List.nodup_nil⟩
          simpa using hread
  | candidate hvalue =>
      cases h with
      | parameter hhead hdone => exact .candidate hhead hdone hvalue
  | equals hkind hword hname =>
      cases h with
      | candidate hhead hdone hvalue =>
          have hread : Reads settings _ _ := .value hhead hdone hword hname hkind
          simpa using hread
  | unnamed hkind hallowed =>
      cases h with
      | candidate hhead hdone hvalue =>
          obtain ⟨d, rfl, hd⟩ := exists_valueTree hvalue
          obtain rfl := hdone.isOpen.eq_nil
          rw [← hd, List.append_nil]
          exact hhead.closing (.unnamed d hallowed) hkind
  | value hvalue hfresh =>
      cases h with
      | value hhead hdone hword hname hequals =>
          exact .valued hhead hdone hword hname hequals hvalue hfresh
  | parametersComma hkind =>
      cases h with
      | parameters hhead hdone d hdistinct =>
          have hread : Reads settings _ _ := .parameter hhead ⟨hdone.snoc d hkind, hdistinct⟩
          simpa using hread
  | parametersClosing hkind =>
      cases h with
      | parameters hhead hdone d hdistinct =>
          obtain ⟨list, htokens, harguments⟩ := exists_parametersTree hdone (.last d)
          have hnames : (list.arguments.map (·.name?)).Nodup := by rwa [harguments]
          have hread : Reads settings _ _ := hhead.closing (.named list hnames) hkind
          simpa [ArgumentsTree.arguments, ArgumentsTree.tokens, harguments, htokens,
            ParametersTree.arguments, ParametersTree.tokens] using hread

/-- Where an expression may end, a derivation has been read. -/
theorem Reads.exists_derivation {s : State} {ts : List Token} (h : Reads settings s ts)
    {e : Expression} (he : s.result? = some e) :
    ∃ d : Derivation settings, d.tokens = ts ∧ d.expression = e := by
  cases h with
  | complete d hd => exact ⟨d, rfl, hd.trans (Option.some.inj he)⟩
  | @targetName source frames name _ _ hhead hframes hname =>
      cases frames with
      | nil =>
          obtain rfl := Option.some.inj he
          cases hframes
          rw [List.append_nil]
          exact hhead.exists_derivation (.plain name hname) (Nat.zero_le _)
      | cons => simp [State.result?] at he
  | annotated hhead hname =>
      obtain rfl := Option.some.inj he
      cases hhead with
      | mk d hd hplain hmark =>
          subst hd
          exact ⟨.annotate d _ _ hplain hmark hname, by simp [Derivation.tokens], rfl⟩
  | _ => simp [State.result?] at he

/-- A run that succeeds has read a derivation up to the end mark. -/
theorem Reads.run {s : State} {read ts : List Token} {mark : Token} {stop : Nat} {e : Expression}
    (h : Reads settings s read) (hts : ∀ t ∈ ts, t.kind ≠ .eof) (hmark : mark.kind = .eof)
    (hrun : run settings stop s (ts ++ [mark]) = .ok e) :
    ∃ d : Derivation settings, d.tokens = read ++ ts ∧ d.expression = e := by
  induction ts generalizing s read with
  | nil =>
      rw [List.nil_append, Reader.run, if_pos hmark, finish] at hrun
      split at hrun
      · rename_i hresult
        obtain rfl := Except.ok.inj hrun
        rw [List.append_nil]
        exact h.exists_derivation hresult
      · simp at hrun
  | cons t ts ih =>
      rw [List.cons_append, Reader.run, if_neg (hts t List.mem_cons_self)] at hrun
      split at hrun
      · simp at hrun
      · rename_i hstep
        obtain ⟨d, htokens, he⟩ :=
          ih (h.move (step_eq_ok_iff.1 hstep)) (fun u hu => hts u (List.mem_cons_of_mem t hu)) hrun
        exact ⟨d, by simpa using htokens, he⟩

end Reader

end Typemap

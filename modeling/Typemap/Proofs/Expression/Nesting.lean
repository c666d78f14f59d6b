import Typemap.Expression.Nesting
import Typemap.Proofs.Expression.Blame
import Typemap.Proofs.Expression.Ends
import Typemap.Proofs.Parse

/-!
# The nesting limit

Two readers that differ in the limit alone take the same moves until one of them
is at its limit. The open frames of a state count the lists around the next
token, so the first token that a reader refuses for its depth is the leftmost
bracket inside as many lists as the limit allows.
-/

namespace Typemap

open Token

namespace Grammar

variable {settings : Settings}

theorem Derivation.depth_le (d : Derivation settings) :
    d.expression.clause.depth ≤ settings.maxDepth := by
  cases d with
  | map _ _ _ _ hdepth => exact hdepth
  | annotate => exact Nat.zero_le _
  | annotateWith => exact Nat.zero_le _

/-- A derivation does not depend on the limit as long as its depth is allowed. -/
theorem Derivation.exists_limited (d : Derivation settings) {depth : Nat}
    (h : d.expression.clause.depth ≤ depth) :
    ∃ d' : Derivation (settings.limited depth), d'.tokens = d.tokens ∧
      d'.expression = d.expression := by
  cases d with
  | map source arrow target harrow hdepth =>
      exact ⟨.map source arrow target harrow h, rfl, rfl⟩
  | annotate source mark name hplain hmark hname =>
      exact ⟨.annotate source mark name hplain hmark hname, rfl, rfl⟩
  | annotateWith source mark name opening arguments closing hplain hmark hname hopening hclosing =>
      cases arguments with
      | named list hdistinct =>
          exact ⟨.annotateWith source mark name opening (.named list hdistinct) closing hplain hmark
            hname hopening hclosing, rfl, rfl⟩
      | unnamed value hallowed =>
          exact ⟨.annotateWith source mark name opening (.unnamed value hallowed) closing hplain
            hmark hname hopening hclosing, rfl, rfl⟩

end Grammar

namespace Reader

variable {settings : Settings} {d D : Nat} {s s' : State} {t mark : Token}
  {read front back us : List Token} {f : Fault}

theorem Moves.limited (h : Moves (settings.limited d) s t s') (hle : d ≤ D) :
    Moves (settings.limited D) s t s' := by
  cases h with
  | genericsOpening hkind hdepth => exact .genericsOpening hkind (Nat.lt_of_lt_of_le hdepth hle)
  | unnamed hkind hallowed => exact .unnamed hkind hallowed
  | _ => constructor <;> assumption

theorem Path.limited (h : Path (settings.limited d) read s) (hle : d ≤ D) :
    Path (settings.limited D) read s := by
  induction h with
  | start => exact .start
  | move _ hmove ih => exact ih.move (hmove.limited hle)

theorem State.fits_limited (kind : Token.Kind) (s : State) :
    s.fits (settings.limited d) kind = s.fits settings kind := by
  cases s <;> rfl

/-- Only the depth of a list can be faulty under one limit and not under another. -/
theorem Fails.limited (h : Fails (settings.limited d) s t f)
    (hf : f.cause.kind ≠ .nestingTooDeep) : Fails (settings.limited D) s t f := by
  cases h with
  | refused hfits =>
      rw [State.fits_limited] at hfits
      exact .refused (by rwa [State.fits_limited])
  | tooDeep => exact absurd rfl hf
  | name hdue hkind hdefect => exact .name hdue hkind hdefect
  | format hkind hformat => exact .format hkind hformat
  | misplacedFormat hkind => exact .misplacedFormat hkind
  | emptyGenerics hkind => exact .emptyGenerics hkind
  | parameterName hkind hword hname => exact .parameterName hkind hword hname
  | duplicate hvalue ha hname => exact .duplicate hvalue ha hname

theorem Stuck.limited (h : Stuck (settings.limited d) us mark f) (hle : d ≤ D)
    (hf : f.cause.kind ≠ .nestingTooDeep) : Stuck (settings.limited D) us mark f := by
  cases h with
  | token hus hpath hfails => exact .token hus (hpath.limited hle) (hfails.limited hf)
  | mark hpath hresult => exact .mark (hpath.limited hle) hresult

/-- The number of generic lists around the next token. -/
def State.openLists : State → Nat
  | target _ frames | targetName _ frames _ | opened _ frames _ => frames.length
  | argument _ _ outer _ => outer.length + 1
  | _ => 0

@[simp] theorem openLists_closeTarget (source : Source) (target : Target) (frames : List Frame) :
    (closeTarget source target frames).openLists = frames.length := by
  cases frames <;> rfl

theorem Moves.openLists_eq (h : Moves settings s t s') :
    (s'.openLists : Int) = s.openLists + t.kind.weight := by
  cases h with
  | sourceType hname | target hname | opened hname | annotating hname =>
      simp [State.openLists, Kind.weight, hname.isWord]
  | candidate hvalue | value hvalue =>
      rcases hvalue with hkind | hkind <;> simp [State.openLists, Kind.weight, hkind]
  | plainClosing hkind | argumentClosing hkind =>
      rw [openLists_closeTarget]
      simp only [State.openLists, Kind.weight, hkind, List.length_cons]
      omega
  | _ => simp [State.openLists, Kind.weight, *]

theorem Moves.openLists_lt (h : Moves settings s t s') (hkind : t.kind = .langle) :
    s.openLists < settings.maxDepth := by
  cases h with
  | genericsOpening _ hdepth => exact hdepth
  | sourceType hname | target hname | opened hname | annotating hname =>
      simp [hname.isWord] at hkind
  | candidate hvalue | value hvalue => rcases hvalue with h | h <;> simp [h] at hkind
  | _ => simp_all

theorem Path.nesting_eq (h : Path settings read s) : nesting read = s.openLists := by
  induction h with
  | start => rfl
  | move _ hmove ih => rw [nesting_append, nesting_singleton, ih, hmove.openLists_eq]

theorem Path.openLists_le (h : Path settings read s) : s.openLists ≤ settings.maxDepth := by
  induction h with
  | start => exact Nat.zero_le _
  | @move _ _ _ t _ hmove ih =>
      have heq := hmove.openLists_eq
      by_cases hkind : t.kind = .langle
      · have hlt := hmove.openLists_lt hkind
        simp only [hkind, Kind.weight] at heq
        omega
      · have hweight := Kind.weight_nonpos hkind
        omega

theorem Path.nesting_lt (h : Path settings (front ++ t :: back) s) (hkind : t.kind = .langle) :
    nesting front < settings.maxDepth := by
  obtain ⟨before, behind, hpath, hmove⟩ := h.exists_move
  rw [hpath.nesting_eq]
  exact Int.ofNat_lt.2 (hmove.openLists_lt hkind)

theorem kind_refuse_ne_nestingTooDeep (s : State) (t : Token) :
    (s.refuse t).cause.kind ≠ .nestingTooDeep := by
  have hrefusal := refusal_refuse s t
  generalize s.refuse t = f at hrefusal
  cases hrefusal with
  | unexpected | unnamed | trailing => simp [Cause.kind]

/-- The list that is refused for its depth is inside as many others as the limit
allows, and so is none in front of it. -/
theorem Stuck.exists_isLeftmostInside (h : Stuck settings us mark f)
    (hf : f.cause.kind = .nestingTooDeep) :
    ∃ t, IsLeftmostInside settings.maxDepth us t ∧
      f = ⟨.tooDeep settings.maxDepth, t.span⟩ := by
  cases h with
  | mark => exact absurd hf (kind_refuse_ne_nestingTooDeep _ _)
  | @token front back t _ _ hus hpath hfails =>
      cases hfails with
      | refused => exact absurd hf (kind_refuse_ne_nestingTooDeep _ _)
      | tooDeep hkind hdepth =>
          have heq := Nat.le_antisymm hpath.openLists_le hdepth
          refine ⟨t, ⟨front, back, hus, ⟨hkind, ?_⟩, ?_⟩, rfl⟩
          · rw [hpath.nesting_eq, heq]
          · rintro before u after rfl hopens
            have hlt := hpath.nesting_lt hopens.kind
            rw [hopens.nesting] at hlt
            exact absurd hlt (Int.lt_irrefl _)
      | name | format | misplacedFormat | emptyGenerics | parameterName | duplicate =>
          simp [Cause.kind] at hf

end Reader

namespace Expression

variable {settings : Settings} {text : String} {us : List Token} {mark : Token} {d D : Nat}
  {e : Expression} {f : Failure}

theorem ofTokens_eq_error_iff (hus : ∀ t ∈ us, t.kind ≠ .eof) (hmark : mark.kind = .eof) :
    ofTokens settings text (us ++ [mark]) = .error f ↔
      ∃ fault, Reader.Stuck settings us mark fault ∧ f = .ofFault text fault := by
  rw [ofTokens, reported_eq_error_iff]
  simp only [Reader.run_eq_error_iff hus hmark]

/-- An expression is read under every limit that its depth keeps to. -/
theorem ofTokens_limited_of_ok (hus : ∀ t ∈ us, t.kind ≠ .eof) (hmark : mark.kind = .eof)
    (h : ofTokens (settings.limited d) text (us ++ [mark]) = .ok e) (hdepth : e.clause.depth ≤ D) :
    ofTokens (settings.limited D) text (us ++ [mark]) = .ok e := by
  obtain ⟨tree, rfl, rfl⟩ := exists_derivation_of_ofTokens hus hmark h
  obtain ⟨tree', htokens, he⟩ := tree.exists_limited hdepth
  rw [← htokens, ← he]
  exact ofTokens_of_derivation tree' hmark

theorem depth_le_of_ofTokens (hus : ∀ t ∈ us, t.kind ≠ .eof) (hmark : mark.kind = .eof)
    (h : ofTokens settings text (us ++ [mark]) = .ok e) : e.clause.depth ≤ settings.maxDepth := by
  obtain ⟨tree, -, rfl⟩ := exists_derivation_of_ofTokens hus hmark h
  exact tree.depth_le

theorem ofTokens_limited_of_error (hus : ∀ t ∈ us, t.kind ≠ .eof) (hmark : mark.kind = .eof)
    (hle : d ≤ D) (h : ofTokens (settings.limited d) text (us ++ [mark]) = .error f)
    (hf : f.kind ≠ .nestingTooDeep) :
    ofTokens (settings.limited D) text (us ++ [mark]) = .error f := by
  obtain ⟨fault, hstuck, rfl⟩ := (ofTokens_eq_error_iff hus hmark).1 h
  exact (ofTokens_eq_error_iff hus hmark).2 ⟨fault, hstuck.limited hle hf, rfl⟩

/-- Where the limit is too low, the leftmost bracket beyond it is blamed. -/
theorem exists_tooDeep_of_ok (hus : ∀ t ∈ us, t.kind ≠ .eof) (hmark : mark.kind = .eof)
    (hle : d ≤ D) (h : ofTokens (settings.limited D) text (us ++ [mark]) = .ok e)
    (hdepth : d < e.clause.depth) :
    ∃ t, IsLeftmostInside d us t ∧
      ofTokens (settings.limited d) text (us ++ [mark]) =
        .error (.ofFault text ⟨.tooDeep d, t.span⟩) := by
  cases hlow : ofTokens (settings.limited d) text (us ++ [mark]) with
  | ok e' =>
      have hdepth' := depth_le_of_ofTokens hus hmark hlow
      have hhigh := ofTokens_limited_of_ok hus hmark hlow (Nat.le_trans hdepth' hle)
      obtain rfl := Except.ok.inj (h.symm.trans hhigh)
      exact absurd hdepth (Nat.not_lt.2 hdepth')
  | error f =>
      by_cases hf : f.kind = .nestingTooDeep
      · obtain ⟨fault, hstuck, rfl⟩ := (ofTokens_eq_error_iff hus hmark).1 hlow
        obtain ⟨t, ht, rfl⟩ := hstuck.exists_isLeftmostInside hf
        exact ⟨t, ht, rfl⟩
      · have hhigh := ofTokens_limited_of_error hus hmark hle hlow hf
        simp [h] at hhigh

end Expression

/-- The limit for the nesting is exact and has no other effect. What is read
under a limit is read under a higher one; a failure that is not about the
nesting stays the same; and an expression that a higher limit allows is read if
its depth keeps to the limit, or else refused at the leftmost bracket that opens
a list inside as many others as the limit says. -/
theorem ofTokens_limited (settings : Settings) (text : String) (tokens : List Token) (d D : Nat)
    (hle : d ≤ D) :
    (∀ e, Expression.ofTokens (settings.limited d) text tokens = .ok e →
        Expression.ofTokens (settings.limited D) text tokens = .ok e) ∧
      (∀ f, Expression.ofTokens (settings.limited d) text tokens = .error f →
        f.kind ≠ .nestingTooDeep →
          Expression.ofTokens (settings.limited D) text tokens = .error f) ∧
        ∀ e, Expression.ofTokens (settings.limited D) text tokens = .ok e →
          (e.clause.depth ≤ d →
            Expression.ofTokens (settings.limited d) text tokens = .ok e) ∧
            (d < e.clause.depth →
              ∃ t, IsLeftmostInside d tokens t ∧
                Expression.ofTokens (settings.limited d) text tokens =
                  .error (.ofFault text ⟨.tooDeep d, t.span⟩)) := by
  obtain ⟨us, rest, mark, rfl, hus, hmark, hrun⟩ := Reader.exists_run_eq text.length tokens
  have htokens : ∀ settings, Expression.ofTokens settings text (us ++ rest) =
      Expression.ofTokens settings text (us ++ [mark]) :=
    fun settings => congrArg (reported text) (hrun settings .start)
  simp only [htokens]
  refine ⟨?_, ?_, ?_⟩
  · intro e h
    have hdepth := Expression.depth_le_of_ofTokens hus hmark h
    exact Expression.ofTokens_limited_of_ok hus hmark h (Nat.le_trans hdepth hle)
  · exact fun f h hf => Expression.ofTokens_limited_of_error hus hmark hle h hf
  · intro e h
    refine ⟨Expression.ofTokens_limited_of_ok hus hmark h, fun hdepth => ?_⟩
    obtain ⟨t, ht, hlow⟩ := Expression.exists_tooDeep_of_ok hus hmark hle h hdepth
    exact ⟨t, ht.append rest, hlow⟩

/-- Under the limit 1 the second list is refused, and not the third, which is
just as deep. -/
theorem ofTokens_limited_siblings :
    ∃ tokens, scan "A => B<C<D>,E<F>>" = .ok tokens ∧
      Expression.ofTokens (({} : Settings).limited 2) "A => B<C<D>,E<F>>" tokens =
        .ok ⟨⟨"A", none⟩, .map ⟨"B", .cons "C" (.cons "D" .nil .nil)
          (.cons "E" (.cons "F" .nil .nil) .nil)⟩⟩ ∧
      ∃ t, IsLeftmostInside 1 tokens t ∧ t.span = ⟨8, 1⟩ ∧
        Expression.ofTokens (({} : Settings).limited 1) "A => B<C<D>,E<F>>" tokens =
          .error (.ofFault "A => B<C<D>,E<F>>" ⟨.tooDeep 1, t.span⟩) := by
  have hscan : scan "A => B<C<D>,E<F>>" = .ok [⟨.word, "A", ⟨0, 1⟩⟩, ⟨.arrow, "=>", ⟨2, 2⟩⟩,
      ⟨.word, "B", ⟨5, 1⟩⟩, ⟨.langle, "<", ⟨6, 1⟩⟩, ⟨.word, "C", ⟨7, 1⟩⟩, ⟨.langle, "<", ⟨8, 1⟩⟩,
      ⟨.word, "D", ⟨9, 1⟩⟩, ⟨.rangle, ">", ⟨10, 1⟩⟩, ⟨.comma, ",", ⟨11, 1⟩⟩,
      ⟨.word, "E", ⟨12, 1⟩⟩, ⟨.langle, "<", ⟨13, 1⟩⟩, ⟨.word, "F", ⟨14, 1⟩⟩,
      ⟨.rangle, ">", ⟨15, 1⟩⟩, ⟨.rangle, ">", ⟨16, 1⟩⟩, Token.eof 17] := by
    decide +kernel
  obtain ⟨tokens, hscan, hhigh, hlow⟩ : ∃ tokens, scan "A => B<C<D>,E<F>>" = .ok tokens ∧
      Expression.ofTokens (({} : Settings).limited 2) "A => B<C<D>,E<F>>" tokens =
        .ok ⟨⟨"A", none⟩, .map ⟨"B", .cons "C" (.cons "D" .nil .nil)
          (.cons "E" (.cons "F" .nil .nil) .nil)⟩⟩ ∧
      Expression.ofTokens (({} : Settings).limited 1) "A => B<C<D>,E<F>>" tokens =
        .error (.ofFault "A => B<C<D>,E<F>>" ⟨.tooDeep 1, ⟨8, 1⟩⟩) := ⟨_, hscan, rfl, rfl⟩
  have h := ofTokens_limited {} "A => B<C<D>,E<F>>" tokens 1 2 (by decide)
  obtain ⟨t, ht, hblamed⟩ := (h.2.2 _ hhigh).2 (by decide)
  have hspan := congrArg Failure.span (Except.error.inj (hlow.symm.trans hblamed))
  exact ⟨tokens, hscan, hhigh, t, ht, hspan.symm, hblamed⟩

end Typemap

import Typemap.Proofs.Expression.Repeats
import Typemap.Proofs.Parse

/-!
# Failures come early

A fault begins at a token. The tokens in front of it have been read, and the
state that they lead to can be completed, unless a repeated name awaits its
value there. So a failure is reported at the first place where no expression is
possible any more, or one parameter later.
-/

namespace Typemap

open Grammar Token Reader

variable {settings : Settings} {text : String}

namespace Reader

variable {s : State} {t mark : Token} {read us : List Token} {f : Fault}

/-- A fault begins where the reader can still be led to an expression, or where
it stands between a repeated name and its value. -/
inductive FailsEarly (settings : Settings) : List Token → Fault → Prop where
  | mk {front back : List Token} {t : Token} {s : State} {f : Fault}
      (hpath : Path settings front s) (hoffset : f.span.offset = t.span.offset)
      (hs : Completable settings s ∨ (f.cause.kind = .unexpectedToken ∧ s.Repeats)) :
      FailsEarly settings (front ++ t :: back) f

theorem FailsEarly.append (h : FailsEarly settings us f) (more : List Token) :
    FailsEarly settings (us ++ more) f := by
  cases h with
  | mk hpath hoffset hs =>
      rw [List.append_assoc, List.cons_append]
      exact .mk hpath hoffset hs

/-- A token that is blamed itself stands behind all that has been read. -/
theorem Path.failsEarly (h : Path settings read s) (hoffset : f.span.offset = t.span.offset)
    (hs : Completable settings s) : FailsEarly settings (read ++ [t]) f :=
  .mk h hoffset (.inl hs)

theorem Path.failsEarly_of_candidate {source : Source} {name : String} {done : List Argument}
    {token : Token} (h : Path settings read (.candidate source name done token))
    (hoffset : f.span.offset = token.span.offset) : FailsEarly settings (read ++ [t]) f := by
  obtain ⟨front, rfl, hpath⟩ := h.exists_of_candidate
  exact (hpath.failsEarly hoffset (completable_parameter _ _ _)).append [t]

theorem refuse_of_ne_candidate
    (h : ∀ source name done token, s ≠ .candidate source name done token) :
    (s.refuse t).span = t.span := by
  cases s with
  | candidate source name done token => exact absurd rfl (h source name done token)
  | targetName source frames name => cases frames <;> rfl
  | _ => rfl

theorem State.Repeats.kind_refuse (h : s.Repeats) :
    (s.refuse t).cause.kind = .unexpectedToken := by
  cases s with
  | value => rfl
  | _ => exact absurd h id

theorem Path.failsEarly_refuse (h : Path settings read s) (t : Token) :
    FailsEarly settings (read ++ [t]) (s.refuse t) := by
  by_cases hcandidate : ∃ source name done token, s = .candidate source name done token
  · obtain ⟨source, name, done, token, rfl⟩ := hcandidate
    exact h.failsEarly_of_candidate rfl
  · have hs : ∀ source name done token, s ≠ .candidate source name done token :=
      fun source name done token heq => hcandidate ⟨source, name, done, token, heq⟩
    have hoffset := congrArg Span.offset (refuse_of_ne_candidate (t := t) hs)
    rcases completable_or_repeats hs with hcompletable | hrepeats
    · exact h.failsEarly hoffset hcompletable
    · exact .mk h hoffset (.inr ⟨hrepeats.kind_refuse, hrepeats⟩)

/-- A format is blamed at its parenthesis, behind the name of the source type. -/
theorem Path.failsEarly_misplacedFormat {name : String} {format : Format}
    (h : Path settings read (.sourceType ⟨name, some format⟩)) :
    FailsEarly settings (read ++ [t]) ⟨.misplacedFormat, format.opening⟩ := by
  have hreads := h.reads
  cases hreads with
  | sourceType d hd =>
      cases d with
      | plain nameToken hname => simp [SourceTree.source] at hd
      | formatted nameToken opening formatToken closing hname =>
          simp only [SourceTree.source, Source.mk.injEq, Option.some.injEq] at hd
          obtain ⟨-, rfl⟩ := hd
          have hpath : Path settings [nameToken] _ := Path.start.move (.sourceType hname)
          exact (hpath.failsEarly (t := opening) rfl (completable_sourceType _)).append
            [formatToken, closing, t]

/-- Empty brackets are blamed at the first of them, behind the name of a type. -/
theorem Path.failsEarly_emptyGenerics {source : Source} {frames : List Frame} {bracket : Span}
    (h : Path settings read (.opened source frames bracket)) :
    FailsEarly settings (read ++ [t]) ⟨.emptyGenerics, bracket.through t.span⟩ := by
  obtain ⟨front, opening, outer, name, rfl, -, rfl, hpath⟩ := h.exists_of_opened
  exact (hpath.failsEarly (t := opening) rfl (completable_targetName _ _ _)).append [t]

theorem Fails.failsEarly (h : Fails settings s t f) (hpath : Path settings read s) :
    FailsEarly settings (read ++ [t]) f := by
  cases h with
  | refused hfits => exact hpath.failsEarly_refuse t
  | name hdue => exact hpath.failsEarly rfl (completable_of_nameDue hdue)
  | format => exact hpath.failsEarly rfl (completable_format _ _)
  | misplacedFormat => exact hpath.failsEarly_misplacedFormat
  | tooDeep => exact hpath.failsEarly rfl (completable_targetName _ _ _)
  | emptyGenerics => exact hpath.failsEarly_emptyGenerics
  | parameterName => exact hpath.failsEarly_of_candidate rfl
  | @duplicate source name done token _ _ _ hname =>
      obtain ⟨front, equals, rfl, -, hparameter⟩ := hpath.exists_of_value
      have hearly := hparameter.failsEarly (t := token)
        (f := ⟨.duplicateParameter token.lexeme, token.span⟩) rfl (completable_parameter _ _ _)
      simpa using hearly.append [equals, t]

theorem Stuck.failsEarly (h : Stuck settings us mark f) :
    FailsEarly settings (us ++ [mark]) f := by
  cases h with
  | @token front back t _ _ hus hpath hfails =>
      subst hus
      simpa using (hfails.failsEarly hpath).append (back ++ [mark])
  | mark hpath hresult => exact hpath.failsEarly_refuse mark

theorem Path.viable_iff_exists_run (h : Path settings read s) :
    Viable settings text read ↔ ∃ more e, run settings text.length s more = .ok e := by
  simp only [Viable, Expression.ofTokens, reported_eq_ok_iff, h.run_append]

end Reader

/-- The tokens of a text that begin in front of one of them are those that stand
in front of it. -/
theorem Token.before_of_scan {front back : List Token} {t : Token}
    (hscan : scan text = .ok (front ++ t :: back)) :
    before t.span.offset (front ++ t :: back) = front := by
  obtain ⟨-, htail, hfront⟩ := List.pairwise_append.1 (tiled_of_scan hscan).pairwise
  have hback := (List.pairwise_cons.1 htail).1
  have hall : front.filter (fun u => decide (u.span.offset < t.span.offset)) = front := by
    rw [List.filter_eq_self]
    intro u hu
    obtain ⟨hnonempty, hstop⟩ := hfront u hu t List.mem_cons_self
    exact decide_eq_true (Nat.lt_of_lt_of_le hnonempty hstop)
  have hnone : back.filter (fun u => decide (u.span.offset < t.span.offset)) = [] := by
    rw [List.filter_eq_nil_iff]
    intro u hu
    obtain ⟨hnonempty, hstop⟩ := hback u hu
    simp only [decide_eq_true_eq, Nat.not_lt]
    exact Nat.le_of_lt (Nat.lt_of_lt_of_le hnonempty hstop)
  rw [before, List.filter_append, hall, List.filter_cons_of_neg (by simp), hnone, List.append_nil]

/-- A failure of the reader is reported as early as possible: the tokens in
front of it begin an expression. The only ones that do not are those in front of
a token that is refused as the value of a repeated name. -/
theorem viable_before_iff (settings : Settings) (text : String) (ts : List Token)
    (hscan : scan text = .ok ts) (f : Failure) (h : Mapping.parse settings text = .error f) :
    Viable settings text (before f.span.offset ts) ↔
      ¬ (f.kind = .unexpectedToken ∧ RepeatsName (before f.span.offset ts)) := by
  rw [Mapping.parse_eq_error_iff] at h
  obtain ⟨us, rfl, -⟩ := exists_eq_append_eof hscan
  obtain ⟨fault, hstuck, rfl⟩ := (Expression.parse_eq_error_iff hscan).1 h
  have hearly := hstuck.failsEarly
  generalize us ++ [eof text.length] = ts at hscan hearly ⊢
  obtain ⟨hpath, hoffset, hs⟩ := hearly
  have hbefore := before_of_scan hscan
  rw [← hoffset] at hbefore
  rw [show (Failure.ofFault text fault).span = fault.span from rfl, hbefore,
    hpath.viable_iff_exists_run]
  constructor
  · rintro ⟨more, e, hrun⟩ ⟨-, hrepeats⟩
    exact run_ne_ok_of_repeats (hpath.repeats hrepeats) more e hrun
  · intro hexcluded
    rcases hs with ⟨more, e, hrun⟩ | ⟨hkind, hrepeats⟩
    · exact ⟨more, e, hrun text.length⟩
    · exact absurd ⟨hkind, hpath.repeatsName hrepeats⟩ hexcluded

/-- Empty brackets are blamed at the first of them, behind a complete mapping.
Behind the second `a=` it is the parenthesis that is refused, and nothing else
would do. -/
theorem viable_before_iff_repeated :
    (∃ ts f, scan "A => B<>" = .ok ts ∧ Mapping.parse {} "A => B<>" = .error f ∧
        f.kind = .emptyGenericArgs ∧ Viable {} "A => B<>" (before f.span.offset ts)) ∧
      ∃ ts f, scan "A @ B(a=1,a=)" = .ok ts ∧ Mapping.parse {} "A @ B(a=1,a=)" = .error f ∧
        f.kind = .unexpectedToken ∧ f.span = ⟨12, 1⟩ ∧
          ¬ Viable {} "A @ B(a=1,a=)" (before f.span.offset ts) := by
  constructor
  · have hscan : scan "A => B<>" = .ok [⟨.word, "A", ⟨0, 1⟩⟩, ⟨.arrow, "=>", ⟨2, 2⟩⟩,
        ⟨.word, "B", ⟨5, 1⟩⟩, ⟨.langle, "<", ⟨6, 1⟩⟩, ⟨.rangle, ">", ⟨7, 1⟩⟩, Token.eof 8] := by
      decide +kernel
    have hparse : Mapping.parse {} "A => B<>" =
        .error (.ofFault "A => B<>" ⟨.emptyGenerics, ⟨6, 2⟩⟩) := by
      decide +kernel
    refine ⟨_, _, hscan, hparse, rfl, ?_⟩
    rw [viable_before_iff {} "A => B<>" _ hscan _ hparse]
    exact fun hexcepted => absurd hexcepted.1 (by decide)
  · have hscan : scan "A @ B(a=1,a=)" = .ok [⟨.word, "A", ⟨0, 1⟩⟩, ⟨.atSign, "@", ⟨2, 1⟩⟩,
        ⟨.word, "B", ⟨4, 1⟩⟩, ⟨.lparen, "(", ⟨5, 1⟩⟩, ⟨.word, "a", ⟨6, 1⟩⟩, ⟨.equals, "=", ⟨7, 1⟩⟩,
        ⟨.word, "1", ⟨8, 1⟩⟩, ⟨.comma, ",", ⟨9, 1⟩⟩, ⟨.word, "a", ⟨10, 1⟩⟩,
        ⟨.equals, "=", ⟨11, 1⟩⟩, ⟨.rparen, ")", ⟨12, 1⟩⟩, Token.eof 13] := by
      decide +kernel
    have hparse : Mapping.parse {} "A @ B(a=1,a=)" = .error ⟨.unexpectedToken,
        "expected a parameter value, found `)`", "A @ B(a=1,a=)", ⟨12, 1⟩, none⟩ := by
      decide +kernel
    refine ⟨_, _, hscan, hparse, rfl, rfl, ?_⟩
    rw [viable_before_iff {} "A @ B(a=1,a=)" _ hscan _ hparse, not_not]
    refine ⟨rfl, ?_⟩
    have hearlier : Governs .parameter ([⟨.word, "A", ⟨0, 1⟩⟩, ⟨.atSign, "@", ⟨2, 1⟩⟩,
        ⟨.word, "B", ⟨4, 1⟩⟩] ++ [⟨.lparen, "(", ⟨5, 1⟩⟩]) (⟨.equals, "=", ⟨7, 1⟩⟩ ::
        [⟨.word, "1", ⟨8, 1⟩⟩, ⟨.comma, ",", ⟨9, 1⟩⟩, ⟨.word, "a", ⟨10, 1⟩⟩,
        ⟨.equals, "=", ⟨11, 1⟩⟩]) :=
      .parameter (by decide) (by decide) rfl
    have hrepeated : Governs .parameter ([⟨.word, "A", ⟨0, 1⟩⟩, ⟨.atSign, "@", ⟨2, 1⟩⟩,
        ⟨.word, "B", ⟨4, 1⟩⟩, ⟨.lparen, "(", ⟨5, 1⟩⟩, ⟨.word, "a", ⟨6, 1⟩⟩, ⟨.equals, "=", ⟨7, 1⟩⟩,
        ⟨.word, "1", ⟨8, 1⟩⟩] ++ [⟨.comma, ",", ⟨9, 1⟩⟩]) (⟨.equals, "=", ⟨11, 1⟩⟩ :: []) :=
      .parameter (by decide) (by decide) rfl
    have hrepeats : RepeatsName ([⟨.word, "A", ⟨0, 1⟩⟩, ⟨.atSign, "@", ⟨2, 1⟩⟩,
        ⟨.word, "B", ⟨4, 1⟩⟩, ⟨.lparen, "(", ⟨5, 1⟩⟩] ++ ⟨.word, "a", ⟨6, 1⟩⟩ ::
        [⟨.equals, "=", ⟨7, 1⟩⟩, ⟨.word, "1", ⟨8, 1⟩⟩, ⟨.comma, ",", ⟨9, 1⟩⟩] ++
        [⟨.word, "a", ⟨10, 1⟩⟩, ⟨.equals, "=", ⟨11, 1⟩⟩]) :=
      .mk ⟨rfl, rfl⟩ rfl hearlier hrepeated
    exact hrepeats

end Typemap

import Typemap.Failure.Blame
import Typemap.Proofs.Expression.Paths
import Typemap.Proofs.Token.Places

/-!
# What the reader blames

What the reader has read tells which name rule a place has, which tokens the
places in its state belong to, and which parameters came before. So each fault
of the reader blames a token of its kind, or a pair of brackets with nothing
between them.
-/

namespace Typemap

namespace Reader

open Grammar Token

variable {settings : Settings}

theorem OpenList.eq_nil_or_concat {α β : Type} {value : β → α} {tokens : β → List Token}
    {done : List α} {ts : List Token} (h : OpenList value tokens done ts) :
    ts = [] ∨ ∃ init comma, ts = init ++ [comma] ∧ comma.kind = .comma := by
  cases h with
  | nil => exact .inl rfl
  | snoc _ _ hcomma => exact .inr ⟨_, _, rfl, hcomma⟩

theorem OpenFrames.eq_nil_or_concat {frames : List Frame} {ts : List Token}
    (h : OpenFrames settings frames ts) :
    ts = [] ∨ ∃ init sign, ts = init ++ [sign] ∧ (sign.kind = .langle ∨ sign.kind = .comma) := by
  cases h with
  | nil => exact .inl rfl
  | @cons _ ts us name opening _ _ _ hopening hdone =>
      right
      rcases hdone.eq_nil_or_concat with rfl | ⟨init, comma, rfl, hcomma⟩
      · exact ⟨ts ++ [name], opening, by simp, .inl hopening⟩
      · exact ⟨ts ++ name :: opening :: init, comma, by simp, .inr hcomma⟩

theorem TargetHead.exists_arrow {source : Source} {ts : List Token} (h : TargetHead source ts) :
    ∃ init arrow, ts = init ++ [arrow] ∧ arrow.kind = .arrow := by
  cases h with
  | mk d _ harrow => exact ⟨d.tokens, _, rfl, harrow⟩

theorem AnnotationHead.exists_mark {source : Source} {ts : List Token}
    (h : AnnotationHead source ts) : ∃ init mark, ts = init ++ [mark] ∧ mark.kind = .atSign := by
  cases h with
  | mk d _ _ hmark => exact ⟨d.tokens, _, rfl, hmark⟩

theorem ParametersHead.exists_opening {source : Source} {name : String} {ts : List Token}
    (h : ParametersHead source name ts) :
    ∃ init opening, ts = init ++ [opening] ∧ opening.kind = .lparen ∧
      ∃ t ∈ init, t.kind = .atSign := by
  cases h with
  | @mk _ hhead name _ _ hopening =>
      obtain ⟨init, mark, rfl, hmark⟩ := hhead.exists_mark
      exact ⟨init ++ [mark, name], _, by simp, hopening, mark, by simp, hmark⟩

theorem TargetHead.governs {source : Source} {frames : List Frame} {ts us : List Token}
    (hhead : TargetHead source ts) (hframes : OpenFrames settings frames us) (after : List Token) :
    Governs .qualified (ts ++ us) after := by
  obtain ⟨init, arrow, rfl, harrow⟩ := hhead.exists_arrow
  rcases hframes.eq_nil_or_concat with rfl | ⟨front, sign, rfl, hsign⟩
  · rw [List.append_nil]
    exact .target harrow
  · rw [← List.append_assoc]
    exact .generic ⟨arrow, by simp, harrow⟩ hsign

theorem ParametersHead.governs {source : Source} {name : String} {ts us : List Token}
    {done : List Argument} (hhead : ParametersHead source name ts)
    (hdone : OpenList NamedTree.argument NamedTree.tokens done us) {equals : Token}
    (hequals : equals.kind = .equals) (after : List Token) :
    Governs .parameter (ts ++ us) (equals :: after) := by
  obtain ⟨init, opening, rfl, hopening, mark, hmem, hmark⟩ := hhead.exists_opening
  rcases hdone.eq_nil_or_concat with rfl | ⟨front, comma, rfl, hcomma⟩
  · rw [List.append_nil]
    exact .parameter ⟨mark, hmem, hmark⟩ (.inl hopening) hequals
  · rw [← List.append_assoc]
    exact .parameter ⟨mark, by simp [hmem], hmark⟩ (.inr hcomma) hequals

/-- A name that is due must be a qualified name. -/
theorem Reads.governs_of_nameDue {s : State} {read : List Token} (h : Reads settings s read)
    (hdue : NameDue s) (after : List Token) : Governs .qualified read after := by
  cases hdue with
  | start =>
      cases h with
      | start => exact .source
  | target =>
      cases h with
      | target hhead hframes => exact hhead.governs hframes after
  | opened =>
      cases h with
      | opened hhead hframes => exact hhead.governs hframes after
  | annotating =>
      cases h with
      | annotating hhead =>
          obtain ⟨init, mark, rfl, hmark⟩ := hhead.exists_mark
          exact .annotated hmark

/-- The place that a source type keeps of its format is that of a token. -/
theorem Reads.exists_opening {name : String} {format : Format} {read : List Token}
    (h : Reads settings (.sourceType ⟨name, some format⟩) read) :
    ∃ t ∈ read, t.kind = .lparen ∧ t.span = format.opening := by
  cases h with
  | sourceType d hd =>
      cases d with
      | plain nameToken hname => simp [SourceTree.source] at hd
      | formatted nameToken opening formatToken closing hname hopening hword hformat hclosing =>
          simp only [SourceTree.source, Source.mk.injEq, Option.some.injEq] at hd
          obtain ⟨-, rfl⟩ := hd
          exact ⟨opening, by simp [SourceTree.tokens], hopening, rfl⟩

theorem OpenList.exists_of_mem {α β : Type} {value : β → α} {tokens : β → List Token}
    {done : List α} {ts : List Token} (h : OpenList value tokens done ts) {a : α} (ha : a ∈ done) :
    ∃ d front back before, value d = a ∧ ts = front ++ tokens d ++ back ∧
      OpenList value tokens before front := by
  induction h with
  | nil => simp at ha
  | @snoc done ts h d comma hcomma ih =>
      rcases List.mem_append.1 ha with ha | ha
      · obtain ⟨d', front, back, before, hd', rfl, hfront⟩ := ih ha
        exact ⟨d', front, back ++ tokens d ++ [comma], before, hd', by simp, hfront⟩
      · obtain rfl := List.mem_singleton.1 ha
        exact ⟨d, ts, [comma], done, rfl, rfl, h⟩

/-- Where a value is due, an earlier parameter cuts what has been read in two. -/
theorem Reads.exists_earlier {source : Source} {name : String} {done : List Argument}
    {token : Token} {read : List Token} (h : Reads settings (.value source name done token) read)
    {a : Argument} (ha : a ∈ done) (hname : a.name? = some token.lexeme) :
    ∃ before earlier between equals, read = before ++ earlier :: between ++ [token, equals] ∧
      (earlier.kind = .word ∧ token.kind = .word) ∧ token.lexeme = earlier.lexeme ∧
        ∀ rest, Governs .parameter before (between ++ token :: equals :: rest) ∧
          Governs .parameter (before ++ earlier :: between) (equals :: rest) := by
  cases h with
  | @value _ _ _ _ equals ts us hhead hdone hword _ hequals =>
      obtain ⟨d, front, back, before, rfl, rfl, hbefore⟩ := hdone.isOpen.exists_of_mem ha
      refine ⟨ts ++ front, d.name, d.equals :: d.value.token :: back, equals, ?_, ⟨d.isWord, hword⟩,
        (Option.some.inj hname).symm, fun rest => ⟨?_, ?_⟩⟩
      · simp [NamedTree.tokens]
      · exact hhead.governs hbefore d.isEquals _
      · simpa [NamedTree.tokens] using hhead.governs hdone.isOpen hequals rest

/-- What is wrong with a refused token shows in the state: something else is
due, a value lacks its name, or the expression is complete. -/
inductive Refusal (t : Token) : State → Fault → Prop where
  | unexpected {s : State} {wanted : Expectation} :
      Refusal t s ⟨.unexpected wanted t.lexeme?, t.span⟩
  | unnamed {source : Source} {name : String} {done : List Argument} {token : Token} :
      Refusal t (.candidate source name done token) ⟨.unnamedValue token.lexeme, token.span⟩
  | trailing {s : State} {e : Expression} (hresult : s.result? = some e) :
      Refusal t s ⟨.trailing t.lexeme, t.span⟩

theorem refusal_refuse (s : State) (t : Token) : Refusal t s (s.refuse t) := by
  cases s with
  | targetName source frames name =>
      cases frames with
      | nil => exact .trailing rfl
      | cons inner outer => exact .unexpected
  | annotated source name => exact .trailing rfl
  | complete e => exact .trailing rfl
  | candidate source name done token => exact .unnamed
  | _ => exact .unexpected

theorem Refusal.exists_token {s : State} {read : List Token} {t : Token} {f : Fault}
    (h : Refusal t s f) (hreads : Reads settings s read) :
    ∃ u ∈ read ++ [t], f.span.offset = u.span.offset := by
  cases h with
  | unexpected => exact ⟨t, by simp, rfl⟩
  | trailing => exact ⟨t, by simp, rfl⟩
  | @unnamed _ _ _ token =>
      cases hreads with
      | candidate => exact ⟨token, by simp, rfl⟩

/-- A fault begins where a token begins that has been read, or that the reader
fails at. -/
theorem Fails.exists_token {s : State} {read : List Token} {t : Token} {f : Fault}
    (h : Fails settings s t f) (hpath : Path settings read s) :
    ∃ u ∈ read ++ [t], f.span.offset = u.span.offset := by
  have hreads := hpath.reads
  cases h with
  | refused hfits => exact (refusal_refuse s t).exists_token hreads
  | name => exact ⟨t, by simp, rfl⟩
  | format => exact ⟨t, by simp, rfl⟩
  | tooDeep => exact ⟨t, by simp, rfl⟩
  | misplacedFormat hkind =>
      obtain ⟨opening, hopening, -, hspan⟩ := hreads.exists_opening
      exact ⟨opening, List.mem_append_left _ hopening, by rw [hspan]⟩
  | emptyGenerics hkind =>
      obtain ⟨front, opening, _, _, rfl, -, rfl, -⟩ := hpath.exists_of_opened
      exact ⟨opening, by simp, rfl⟩
  | @parameterName _ _ _ token =>
      cases hreads with
      | candidate => exact ⟨token, by simp, rfl⟩
  | @duplicate _ _ _ token =>
      cases hreads with
      | value => exact ⟨token, by simp, rfl⟩

theorem Stuck.exists_token {us : List Token} {mark : Token} {f : Fault}
    (h : Stuck settings us mark f) : ∃ u ∈ us ++ [mark], f.span.offset = u.span.offset := by
  cases h with
  | token hus hpath hfails =>
      subst hus
      obtain ⟨u, hu, hoffset⟩ := hfails.exists_token hpath
      refine ⟨u, ?_, hoffset⟩
      rcases List.mem_append.1 hu with hu | hu
      · simp [hu]
      · simp [List.mem_singleton.1 hu]
  | mark hpath hresult => exact (refusal_refuse _ _).exists_token hpath.reads

end Reader

end Typemap

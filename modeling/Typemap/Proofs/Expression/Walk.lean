import Typemap.Expression.Descent

/-!
# Rules that stay in the buffer

A buffer with an end mark is long enough for the rules of the descent. `Meets`
is a triple for a rule with the tokens ahead of it: the rule ends, the cursor and
all places that it looks at are no further than the first end mark, and its
result meets a goal. A fault must be that of an outcome given beforehand.
-/

namespace Typemap

namespace Descent

/-- A list of tokens, cut at its first end mark. -/
structure Marked where
  front : List Token
  mark : Token
  rest : List Token
  plain : ∀ t ∈ front, t.kind ≠ .eof
  isMark : mark.kind = .eof

namespace Marked

def tokens (input : Marked) : List Token := input.front ++ input.mark :: input.rest

/-- The next token, when `us` are those in front of the mark. -/
def next (input : Marked) (us : List Token) : Token := us.headD input.mark

@[simp] theorem next_nil (input : Marked) : input.next [] = input.mark := rfl

@[simp] theorem next_cons (input : Marked) (t : Token) (us : List Token) :
    input.next (t :: us) = t := rfl

theorem exists_cons {input : Marked} {us : List Token} {kind : Token.Kind} (hkind : kind ≠ .eof)
    (h : (input.next us).kind = kind) : ∃ t us', us = t :: us' ∧ t.kind = kind := by
  cases us with
  | nil => exact absurd (h.symm.trans input.isMark) hkind
  | cons t us => exact ⟨t, us, rfl, h⟩

end Marked

/-- The walk has not gone behind the place `limit`. -/
structure Walk.Within (limit : Nat) (walk : Walk) : Prop where
  cursor : walk.cursor ≤ limit
  seen : ∀ i ∈ walk.seen, i ≤ limit

/-- The cursor has the tokens `us` ahead of it, and then the end mark. -/
structure Stands (input : Marked) (us : List Token) (walk : Walk) : Prop where
  ahead : ∃ read, input.front = read ++ us ∧ walk.cursor = read.length
  seen : ∀ i ∈ walk.seen, i ≤ input.front.length

/-- With the tokens `us` ahead, the rule ends and does not look behind the end
mark. It comes to the fault of the outcome, or to a result of which the goal
holds together with the tokens that are left. -/
def Meets (input : Marked) (outcome : Except Fault Expression) {α : Type} (rule : Rule α)
    (us : List Token) (goal : α → List Token → Prop) : Prop :=
  ∀ walk, Stands input us walk →
    (∃ fault walk', rule walk = some (.error fault, walk') ∧
        walk'.Within input.front.length ∧ outcome = .error fault) ∨
      ∃ a us' walk', rule walk = some (.ok a, walk') ∧ Stands input us' walk' ∧ goal a us'

variable {input : Marked} {outcome : Except Fault Expression} {α β : Type} {rule : Rule α}
  {us : List Token} {walk walk' : Walk} {t : Token}

namespace Stands

theorem cursor_add (h : Stands input us walk) :
    walk.cursor + us.length = input.front.length := by
  obtain ⟨read, hfront, hcursor⟩ := h.ahead
  rw [hcursor, hfront, List.length_append]

theorem within (h : Stands input us walk) : walk.Within input.front.length where
  cursor := h.cursor_add ▸ Nat.le_add_right _ _
  seen := h.seen

theorem kind_ne_eof (h : Stands input us walk) (ht : t ∈ us) : t.kind ≠ .eof := by
  obtain ⟨read, hfront, -⟩ := h.ahead
  exact input.plain t (by rw [hfront]; exact List.mem_append_right _ ht)

theorem getElem?_cursor_add (h : Stands input us walk) (i : Nat) :
    input.tokens[walk.cursor + i]? = (us ++ input.mark :: input.rest)[i]? := by
  obtain ⟨read, hfront, hcursor⟩ := h.ahead
  rw [Marked.tokens, hfront, hcursor, List.append_assoc,
    List.getElem?_append_right (Nat.le_add_right _ _), Nat.add_sub_cancel_left]

theorem getElem?_cursor (h : Stands input us walk) :
    input.tokens[walk.cursor]? = some (input.next us) := by
  rw [← Nat.add_zero walk.cursor, h.getElem?_cursor_add]
  cases us with
  | nil => rfl
  | cons t us => rfl

theorem getElem?_succ (h : Stands input (t :: us) walk) :
    input.tokens[walk.cursor + 1]? = some (input.next us) := by
  rw [h.getElem?_cursor_add]
  cases us with
  | nil => rfl
  | cons t us => rfl

theorem look (h : Stands input us walk) {place : Nat} (hplace : place ≤ input.front.length) :
    Stands input us { walk with seen := walk.seen ++ [place] } where
  ahead := h.ahead
  seen i hi := by
    rcases List.mem_append.1 hi with hi | hi
    · exact h.seen i hi
    · exact (List.mem_singleton.1 hi) ▸ hplace

theorem move (h : Stands input (t :: us) walk) :
    Stands input us { walk with cursor := walk.cursor + 1 } where
  ahead := by
    obtain ⟨read, hfront, hcursor⟩ := h.ahead
    exact ⟨read ++ [t], by simp [hfront], by simp [hcursor]⟩
  seen := h.seen

end Stands

theorem bind_apply (rule : Rule α) (next : α → Rule β) (walk : Walk) :
    (rule >>= next) walk = (rule walk).bind fun p => ExceptT.bindCont next p.1 p.2 := rfl

namespace Meets

theorem bind {next : α → Rule β} {goal : α → List Token → Prop}
    {goal' : β → List Token → Prop} (h : Meets input outcome rule us goal)
    (hnext : ∀ a us', goal a us' → Meets input outcome (next a) us' goal') :
    Meets input outcome (rule >>= next) us goal' := by
  intro walk hwalk
  rcases h walk hwalk with ⟨fault, walk', hrule, hwithin, houtcome⟩ | ⟨a, us', walk', hrule,
    hstands, hgoal⟩
  · have hbind : (rule >>= next) walk = some (.error fault, walk') := by
      rw [bind_apply, hrule]
      rfl
    exact .inl ⟨fault, walk', hbind, hwithin, houtcome⟩
  · have hbind : (rule >>= next) walk = next a walk' := by
      rw [bind_apply, hrule]
      rfl
    rw [hbind]
    exact hnext a us' hgoal walk' hstands

theorem result {goal : α → List Token → Prop} {a : α} (h : goal a us) :
    Meets input outcome (pure a) us goal :=
  fun walk hwalk => .inr ⟨a, us, walk, rfl, hwalk, h⟩

theorem fault {goal : α → List Token → Prop} {fault : Fault} (h : outcome = .error fault) :
    Meets input outcome (throw fault) us goal :=
  fun walk hwalk => .inl ⟨fault, walk, rfl, hwalk.within, h⟩

theorem mono {goal goal' : α → List Token → Prop} (h : Meets input outcome rule us goal)
    (himp : ∀ a us', goal a us' → goal' a us') : Meets input outcome rule us goal' := by
  intro walk hwalk
  rcases h walk hwalk with hfault | ⟨a, us', walk', hrule, hstands, hgoal⟩
  · exact .inl hfault
  · exact .inr ⟨a, us', walk', hrule, hstands, himp a us' hgoal⟩

theorem of_plain {goal : α → List Token → Prop}
    (h : (∀ t ∈ us, t.kind ≠ .eof) → Meets input outcome rule us goal) :
    Meets input outcome rule us goal :=
  fun walk hwalk => h (fun _ ht => hwalk.kind_ne_eof ht) walk hwalk

end Meets

theorem look_eq {buffer : List Token} {place : Nat} (h : buffer[place]? = some t) :
    look buffer place walk = some (.ok t, { walk with seen := walk.seen ++ [place] }) := by
  rw [look, h]
  rfl

theorem meets_peek (us : List Token) :
    Meets input outcome (peek input.tokens) us fun t us' => input.next us = t ∧ us = us' := by
  intro walk hwalk
  exact .inr ⟨input.next us, us, _, look_eq hwalk.getElem?_cursor,
    hwalk.look hwalk.within.cursor, rfl, rfl⟩

theorem meets_peekNext (t : Token) (us : List Token) :
    Meets input outcome (peekNext input.tokens) (t :: us) fun t' us' =>
      input.next us = t' ∧ t :: us = us' := by
  intro walk hwalk
  have hcursor := hwalk.cursor_add
  rw [List.length_cons] at hcursor
  -- The mark is behind the next token, so that the buffer does not end with this one.
  have hplace : min (walk.cursor + 1) (input.tokens.length - 1) = walk.cursor + 1 := by
    rw [Marked.tokens, List.length_append, List.length_cons]
    omega
  have hlook : peekNext input.tokens walk = look input.tokens (walk.cursor + 1) walk :=
    congrArg (fun place => look input.tokens place walk) hplace
  exact .inr ⟨input.next us, t :: us, _, hlook.trans (look_eq hwalk.getElem?_succ),
    hwalk.look (by omega), rfl, rfl⟩

theorem meets_check (kind : Token.Kind) (us : List Token) :
    Meets input outcome (check input.tokens kind) us fun found us' =>
      ((input.next us).kind == kind) = found ∧ us = us' := by
  refine (meets_peek us).bind ?_
  rintro _ _ ⟨rfl, rfl⟩
  exact .result ⟨rfl, rfl⟩

/-- A branch on the kind of the next token. -/
theorem meets_ite_check {kind : Token.Kind} {found missing : Rule α}
    {goal : α → List Token → Prop} (hkind : kind ≠ .eof)
    (hfound : ∀ t us', us = t :: us' → t.kind = kind → Meets input outcome found us goal)
    (hmissing : (input.next us).kind ≠ kind → Meets input outcome missing us goal) :
    Meets input outcome (check input.tokens kind >>= fun b => if b = true then found else missing)
      us goal := by
  refine (meets_check kind us).bind ?_
  rintro _ _ ⟨rfl, rfl⟩
  by_cases hnext : (input.next us).kind = kind
  · obtain ⟨t, us', hus, ht⟩ := Marked.exists_cons hkind hnext
    rw [if_pos (beq_iff_eq.2 hnext)]
    exact hfound t us' hus ht
  · rw [if_neg (mt beq_iff_eq.1 hnext)]
    exact hmissing hnext

theorem meets_advance (t : Token) (us : List Token) :
    Meets input outcome (advance input.tokens) (t :: us) fun t' us' => t = t' ∧ us = us' := by
  refine .of_plain fun hplain => ?_
  refine (meets_peek (t :: us)).bind ?_
  rintro _ _ ⟨rfl, rfl⟩
  refine (meets_check .eof (t :: us)).bind ?_
  rintro _ _ ⟨rfl, rfl⟩
  have hkind : ((input.next (t :: us)).kind == .eof) = false :=
    beq_eq_false_iff_ne.2 (hplain t List.mem_cons_self)
  rw [hkind, if_neg Bool.false_ne_true]
  intro walk hwalk
  exact .inr ⟨t, us, _, rfl, hwalk.move, rfl, rfl⟩

theorem meets_accept {kind : Token.Kind} (hkind : kind ≠ .eof) (us : List Token) :
    Meets input outcome (accept input.tokens kind) us fun taken us' =>
      (taken = true ∧ ∃ t, us = t :: us' ∧ t.kind = kind) ∨
        (taken = false ∧ us = us' ∧ (input.next us).kind ≠ kind) := by
  refine meets_ite_check hkind ?_ fun hne => .result (.inr ⟨rfl, rfl, hne⟩)
  rintro t us rfl ht
  refine (meets_advance t us).bind ?_
  rintro _ _ ⟨rfl, rfl⟩
  exact .result (.inl ⟨rfl, t, rfl, ht⟩)

theorem meets_unexpected {wanted : Expectation} {goal : α → List Token → Prop}
    (h : outcome = .error ⟨.unexpected wanted (input.next us).lexeme?, (input.next us).span⟩) :
    Meets input outcome (unexpected input.tokens wanted) us goal := by
  refine (meets_peek us).bind ?_
  rintro _ _ ⟨rfl, rfl⟩
  exact .fault h

theorem meets_consume {kind : Token.Kind} {wanted : Expectation} (hkind : kind ≠ .eof)
    (h : (input.next us).kind ≠ kind →
      outcome = .error ⟨.unexpected wanted (input.next us).lexeme?, (input.next us).span⟩) :
    Meets input outcome (consume input.tokens kind wanted) us fun t us' =>
      us = t :: us' ∧ t.kind = kind := by
  refine meets_ite_check hkind ?_ fun hne => meets_unexpected (h hne)
  rintro t us rfl ht
  refine (meets_advance t us).mono ?_
  rintro _ _ ⟨rfl, rfl⟩
  exact ⟨rfl, ht⟩

/-- A loop over items, each of which takes at least one token, needs no more
rounds than there are tokens ahead. -/
theorem meets_separated {item : List α → Rule α} {n rounds : Nat} {done : List α}
    {due behind : List α → List Token → Prop}
    (hitem : ∀ done us, us.length < n → due done us →
      Meets input outcome (item done) us fun a us' =>
        us'.length < us.length ∧ behind (done ++ [a]) us')
    (hcomma : ∀ done t us, t.kind = .comma → behind done (t :: us) → due done us)
    (hrounds : us.length < rounds) (hn : us.length < n) (hdue : due done us) :
    Meets input outcome (separated input.tokens item rounds done) us fun items us' =>
      us'.length < us.length ∧ (input.next us').kind ≠ .comma ∧ behind items us' := by
  induction rounds generalizing done us with
  | zero => exact absurd hrounds (Nat.not_lt_zero _)
  | succ rounds ih =>
      refine (hitem done us hn hdue).bind ?_
      rintro a us₁ ⟨hshorter, hbehind⟩
      refine (meets_accept (by decide) us₁).bind ?_
      rintro taken us₂ (⟨rfl, comma, rfl, hkind⟩ | ⟨rfl, rfl, hkind⟩)
      · rw [List.length_cons] at hshorter
        rw [if_pos rfl]
        refine (ih (by omega) (by omega) (hcomma _ comma us₂ hkind hbehind)).mono ?_
        rintro items us₃ ⟨hshorter', hnext, hbehind'⟩
        exact ⟨by omega, hnext, hbehind'⟩
      · rw [if_neg Bool.false_ne_true]
        exact .result ⟨hshorter, hkind, hbehind⟩

end Descent

end Typemap

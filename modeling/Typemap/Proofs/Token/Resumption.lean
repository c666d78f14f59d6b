import Mathlib.Data.Nat.Find
import Typemap.Proofs.Token.Faults
import Typemap.Token.Resumption

/-!
# Resuming a scan

Between the calls a walk stands somewhere in the text. In front of that place
what has been blamed is blank, and cutting the blanked front gives the tokens so
far, with any text behind it. Each failing call keeps this and goes on behind
what it blames, so that the first call that succeeds has gathered the tokens of
the blanked text. From there on only end marks are added.
-/

namespace Typemap

namespace Span

variable {s : Span} {offset : Nat}

theorem covers_eq_false_of_stop_le (h : s.stop ≤ offset) : s.covers offset = false := by
  simp only [covers, decide_eq_false_iff_not]
  omega

theorem covers_eq_false_of_lt (h : offset < s.offset) : s.covers offset = false := by
  simp only [covers, decide_eq_false_iff_not]
  omega

end Span

section

variable {spans : List Span} {span : Span} {offset : Nat} {cs : List Char}

/-- What stands behind all spans is not blanked. -/
theorem blankFrom_eq_self (h : ∀ s ∈ spans, s.stop ≤ offset) : blankFrom spans offset cs = cs := by
  induction cs generalizing offset with
  | nil => rfl
  | cons c cs ih =>
      have hcovers : spans.any (·.covers offset) = false := by
        rw [List.any_eq_false]
        intro s hs
        simp [Span.covers_eq_false_of_stop_le (h s hs)]
      rw [blankFrom, hcovers, ih fun s hs => Nat.le_succ_of_le (h s hs)]
      rfl

/-- What stands in front of a span does not change with it. -/
theorem blankFrom_concat (h : offset + cs.length ≤ span.offset) :
    blankFrom (spans ++ [span]) offset cs = blankFrom spans offset cs := by
  induction cs generalizing offset with
  | nil => rfl
  | cons c cs ih =>
      rw [List.length_cons] at h
      have hcovers : span.covers offset = false := Span.covers_eq_false_of_lt (by omega)
      have hany : (spans ++ [span]).any (·.covers offset) = spans.any (·.covers offset) := by
        rw [List.any_append, List.any_cons, List.any_nil, hcovers, Bool.or_false, Bool.or_false]
      rw [blankFrom, blankFrom, ih (by omega), hany]

theorem blankFrom_eq_replicate (hspan : span ∈ spans) (hlow : span.offset ≤ offset)
    (hhigh : offset + cs.length ≤ span.stop) :
    blankFrom spans offset cs = List.replicate cs.length ' ' := by
  induction cs generalizing offset with
  | nil => rfl
  | cons c cs ih =>
      rw [List.length_cons] at hhigh
      have hcovers : spans.any (·.covers offset) = true := by
        refine List.any_eq_true.2 ⟨span, hspan, ?_⟩
        simp only [Span.covers, decide_eq_true_eq]
        omega
      rw [blankFrom, hcovers, ih (by omega) (by omega), List.length_cons, List.replicate_succ]
      rfl

/-- A span behind all others blanks a text that goes on with it. -/
theorem blankFrom_extend {front middle piece : List Char}
    (hstop : ∀ s ∈ spans, s.stop ≤ front.length)
    (hspan : span = ⟨front.length + middle.length, piece.length⟩) :
    blankFrom (spans ++ [span]) 0 (front ++ (middle ++ piece)) =
      blankFrom spans 0 front ++ (middle ++ List.replicate piece.length ' ') := by
  subst hspan
  have hfront : 0 + front.length ≤ front.length + middle.length := by omega
  rw [blankFrom_append, blankFrom_append, blankFrom_concat hfront, Nat.zero_add,
    blankFrom_concat (Nat.le_refl _), blankFrom_eq_self hstop,
    blankFrom_eq_replicate (List.mem_concat_self) (Nat.le_refl _) (Nat.le_refl _)]

end

namespace Token

theorem tiles_replicate (n offset : Nat) (rest : List Char) :
    tiles offset (List.replicate n ' ' ++ rest) = tiles (offset + n) rest := by
  induction n generalizing offset with
  | zero => rfl
  | succ n ih =>
      rw [List.replicate_succ, List.cons_append, tiles_of_isBlank rfl, ih, Nat.add_assoc,
        Nat.add_comm 1]

/-- A fault blames a part of the text in front of which it stands, and not
nothing. -/
theorem IsFault.exists_append {offset : Nat} {cs : List Char} {fault : Fault}
    (h : IsFault offset cs fault) :
    ∃ c piece rest, cs = c :: piece ++ rest ∧ fault.span = ⟨offset, (c :: piece).length⟩ := by
  cases h with
  | @stray c cs => exact ⟨c, [], cs, rfl, rfl⟩
  | @unclosed q cs => exact ⟨q, cs, [], (List.append_nil _).symm, rfl⟩

namespace Scan

/-- A walk that has come to the end of `front`, where `back` begins, and has
blamed the spans. -/
structure Walked (front back : List Char) (spans : List Span) (s : Scan) : Prop where
  ahead : s.ahead = tiles front.length back
  size : s.size = (front ++ back).length
  stop_le : ∀ span ∈ spans, span.stop ≤ front.length
  length_le : spans.length ≤ front.length
  tiles_eq : ∀ rest, tiles 0 (blankFrom spans 0 front ++ rest) =
    s.tokens.map .token ++ tiles front.length rest

theorem walked_start (text : String) : Walked [] text.toList [] (start text) where
  ahead := rfl
  size := (String.length_toList).symm
  stop_le := by simp
  length_le := Nat.le_refl _
  tiles_eq _ := rfl

variable {front back : List Char} {spans : List Span} {s s' : Scan} {fault : Fault}

/-- What a call can do. -/
theorem resume_cases (s : Scan) :
    (∃ found, gather s.ahead = (found, none) ∧
        s.resume = (none, ⟨[], s.size, s.tokens ++ found ++ [Token.eof s.size]⟩)) ∨
      ∃ found fault ahead, gather s.ahead = (found, some (fault, ahead)) ∧
        s.resume = (some fault, ⟨ahead, s.size, s.tokens ++ found⟩) := by
  unfold resume
  split
  · rename_i found fault ahead hgather
    exact .inr ⟨found, fault, ahead, hgather, rfl⟩
  · rename_i found hgather
    exact .inl ⟨found, hgather, rfl⟩

theorem isPrefix_tokens_resume (s : Scan) : s.tokens <+: s.resume.2.tokens := by
  rcases s.resume_cases with ⟨found, -, hresume⟩ | ⟨found, fault, ahead, -, hresume⟩
  · rw [hresume, List.append_assoc]
    exact List.prefix_append _ _
  · rw [hresume]
    exact List.prefix_append _ _

/-- A failing call goes on behind what it blames. -/
theorem Walked.resume (h : Walked front back spans s) (hfault : s.resume.1 = some fault) :
    ∃ front' back', front ++ back = front' ++ back' ∧
      Walked front' back' (spans ++ [fault.span]) s.resume.2 ∧
        front.length ≤ fault.span.offset ∧ fault.span.offset < fault.span.stop ∧
          front'.length = fault.span.stop := by
  rcases s.resume_cases with ⟨found, -, hresume⟩ | ⟨found, fault', ahead, hgather, hresume⟩
  · simp [hresume] at hfault
  obtain rfl : fault' = fault := by simpa [hresume] using hfault
  rw [h.ahead] at hgather
  obtain ⟨middle, tail, rfl, htiled, hfault, rfl⟩ := exists_tiled_of_gather _ back hgather
  obtain ⟨c, piece, rest, rfl, hspan⟩ := hfault.exists_append
  have hstop : (front ++ (middle ++ c :: piece)).length = fault'.span.stop := by
    rw [hspan, Span.stop_mk, List.length_append, List.length_append, Nat.add_assoc]
  have hlength : (front ++ (middle ++ c :: piece)).length =
      front.length + (middle.length + (piece.length + 1)) := by
    rw [List.length_append, List.length_append, List.length_cons]
  rw [hresume]
  refine ⟨front ++ (middle ++ c :: piece), rest, by simp, ⟨?_, ?_, ?_, ?_, ?_⟩, ?_, ?_, hstop⟩
  · rw [hstop, hspan, List.drop_left]
  · rw [h.size]
    simp
  · intro span hmem
    rcases List.mem_append.1 hmem with hmem | hmem
    · exact Nat.le_trans (h.stop_le span hmem) (by omega)
    · rw [List.mem_singleton.1 hmem, hstop]
  · have hle := h.length_le
    rw [List.length_append, List.length_singleton]
    omega
  · intro behind
    have hseam := endsBefore_of_isBlank (c := ' ') rfl (List.replicate piece.length ' ' ++ behind)
    rw [blankFrom_extend h.stop_le hspan, List.append_assoc, h.tiles_eq, List.append_assoc,
      List.length_cons, List.replicate_succ, List.cons_append, htiled.tiles_append hseam,
      ← List.cons_append, ← List.replicate_succ, tiles_replicate, hlength]
    simp [Nat.add_assoc]
  · rw [hspan]
    exact Nat.le_add_right _ _
  · rw [hspan]
    exact Nat.lt_add_of_pos_right (Nat.succ_pos _)

/-- The tokens of a walk that comes to the end are those of the blanked text. -/
theorem Walked.scan_blanked {text : String} (htext : text.toList = front ++ back)
    (h : Walked front back spans s) (hresume : s.resume.1 = none) :
    scan (blanked spans text) = .ok s.resume.2.tokens := by
  rcases s.resume_cases with ⟨found, hgather, hcall⟩ | ⟨found, fault, ahead, -, hcall⟩
  · have hback : blankFrom spans (0 + front.length) back = back := by
      rw [Nat.zero_add]
      exact blankFrom_eq_self h.stop_le
    have hblanked : gather (tiles 0 (blanked spans text).toList) = (s.tokens ++ found, none) := by
      rw [blanked, String.toList_ofList, htext, blankFrom_append, hback, h.tiles_eq, gather_append,
        ← h.ahead, hgather]
    have hsize : (blanked spans text).length = s.size := by
      rw [blanked, String.length_ofList, length_blankFrom, htext, h.size]
    rw [hcall]
    exact scan_eq_ok_iff_gather.2 ⟨_, hblanked, by rw [hsize]⟩
  · simp [hcall] at hresume

/-- While all calls fail, each of them goes on behind the last one. -/
theorem exists_walked {text : String} {n : Nat} (h : ∀ m < n, report text m ≠ none) :
    ∃ front back, text.toList = front ++ back ∧
      Walked front back (blamed text n) (calls text n) := by
  induction n with
  | zero => exact ⟨[], text.toList, rfl, walked_start text⟩
  | succ n ih =>
      obtain ⟨front, back, htext, hwalked⟩ := ih fun m hm => h m (Nat.lt_succ_of_lt hm)
      obtain ⟨fault, hfault⟩ := Option.ne_none_iff_exists'.1 (h n (Nat.lt_succ_self n))
      obtain ⟨front', back', hsplit, hwalked', -⟩ := hwalked.resume hfault
      refine ⟨front', back', htext.trans hsplit, ?_⟩
      rw [blamed, hfault]
      exact hwalked'

theorem length_blamed {text : String} {n : Nat} (h : ∀ m < n, report text m ≠ none) :
    (blamed text n).length = n := by
  induction n with
  | zero => rfl
  | succ n ih =>
      obtain ⟨fault, hfault⟩ := Option.ne_none_iff_exists'.1 (h n (Nat.lt_succ_self n))
      rw [blamed, hfault, List.length_append, ih fun m hm => h m (Nat.lt_succ_of_lt hm)]
      rfl

/-- Each failing call takes at least one character, so not all of them fail. -/
theorem exists_report_eq_none (text : String) : ∃ n ≤ text.length, report text n = none := by
  by_contra hnone
  have hfails : ∀ m < text.length + 1, report text m ≠ none :=
    fun m hm heq => hnone ⟨m, Nat.le_of_lt_succ hm, heq⟩
  obtain ⟨front, back, htext, hwalked⟩ := exists_walked hfails
  have hle := hwalked.length_le
  have hlength := congrArg List.length htext
  rw [length_blamed hfails] at hle
  rw [List.length_append, String.length_toList] at hlength
  omega

/-- A walk that has come to the end of a text. -/
structure Ended (text : String) (s : Scan) : Prop where
  ahead : s.ahead = []
  size : s.size = text.length

theorem Ended.resume {text : String} (h : Ended text s) :
    s.resume.1 = none ∧ s.resume.2.tokens = s.tokens ++ [Token.eof text.length] ∧
      Ended text s.resume.2 := by
  have hcall : s.resume = (none, ⟨[], s.size, s.tokens ++ [] ++ [Token.eof s.size]⟩) := by
    rw [Scan.resume, h.ahead]
    rfl
  rw [hcall]
  exact ⟨rfl, by rw [List.append_nil, h.size], rfl, h.size⟩

theorem size_calls (text : String) (n : Nat) : (calls text n).size = text.length := by
  induction n with
  | zero => rfl
  | succ n ih =>
      rw [calls, ← ih]
      rcases (calls text n).resume_cases with ⟨_, -, hcall⟩ | ⟨_, _, _, -, hcall⟩ <;> rw [hcall]

/-- Behind a call that succeeds the walk stays at the end. -/
theorem ended_of_report {text : String} {n m : Nat} (h : report text n = none) (hm : n < m) :
    Ended text (calls text m) := by
  induction m, hm using Nat.le_induction with
  | base =>
      refine ⟨?_, size_calls text (n + 1)⟩
      rcases (calls text n).resume_cases with ⟨_, -, hcall⟩ | ⟨_, fault, _, -, hcall⟩
      · rw [calls, hcall]
      · simp [report, hcall] at h
  | succ m _ ih => exact ih.resume.2.2

theorem report_ne_none_of_lt {text : String} {n m : Nat} (h : report text n ≠ none) (hm : m < n) :
    report text m ≠ none :=
  fun hnone => h (ended_of_report hnone hm).resume.1

end Scan

open Scan

/-- A scan can be resumed behind every fault. The tokens so far stay, and each
failing call blames something behind all that has been blamed and goes on behind
it. So one of the first calls, no more than there are characters, succeeds: with
the tokens of the text in which all that has been blamed is blank. Every call
behind it adds one more end mark. -/
theorem calls_resume (text : String) :
    (∀ n, (calls text n).tokens <+: (calls text (n + 1)).tokens) ∧
      (∀ n fault, report text n = some fault →
        (∀ span ∈ blamed text n, span.stop ≤ fault.span.offset) ∧
          fault.span.offset < fault.span.stop ∧
            StandsAt text fault.span.stop (calls text (n + 1))) ∧
        ∃ n ≤ text.length, (∀ m < n, report text m ≠ none) ∧ report text n = none ∧
          scan (blanked (blamed text n) text) = .ok (calls text (n + 1)).tokens ∧
            ∀ m > n, report text m = none ∧
              (calls text (m + 1)).tokens = (calls text m).tokens ++ [Token.eof text.length] := by
  refine ⟨fun n => isPrefix_tokens_resume _, ?_, ?_⟩
  · intro n fault hfault
    have hfails : ∀ m < n, report text m ≠ none :=
      fun m hm => report_ne_none_of_lt (by simp [hfault]) hm
    obtain ⟨front, back, htext, hwalked⟩ := exists_walked hfails
    obtain ⟨front', back', hsplit, hwalked', hle, hlt, hstop⟩ := hwalked.resume hfault
    refine ⟨fun span hspan => Nat.le_trans (hwalked.stop_le span hspan) hle, hlt, ?_, ?_⟩
    · rw [← hstop, ← String.length_toList, htext, hsplit, List.length_append]
      exact Nat.le_add_right _ _
    · rw [calls, hwalked'.ahead, htext, hsplit, ← hstop, List.drop_left]
  · have hexists := exists_report_eq_none text
    have hfirst : ∃ n, report text n = none := hexists.imp fun n hn => hn.2
    obtain ⟨bound, hbound, hnone⟩ := hexists
    have hfails : ∀ m < Nat.find hfirst, report text m ≠ none := fun m hm => Nat.find_min hfirst hm
    obtain ⟨front, back, htext, hwalked⟩ := exists_walked hfails
    refine ⟨Nat.find hfirst, Nat.le_trans (Nat.find_min' hfirst hnone) hbound, hfails,
      Nat.find_spec hfirst, hwalked.scan_blanked htext (Nat.find_spec hfirst), ?_⟩
    intro m hm
    obtain ⟨hreport, htokens, -⟩ := (ended_of_report (Nat.find_spec hfirst) hm).resume
    exact ⟨hreport, htokens⟩

/-- Two calls stop, at a stray character and at an open literal. The third finds
what is in the text with both of them blank, and a fourth adds an end mark. -/
theorem calls_resume_twice :
    report "a#b \"c" 0 = some ⟨.strayCharacter '#', ⟨1, 1⟩⟩ ∧
      StandsAt "a#b \"c" 2 (calls "a#b \"c" 1) ∧
        (calls "a#b \"c" 1).tokens = [⟨.word, "a", ⟨0, 1⟩⟩] ∧
      report "a#b \"c" 1 = some ⟨.unclosedLiteral '"', ⟨4, 2⟩⟩ ∧
        StandsAt "a#b \"c" 6 (calls "a#b \"c" 2) ∧
        (calls "a#b \"c" 2).tokens = [⟨.word, "a", ⟨0, 1⟩⟩, ⟨.word, "b", ⟨2, 1⟩⟩] ∧
      report "a#b \"c" 2 = none ∧ blanked (blamed "a#b \"c" 2) "a#b \"c" = "a b   " ∧
        scan "a b   " = .ok [⟨.word, "a", ⟨0, 1⟩⟩, ⟨.word, "b", ⟨2, 1⟩⟩, Token.eof 6] ∧
        (calls "a#b \"c" 4).tokens =
          [⟨.word, "a", ⟨0, 1⟩⟩, ⟨.word, "b", ⟨2, 1⟩⟩, Token.eof 6, Token.eof 6] := by
  have hstray : report "a#b \"c" 0 = some ⟨.strayCharacter '#', ⟨1, 1⟩⟩ := by decide +kernel
  have hunclosed : report "a#b \"c" 1 = some ⟨.unclosedLiteral '"', ⟨4, 2⟩⟩ := by decide +kernel
  have hend : report "a#b \"c" 2 = none := by decide +kernel
  have hblanked : blanked (blamed "a#b \"c" 2) "a#b \"c" = "a b   " := by decide +kernel
  have htokens : (calls "a#b \"c" 3).tokens =
      [⟨.word, "a", ⟨0, 1⟩⟩, ⟨.word, "b", ⟨2, 1⟩⟩, Token.eof 6] := by
    decide +kernel
  obtain ⟨-, hfails, n, -, hbefore, hnone, hscan, hbehind⟩ := calls_resume "a#b \"c"
  obtain rfl : n = 2 := by
    have hle : n ≤ 2 := Nat.le_of_not_lt fun hn => hbefore 2 hn hend
    have hne₀ : n ≠ 0 := by
      rintro rfl
      simp [hstray] at hnone
    have hne₁ : n ≠ 1 := by
      rintro rfl
      simp [hunclosed] at hnone
    omega
  rw [hblanked, htokens] at hscan
  have hlast := (hbehind 3 (by decide)).2
  rw [htokens] at hlast
  exact ⟨hstray, (hfails 0 _ hstray).2.2, by decide +kernel, hunclosed, (hfails 1 _ hunclosed).2.2,
    by decide +kernel, hend, hblanked, hscan, hlast⟩

end Token

end Typemap

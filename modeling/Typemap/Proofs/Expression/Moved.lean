import Typemap.Expression.Moved
import Typemap.Failure.Moved
import Typemap.Proofs.Expression.Blame

/-!
# The reader does not look at places

Each move, and each fault, has its counterpart with every place moved. So over
moved tokens the reader takes the moved path, and it gets stuck at the moved
token with the same cause.
-/

namespace Typemap

theorem Grammar.IsName.moved {t : Token} (h : IsName t) (place : Nat → Nat) :
    IsName (t.moved place) := ⟨h.isWord, h.isQualified⟩

namespace Reader

open Grammar

variable {settings : Settings} {place : Nat → Nat} {s s' : State} {t mark : Token}
  {read us : List Token} {f : Fault}

theorem closeTarget_moved (source : Source) (target : Target) (frames : List Frame) :
    (closeTarget source target frames).moved place =
      closeTarget (source.moved place) target frames := by
  cases frames <;> rfl

theorem State.result?_moved (s : State) :
    (s.moved place).result? = s.result?.map (·.moved place) := by
  cases s with
  | targetName source frames name => cases frames <;> rfl
  | _ => rfl

theorem State.fits_moved (kind : Token.Kind) (s : State) :
    (s.moved place).fits settings kind = s.fits settings kind := by
  cases s with
  | sourceType source => obtain ⟨name, _ | format⟩ := source <;> rfl
  | candidate source name done token => cases done <;> rfl
  | _ => rfl

theorem State.refuse_moved (s : State) (t : Token) :
    (s.moved place).refuse (t.moved place) =
      ⟨(s.refuse t).cause, (s.refuse t).span.moved place⟩ := by
  cases s with
  | targetName source frames name => cases frames <;> rfl
  | _ => rfl

theorem Moves.moved (h : Moves settings s t s') :
    Moves settings (s.moved place) (t.moved place) (s'.moved place) := by
  cases h with
  | sourceType hname => exact .sourceType (hname.moved place)
  | formatOpening hkind => exact .formatOpening hkind
  | arrow hkind => exact .arrow hkind
  | atSign hkind => exact .atSign hkind
  | format hkind hformat => exact .format hkind hformat
  | formatClosing hkind => exact .formatClosing hkind
  | target hname => exact .target (hname.moved place)
  | genericsOpening hkind hdepth => exact .genericsOpening hkind hdepth
  | plainComma hkind => exact .plainComma hkind
  | plainClosing hkind =>
      rw [closeTarget_moved]
      exact .plainClosing hkind
  | opened hname => exact .opened (hname.moved place)
  | argumentComma hkind => exact .argumentComma hkind
  | argumentClosing hkind =>
      rw [closeTarget_moved]
      exact .argumentClosing hkind
  | annotating hname => exact .annotating (hname.moved place)
  | parametersOpening hkind => exact .parametersOpening hkind
  | candidate hvalue => exact .candidate hvalue
  | equals hkind hword hname => exact .equals hkind hword hname
  | unnamed hkind hallowed => exact .unnamed hkind hallowed
  | value hvalue hfresh =>
      simp only [State.moved, List.map_append]
      refine .value hvalue ?_
      intro a ha
      obtain ⟨b, hb, rfl⟩ := List.mem_map.1 ha
      exact hfresh b hb
  | parametersComma hkind => exact .parametersComma hkind
  | parametersClosing hkind => exact .parametersClosing hkind

theorem Path.moved (h : Path settings read s) :
    Path settings (read.map (·.moved place)) (s.moved place) := by
  induction h with
  | start => exact .start
  | move _ hmove ih =>
      rw [List.map_append]
      exact ih.move hmove.moved

theorem NameDue.moved (h : NameDue s) : NameDue (s.moved place) := by
  cases h with
  | start => exact .start
  | target => exact .target
  | opened => exact .opened
  | annotating => exact .annotating

theorem Fails.moved (h : Fails settings s t f) (place : Nat → Nat) :
    ∃ f', Fails settings (s.moved place) (t.moved place) f' ∧ f.IsMoved place f' := by
  cases h with
  | refused hfits =>
      refine ⟨_, .refused ?_, ?_⟩
      · rwa [State.fits_moved]
      · rw [State.refuse_moved]
        exact Fault.isMoved_moved place _ _
  | name hdue hkind hdefect =>
      exact ⟨_, .name hdue.moved hkind hdefect, Fault.isMoved_moved place _ _⟩
  | format hkind hformat => exact ⟨_, .format hkind hformat, Fault.isMoved_moved place _ _⟩
  | misplacedFormat hkind => exact ⟨_, .misplacedFormat hkind, Fault.isMoved_moved place _ _⟩
  | tooDeep hkind hdepth => exact ⟨_, .tooDeep hkind hdepth, Fault.isMoved_moved place _ _⟩
  | emptyGenerics hkind =>
      -- The span of the brackets grows with the blanks that are put between them.
      exact ⟨_, .emptyGenerics hkind, rfl, rfl⟩
  | parameterName hkind hword hname =>
      exact ⟨_, .parameterName hkind hword hname, Fault.isMoved_moved place _ _⟩
  | duplicate hvalue ha hname =>
      exact ⟨_, .duplicate hvalue (List.mem_map_of_mem ha) hname, Fault.isMoved_moved place _ _⟩

theorem Stuck.moved (h : Stuck settings us mark f) (place : Nat → Nat) :
    ∃ f', Stuck settings (us.map (·.moved place)) (mark.moved place) f' ∧ f.IsMoved place f' := by
  cases h with
  | token hus hpath hfails =>
      obtain ⟨f', hfails', hmoved⟩ := hfails.moved place
      exact ⟨f', .token (by rw [hus, List.map_append, List.map_cons]) hpath.moved hfails', hmoved⟩
  | mark hpath hresult =>
      refine ⟨_, .mark hpath.moved ?_, ?_⟩
      · rw [State.result?_moved, hresult]
        rfl
      · rw [State.refuse_moved]
        exact Fault.isMoved_moved place _ _

end Reader

end Typemap

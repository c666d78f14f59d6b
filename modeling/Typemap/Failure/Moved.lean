import Typemap.Failure

/-!
# Failures at other places

A fault of a text whose tokens have been moved has the same cause and begins
where the same token has been moved to. Its length may differ: a fault that
covers two tokens also covers what stands between them.
-/

namespace Typemap

structure Fault.IsMoved (place : Nat → Nat) (f f' : Fault) : Prop where
  cause : f'.cause = f.cause
  offset : f'.span.offset = place f.span.offset

theorem Fault.isMoved_moved (place : Nat → Nat) (cause : Cause) (span : Span) :
    IsMoved place ⟨cause, span⟩ ⟨cause, span.moved place⟩ := ⟨rfl, rfl⟩

namespace Failure

/-- The failures agree, and they begin at the same one of the tokens. -/
structure IsMoved (place : Nat → Nat) (ts : List Token) (f f' : Failure) : Prop where
  kind : f'.kind = f.kind
  message : f'.message = f.message
  help : f'.help? = f.help?
  token : ∃ t ∈ ts, f.span.offset = t.span.offset ∧ f'.span.offset = place t.span.offset

theorem isMoved_ofFault {place : Nat → Nat} {ts : List Token} {f f' : Fault}
    (h : f.IsMoved place f') (htoken : ∃ t ∈ ts, f.span.offset = t.span.offset)
    (text text' : String) : (ofFault text f).IsMoved place ts (ofFault text' f') := by
  obtain ⟨t, ht, hoffset⟩ := htoken
  constructor
  · exact congrArg Cause.kind h.cause
  · exact congrArg Cause.message h.cause
  · exact congrArg Cause.help? h.cause
  · exact ⟨t, ht, hoffset, hoffset ▸ h.offset⟩

end Failure

end Typemap

import Lockstep.Time

/-! The fixed settings of a machine: how far one processor may lead another, how
long a frame is, and whether events are traced. -/
namespace Lockstep

structure Config where
  quantum : Time := .ofMicros 100
  framePeriod : Time := .ofAttos (Time.perSecond / 60)
  tracing : Bool := false
  deriving DecidableEq, Repr, Inhabited

end Lockstep

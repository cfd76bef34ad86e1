/-! Handles of devices: the place in the order of addition. -/
namespace Lockstep

structure DeviceId where
  index : Nat
  deriving DecidableEq, Repr, Inhabited

def DeviceId.text (d : DeviceId) : String := "#" ++ toString d.index

end Lockstep

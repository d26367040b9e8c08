import UsbSpdt.Library.Program

/-!
# Platform

The scheduler tick of `FreeRTOSConfig.h` and the delay of `OSandPlatform.h`.
-/

namespace UsbSpdt

def configTickRateHz : Nat := 500

def portTickRateMs : Nat := 1000 / configTickRateHz

/-- `delayms` with the scheduler running. -/
def delayms {σ : Type} (ms : Nat) : Program σ Unit := Program.block (ms / portTickRateMs)

@[simp] theorem run_delayms {σ : Type} (ms : Nat) (s : σ) :
    (delayms ms : Program σ Unit).run s = ((), s) := rfl

end UsbSpdt

import CardTap.Device.Registers
import CardTap.Watchdog

/-!
# The watchdog of the device
-/

namespace CardTap.Device

/-- The watchdog may be changed within the next cycles. -/
def changeEnable : UInt8 := 0x10

/-- The watchdog restarts the device. -/
def resetEnable : UInt8 := 0x08

/-- The device was restarted by the watchdog. -/
def watchdogReset : UInt8 := 0x08

/-- The prescaler bits of the control register: the highest one sits apart from the others. -/
def timeoutBits (timeout : Timeout) : UInt8 :=
  ((timeout.prescaler &&& 0x08) <<< 2) ||| (timeout.prescaler &&& 0x07)

namespace Registers

variable {σ : Type} (r : Registers σ)

/-- Arms the watchdog. -/
def armWatchdog (timeout : Timeout) : Run σ Unit := r.masked do
  r.serveWatchdog
  r.write Reg.wdtcsr (changeEnable ||| resetEnable)
  r.write Reg.wdtcsr (resetEnable ||| timeoutBits timeout)

/-- The operations of the watchdog. -/
def watchdog : Watchdog σ where
  disable := r.masked do
    r.serveWatchdog
    r.clear Reg.mcusr watchdogReset
    r.set Reg.wdtcsr (changeEnable ||| resetEnable)
    r.write Reg.wdtcsr 0
  arm := r.armWatchdog
  serve := r.serveWatchdog
  restart := do
    r.armWatchdog .ms15
    r.spin

end Registers

end CardTap.Device

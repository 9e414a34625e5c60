import CardTap.Device.Registers
import CardTap.Panel

/-!
# The panel of the device

The display has a driver of its own; buttons and LEDs are pins.
-/

namespace CardTap.Device

/-- The display driver on a machine with state `σ`. -/
structure Lcd (σ : Type) where
  /-- Whether a display is connected. -/
  found : Run σ Bool
  init : Run σ Unit
  off : Run σ Unit
  write : List UInt8 → Run σ Unit

/-- The longest text that the display driver takes, in bytes. -/
def lcdTextMax : Nat := 255

/-- The pin of an LED. -/
def ledPin : Led → UInt8
  | .l1 => 0x80
  | .l2 => 0x40
  | .l3 => 0x20
  | .l4 => 0x10

/-- The buttons behind the pins of bank F, which are low while a button is held. -/
def heldButtons (pins : UInt8) : Buttons :=
  let held := ~~~pins
  [(0x08, Buttons.a), (0x04, Buttons.b), (0x02, Buttons.c), (0x01, Buttons.d)].foldl
    (fun acc (pin, button) => if held &&& pin != 0 then acc.union button else acc) Buttons.none

variable {σ : Type}

/-- The operations of the panel. -/
def Registers.panel (r : Registers σ) (lcd : Lcd σ) : CardTap.Panel σ where
  hasDisplay := lcd.found
  powerDisplay on := if on then lcd.init else lcd.off
  printLine text := lcd.write (text.toUTF8.toList.take lcdTextMax)
  buttons := do pure (heldButtons (← r.read Reg.inputF))
  light led on := do
    r.set Reg.directionE (ledPin led)
    if on then r.set Reg.outputE (ledPin led) else r.clear Reg.outputE (ledPin led)
  pauseMs ms := r.pauseUs (ms * 1000)
  patience _ := Run.eternity

end CardTap.Device

/-!
# Layout of the non-volatile store

Four persisted values sit at fixed addresses below the log region.  The log cursor is kept with its
high byte first.
-/

namespace CardTap.Layout

/-- Address of the warm-reset marker. -/
def warmFlag : Nat := 0x00

/-- Address of the selected application. -/
def application : Nat := 0x32

/-- Address of the counter of completed sessions. -/
def counter : Nat := 0x40

/-- Address of the high byte of the log cursor. -/
def cursorHigh : Nat := 0x48

/-- Address of the low byte of the log cursor. -/
def cursorLow : Nat := 0x49

/-- First address of the log region. -/
def logStart : Nat := 0x80

/-- Last usable address of the log region. -/
def logEnd : Nat := 0xFE0

/-- The log cursor before the first flush. -/
def unsetCursor : Nat := 0xFFFF

/-- The log cursor is aligned to pages of this size after a flush. -/
def pageSize : Nat := 8

/-- The warm-reset marker after a deliberate restart. -/
def warmValue : UInt8 := 0xAA

end CardTap.Layout

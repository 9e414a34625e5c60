/-!
# Dumps of cells

A dump shows only the cells that are not blank, as the longest possible runs.
-/

namespace CardTap.Dump

/-- A run of cells: the address of the first one and their values. -/
structure Run where
  start : Nat
  cells : List UInt8
  deriving DecidableEq, Repr

/-- Puts a cell in front of runs that start behind it. -/
def Run.cons (blank value : UInt8) (addr : Nat) (runs : List Run) : List Run :=
  if value = blank then runs
  else
    match runs with
    | ⟨start, cells⟩ :: rest =>
      if start = addr + 1 then ⟨addr, value :: cells⟩ :: rest else ⟨addr, [value]⟩ :: runs
    | [] => [⟨addr, [value]⟩]

/-- The longest runs of cells that are not blank. -/
def runs (blank : UInt8) (cells : List UInt8) : List Run :=
  cells.zipIdx.foldr (fun (value, addr) runs => Run.cons blank value addr runs) []

end CardTap.Dump

import CardTap.Atr.Basic

/-!
# Reading an answer to reset

The reader asks for one character after the other and checks each interface byte as it comes, so the
first byte that breaks a rule decides the error.
-/

namespace CardTap.Atr

/-- A reader that may refuse what it reads. -/
abbrev Parser := ExceptT AtrError Reader

namespace Parser

/-- Asks for one character. -/
def char : Parser UInt8 := ExceptT.lift Reader.char

/-- The number of groups of interface bytes that are read. -/
def groupMax : Nat := 4

/-- The restrictions on an interface byte of a group counted from zero, given the protocol that
the first group announced. -/
def check (group : Nat) (kind : InterfaceKind) (value protocol : UInt8) : Except AtrError Unit :=
  match group, kind with
  | 0, .b => if value ≠ 0 then .error .tb1 else .ok ()
  | 0, .d => if value &&& 0x0F > 1 then .error .td1 else .ok ()
  | 1, .a => .error .ta2
  | 1, .b => .error .tb2
  | 1, .c => if value ≠ 0x0A then .error .tc2 else .ok ()
  | 2, .a => if value < 0x0F ∨ value = 0xFF then .error .ta3 else .ok ()
  | 2, .b => if value &&& 0x0F > 5 ∨ value >>> 4 > 4 then .error .tb3 else .ok ()
  | 2, .c => if protocol = 0 ∨ value ≠ 0 then .error .tc3 else .ok ()
  | _, _ => .ok ()

/-- Reads an interface byte if the half byte `present` announces it. -/
def interfaceByte (group : Nat) (present protocol : UInt8) (kind : InterfaceKind) :
    Parser (Option UInt8) :=
  if hasBit present kind.bit then do
    let value ← char
    liftExcept (check group kind value protocol)
    pure (some value)
  else pure none
where
  /-- Fails with the error of a check. -/
  liftExcept (r : Except AtrError Unit) : Parser Unit := ExceptT.mk (pure r)

/-- Reads the interface bytes of a group that the half byte `present` announces. -/
def group (index : Nat) (present protocol : UInt8) : Parser InterfaceGroup := do
  let ta ← interfaceByte index present protocol .a
  let tb ← interfaceByte index present protocol .b
  let tc ← interfaceByte index present protocol .c
  let td ← interfaceByte index present protocol .d
  pure { ta, tb, tc, td }

/-- Reads up to `n` groups, the first of them having the given index.  The chain ends after the
group without TD.  With T=1 the second group must announce TB3. -/
def groupsFrom (index : Nat) (present protocol : UInt8) : Nat → Parser (List InterfaceGroup)
  | 0 => pure []
  | n + 1 => do
    let g ← group index present protocol
    match g.td with
    | none => pure [g]
    | some td =>
      let protocol := if index = 0 then td &&& 0x0F else protocol
      let present := td >>> 4
      if index = 1 ∧ protocol = 1 ∧ ¬hasBit present InterfaceKind.b.bit then throw .tb3
      let rest ← groupsFrom (index + 1) present protocol n
      pure (g :: rest)

/-- Reads `n` characters. -/
def chars : Nat → Parser (List UInt8)
  | 0 => pure []
  | n + 1 => do
    let b ← char
    let rest ← chars n
    pure (b :: rest)

/-- Whether a group announces a protocol other than T=0. -/
def needsCheck (g : InterfaceGroup) : Bool := g.td.any (· &&& 0x0F != 0)

/-- Reads the answer to reset after a TS that announced the convention. -/
def atr (convention : Convention) : Parser Atr := do
  let t0 ← char
  unless hasBit t0 0x20 do throw .t0
  let groups ← groupsFrom 0 (t0 >>> 4) 0 groupMax
  let historical ← chars (t0 &&& 0x0F).toNat
  if groups.any needsCheck then
    let tck ← char
    let a : Atr := { convention, t0, groups, historical, tck := some tck }
    if a.checksum ≠ 0 then throw .checksum
    pure a
  else
    pure { convention, t0, groups, historical, tck := none }

end Parser

variable {σ : Type}

/-- Reads and checks the rest of an answer to reset whose TS, sampled in the direct convention, is
`ts`; `next` receives one more character in a given convention. -/
def read (ts : UInt8) (next : Convention → LinkRun σ UInt8) : ExceptT AtrError (Run σ) Atr := do
  match Convention.ofTs? ts with
  | none => throw (.ts ts)
  | some convention =>
    let parsed ← ((Parser.atr convention).run.drive (next convention)).adapt AtrError.link
    Run.require parsed

end CardTap.Atr

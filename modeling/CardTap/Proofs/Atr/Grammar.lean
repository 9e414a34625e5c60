import CardTap.Proofs.Atr.Accepts

/-!
# The grammar of an answer to reset

The grammar is told of the whole answer (`Conforms`): which bytes each group has, how many
historical bytes follow, when there is a check byte, and the restrictions of the payment standard
one by one.  The parser checks each byte as it comes and carries the protocol along; `atr_accepts`
follows it and collects what it asks for (`Acceptable`), and `acceptable_iff` shows that this is
the grammar.
-/

namespace CardTap

/-! ## The grammar -/

/-- The byte of a kind. -/
def InterfaceGroup.byte? (g : InterfaceGroup) : InterfaceKind → Option UInt8
  | .a => g.ta
  | .b => g.tb
  | .c => g.tc
  | .d => g.td

/-- A group has just the bytes that the high half of a byte announces. -/
def InterfaceGroup.AnnouncedBy (lead : UInt8) (g : InterfaceGroup) : Prop :=
  ∀ kind, (g.byte? kind).isSome = hasBit (lead >>> 4) kind.bit

namespace Atr

/-- Up to `n` groups of which the first is announced by `lead` and each other one by the TD of the
group before it; behind a group without TD there is none. -/
def Chained : Nat → UInt8 → List InterfaceGroup → Prop
  | 0, _, groups => groups = []
  | _ + 1, _, [] => False
  | n + 1, lead, g :: rest =>
    g.AnnouncedBy lead ∧ match g.td with
      | none => rest = []
      | some td => Chained n td rest

/-- The grammar of an answer to reset, with the restrictions of the payment standard. -/
structure Conforms (a : Atr) : Prop where
  groups : Chained 4 a.t0 a.groups
  historical : a.historical.length = a.t0.toNat % 16
  /-- There is a check byte exactly if some TD announces a protocol other than T=0. -/
  tck : a.tck.isSome ↔ ∃ i, ∃ td ∈ a.td i, td.toNat % 16 ≠ 0
  /-- The exclusive or of T0 and all bytes behind it, up to the check byte, is zero. -/
  checksum : a.tck.isSome → a.bytes.foldl (· ^^^ ·) 0 = 0
  tb1 : a.tb 1 = some 0
  td1 : ∀ td ∈ a.td 1, td.toNat % 16 ≤ 1
  ta2 : a.ta 2 = none
  tb2 : a.tb 2 = none
  tc2 : ∀ tc ∈ a.tc 2, tc = 0x0A
  ta3 : ∀ ta ∈ a.ta 3, 0x0F ≤ ta ∧ ta ≤ 0xFE
  tb3 : ∀ tb ∈ a.tb 3, tb.toNat % 16 ≤ 5 ∧ tb.toNat / 16 ≤ 4
  tc3 : ∀ tc ∈ a.tc 3, tc = 0 ∧ a.protocol = 1
  /-- With T=1, a third group has TB3. -/
  tb3_sent : (a.td 2).isSome → a.protocol = 1 → (a.tb 3).isSome

namespace Parser

/-- Every byte of the group passes its check. -/
def Passes (index : Nat) (protocol : UInt8) (g : InterfaceGroup) : Prop :=
  ∀ kind, ∀ value ∈ g.byte? kind, check index kind value protocol = .ok ()

theorem interfaceByte_accepts (index : Nat) (present protocol : UInt8) (kind : InterfaceKind) :
    Accepts (interfaceByte index present protocol kind) fun byte taken =>
      taken = byte.toList ∧ byte.isSome = hasBit present kind.bit ∧
        ∀ value ∈ byte, check index kind value protocol = .ok () := by
  unfold interfaceByte
  split
  · next hbit =>
    have hcheck (value : UInt8) :
        Accepts (interfaceByte.liftExcept (check index kind value protocol)) fun _ taken =>
          taken = [] ∧ check index kind value protocol = .ok () := by
      cases h : check index kind value protocol with
      | ok _ => exact (Accepts.pure ()).congr fun _ _ => by simp
      | error e => exact (Accepts.throw e).congr fun _ _ => by simp
    refine (Accepts.bind Accepts.char fun value =>
      Accepts.bind (hcheck value) fun _ => Accepts.pure (some value)).congr fun byte taken => ?_
    constructor
    · rintro ⟨value, _, _, rfl, rfl, _, _, _, rfl, ⟨rfl, hok⟩, rfl, rfl⟩
      exact ⟨rfl, hbit.symm, fun _ h => Option.some.inj h ▸ hok⟩
    · rintro ⟨rfl, hsome, hok⟩
      obtain ⟨value, rfl⟩ := Option.isSome_iff_exists.1 (hsome.trans hbit)
      exact ⟨value, [value], [], rfl, rfl, (), [], [], rfl, ⟨rfl, hok value rfl⟩, rfl, rfl⟩
  · next hbit =>
    refine (Accepts.pure none).congr fun byte taken => ?_
    rw [Bool.not_eq_true] at hbit
    constructor
    · rintro ⟨rfl, rfl⟩
      exact ⟨rfl, hbit.symm, nofun⟩
    · rintro ⟨rfl, hnone, -⟩
      obtain rfl := Option.not_isSome_iff_eq_none.1 (by rw [hnone, hbit]; decide)
      exact ⟨rfl, rfl⟩

theorem group_accepts (index : Nat) (lead protocol : UInt8) :
    Accepts (group index (lead >>> 4) protocol) fun g taken =>
      taken = g.bytes ∧ g.AnnouncedBy lead ∧ Passes index protocol g := by
  have hbyte (kind : InterfaceKind) := interfaceByte_accepts index (lead >>> 4) protocol kind
  have hall := Accepts.bind (hbyte .a) fun ta => Accepts.bind (hbyte .b) fun tb =>
    Accepts.bind (hbyte .c) fun tc => Accepts.bind (hbyte .d) fun td =>
      Accepts.pure ({ ta, tb, tc, td } : InterfaceGroup)
  refine Accepts.congr (R := _) hall fun g taken => ?_
  constructor
  · rintro ⟨ta, _, _, rfl, ⟨rfl, ha⟩, tb, _, _, rfl, ⟨rfl, hb⟩, tc, _, _, rfl,
      ⟨rfl, hc⟩, td, _, _, rfl, ⟨rfl, hd⟩, rfl, rfl⟩
    refine ⟨by simp [InterfaceGroup.bytes], fun kind => ?_, fun kind => ?_⟩
    · cases kind
      · exact ha.1
      · exact hb.1
      · exact hc.1
      · exact hd.1
    · cases kind
      · exact ha.2
      · exact hb.2
      · exact hc.2
      · exact hd.2
  · rintro ⟨rfl, hannounced, hpasses⟩
    obtain ⟨ta, tb, tc, td⟩ := g
    refine ⟨ta, ta.toList, tb.toList ++ (tc.toList ++ (td.toList ++ [])), ?_,
      ⟨rfl, hannounced .a, hpasses .a⟩, tb, tb.toList, _, rfl,
      ⟨rfl, hannounced .b, hpasses .b⟩, tc, tc.toList, _, rfl,
      ⟨rfl, hannounced .c, hpasses .c⟩, td, td.toList, [], rfl,
      ⟨rfl, hannounced .d, hpasses .d⟩, rfl, rfl⟩
    simp [InterfaceGroup.bytes]

/-- With T=1, a second group with TD announces TB3. -/
def AnnouncesTb3 (index : Nat) (protocol : UInt8) (g : InterfaceGroup) : Prop :=
  index = 1 → protocol = 1 → ∀ td ∈ g.td, hasBit (td >>> 4) InterfaceKind.b.bit

/-- The protocol in force behind a group: the first group announces it. -/
def protocolAfter (index : Nat) (protocol : UInt8) (g : InterfaceGroup) : UInt8 :=
  if index = 0 then (g.td.map (· &&& 0x0F)).getD 0 else protocol

/-- Each group of a row is admitted. -/
def Admitted : Nat → UInt8 → List InterfaceGroup → Prop
  | _, _, [] => True
  | index, protocol, g :: rest =>
    (Passes index protocol g ∧ AnnouncesTb3 index (protocolAfter index protocol g) g) ∧
      Admitted (index + 1) (protocolAfter index protocol g) rest

/-- The groups from one on: there are more exactly if it has TD. -/
def GoesOn (n index : Nat) (protocol : UInt8) (g : InterfaceGroup) (groups : List InterfaceGroup)
    (taken : List UInt8) : Prop :=
  ∃ rest, groups = g :: rest ∧ taken = rest.flatMap (·.bytes) ∧
    (match g.td with
      | none => rest = []
      | some td => Chained n td rest) ∧
    AnnouncesTb3 index (protocolAfter index protocol g) g ∧
    Admitted (index + 1) (protocolAfter index protocol g) rest

section Groups

variable {n index : Nat} {lead protocol : UInt8} {g : InterfaceGroup}

theorem last_accepts (htd : g.td = none) :
    Accepts (Pure.pure [g] : Parser (List InterfaceGroup)) (GoesOn n index protocol g) := by
  refine (Accepts.pure [g]).congr fun groups taken => ?_
  rw [GoesOn, htd]
  constructor
  · rintro ⟨rfl, rfl⟩
    exact ⟨[], rfl, rfl, rfl, fun _ _ _ h => absurd (htd.symm.trans h) nofun, trivial⟩
  · rintro ⟨_, rfl, rfl, rfl, -, -⟩
    exact ⟨rfl, rfl⟩

theorem next_accepts {td : UInt8} (htd : g.td = some td) {p : Parser (List InterfaceGroup)}
    (hp : Accepts p fun rest taken => taken = rest.flatMap (·.bytes) ∧ Chained n td rest ∧
      Admitted (index + 1) (protocolAfter index protocol g) rest) :
    Accepts (do
      if index = 1 ∧ protocolAfter index protocol g = 1 ∧
          ¬hasBit (td >>> 4) InterfaceKind.b.bit then throw .tb3
      let rest ← p
      Pure.pure (g :: rest)) (GoesOn n index protocol g) := by
  split
  · next hmissing =>
    refine (Accepts.throw_bind .tb3).congr fun groups taken => iff_of_false nofun ?_
    rintro ⟨_, -, -, -, hsent, -⟩
    exact hmissing.2.2 (hsent hmissing.1 hmissing.2.1 td htd)
  · next hsent =>
    refine (Accepts.bind hp fun rest => Accepts.pure (g :: rest)).congr fun groups taken => ?_
    rw [GoesOn, htd]
    constructor
    · rintro ⟨rest, _, _, rfl, ⟨rfl, hchained, hrest⟩, rfl, rfl⟩
      refine ⟨rest, rfl, List.append_nil _, hchained, fun hone hprotocol td' htd' => ?_, hrest⟩
      obtain rfl := Option.some.inj (htd.symm.trans htd')
      exact Decidable.byContradiction fun hbit => hsent ⟨hone, hprotocol, hbit⟩
    · rintro ⟨rest, rfl, rfl, hchained, -, hrest⟩
      exact ⟨rest, _, [], (List.append_nil _).symm, ⟨rfl, hchained, hrest⟩, rfl, rfl⟩

theorem groupsFrom_accepts (index : Nat) (lead protocol : UInt8) (n : Nat) :
    Accepts (groupsFrom index (lead >>> 4) protocol n) fun groups taken =>
      taken = groups.flatMap (·.bytes) ∧ Chained n lead groups ∧
        Admitted index protocol groups := by
  induction n generalizing index lead protocol with
  | zero =>
    refine (Accepts.pure []).congr fun groups taken => ?_
    constructor
    · rintro ⟨rfl, rfl⟩
      exact ⟨rfl, rfl, trivial⟩
    · rintro ⟨rfl, rfl, -⟩
      exact ⟨rfl, rfl⟩
  | succ n ih =>
    refine (Accepts.bind (Q := GoesOn n index protocol) (group_accepts index lead protocol)
      fun g => ?_).congr fun groups taken => ?_
    · cases htd : g.td with
      | none => exact last_accepts htd
      | some td =>
        have hafter : protocolAfter index protocol g =
            if index = 0 then td &&& 0x0F else protocol := by
          rw [protocolAfter, htd]
          rfl
        dsimp only
        rw [← hafter]
        exact next_accepts htd (ih (index + 1) td (protocolAfter index protocol g))
    · constructor
      · rintro ⟨g, _, _, rfl, ⟨rfl, hannounced, hpasses⟩, rest, rfl, rfl, hchained, hsent, hrest⟩
        exact ⟨rfl, ⟨hannounced, hchained⟩, ⟨hpasses, hsent⟩, hrest⟩
      · rintro ⟨rfl, hchained, hadmitted⟩
        cases groups with
        | nil => exact hchained.elim
        | cons g rest =>
          exact ⟨g, g.bytes, rest.flatMap (·.bytes), rfl, ⟨rfl, hchained.1, hadmitted.1.1⟩, rest,
            rfl, rfl, hchained.2, hadmitted.1.2, hadmitted.2⟩

end Groups

theorem chars_accepts (n : Nat) :
    Accepts (chars n) fun bytes taken => taken = bytes ∧ bytes.length = n := by
  induction n with
  | zero =>
    refine (Accepts.pure []).congr fun bytes taken => ?_
    constructor
    · rintro ⟨rfl, rfl⟩
      exact ⟨rfl, rfl⟩
    · rintro ⟨rfl, hlen⟩
      exact ⟨List.eq_nil_of_length_eq_zero hlen, List.eq_nil_of_length_eq_zero hlen⟩
  | succ n ih =>
    refine (Accepts.bind Accepts.char fun b => Accepts.bind ih fun rest =>
      Accepts.pure (b :: rest)).congr fun bytes taken => ?_
    constructor
    · rintro ⟨b, _, _, rfl, rfl, rest, _, _, rfl, ⟨rfl, rfl⟩, rfl, rfl⟩
      exact ⟨by simp, rfl⟩
    · rintro ⟨rfl, hlen⟩
      obtain ⟨b, rest, rfl⟩ := List.exists_cons_of_length_eq_add_one hlen
      exact ⟨b, [b], rest, rfl, rfl, rest, rest, [], (List.append_nil _).symm,
        ⟨rfl, Nat.succ.inj hlen⟩, rfl, rfl⟩

/-- What the parser itself asks of an answer to reset, check by check. -/
structure Acceptable (a : Atr) : Prop where
  t0 : hasBit a.t0 0x20
  groups : Chained groupMax a.t0 a.groups
  admitted : Admitted 0 0 a.groups
  historical : a.historical.length = (a.t0 &&& 0x0F).toNat
  tck : a.tck.isSome ↔ a.groups.any needsCheck
  checksum : a.tck.isSome → a.checksum = 0

/-- The exclusive or with the check byte must be zero. -/
theorem checksum_accepts (a : Atr) :
    Accepts (do
      if a.checksum ≠ 0 then throw .checksum
      Pure.pure a) fun a' taken => a' = a ∧ taken = [] ∧ a.checksum = 0 := by
  split
  · next h => exact (Accepts.throw_bind .checksum).congr fun _ _ => by simp [h]
  · next h =>
    refine (Accepts.pure a).congr fun a' taken => ?_
    simp [Decidable.not_not.1 h]

/-- The end of an answer: a check byte if some group asks for one. -/
theorem checked_accepts (bare : Atr) (hbare : bare.tck = none) :
    Accepts (if bare.groups.any needsCheck then do
        let tck ← char
        let a := { bare with tck := some tck }
        if a.checksum ≠ 0 then throw .checksum
        Pure.pure a
      else Pure.pure bare) fun a taken =>
        a = { bare with tck := a.tck } ∧ taken = a.tck.toList ∧
          (a.tck.isSome ↔ bare.groups.any needsCheck) ∧ (a.tck.isSome → a.checksum = 0) := by
  split
  · next hcheck =>
    refine (Accepts.bind Accepts.char fun tck => checksum_accepts _).congr fun a taken => ?_
    constructor
    · rintro ⟨tck, _, _, rfl, rfl, rfl, rfl, hzero⟩
      exact ⟨rfl, rfl, iff_of_true rfl hcheck, fun _ => hzero⟩
    · rintro ⟨ha, rfl, hiff, hzero⟩
      have hsome := hiff.2 hcheck
      obtain ⟨tck, htck⟩ := Option.isSome_iff_exists.1 hsome
      rw [htck] at ha ⊢
      exact ⟨tck, [tck], [], rfl, rfl, ha, rfl, ha ▸ hzero hsome⟩
  · next hcheck =>
    have hself : bare = { bare with tck := none } := by rw [← hbare]
    refine (Accepts.pure bare).congr fun a taken => ?_
    constructor
    · rintro ⟨rfl, rfl⟩
      rw [hbare]
      exact ⟨hself, rfl, iff_of_false nofun hcheck, nofun⟩
    · rintro ⟨ha, rfl, hiff, -⟩
      have hnone : a.tck = none := Option.not_isSome_iff_eq_none.1 fun h => hcheck (hiff.1 h)
      rw [hnone] at ha ⊢
      exact ⟨ha.trans hself.symm, rfl⟩

theorem atr_accepts (c : Convention) :
    Accepts (atr c) fun a taken => taken = a.bytes ∧ a.convention = c ∧ Acceptable a := by
  -- behind T0: the same answer, less its first byte
  refine (Accepts.bind (Q := fun t0 a taken => a.t0 = t0 ∧
      taken = a.groups.flatMap (·.bytes) ++ a.historical ++ a.tck.toList ∧
      a.convention = c ∧ Acceptable a) Accepts.char fun t0 => ?_).congr fun a taken => ?_
  · dsimp only
    split
    · next ht0 =>
      refine (Accepts.bind (groupsFrom_accepts 0 t0 0 groupMax) fun groups =>
        Accepts.bind (chars_accepts (t0 &&& 0x0F).toNat) fun historical =>
          checked_accepts ⟨c, t0, groups, historical, none⟩ rfl).congr
            fun a taken => ?_
      constructor
      · rintro ⟨groups, _, _, rfl, ⟨rfl, hchained, hadmitted⟩, historical, _, _, rfl,
          ⟨rfl, hlen⟩, ha, rfl, hiff, hzero⟩
        rw [ha]
        exact ⟨rfl, (List.append_assoc ..).symm, rfl, ht0, hchained, hadmitted, hlen, hiff,
          fun h => ha ▸ hzero h⟩
      · rintro ⟨rfl, rfl, rfl, hok⟩
        exact ⟨a.groups, _, a.historical ++ a.tck.toList, List.append_assoc ..,
          ⟨rfl, hok.groups, hok.admitted⟩, a.historical, _, a.tck.toList, rfl,
          ⟨rfl, hok.historical⟩, rfl, rfl, hok.tck, hok.checksum⟩
    · next ht0 =>
      refine (Accepts.throw_bind .t0).congr fun a taken => iff_of_false nofun ?_
      rintro ⟨rfl, -, -, hok⟩
      exact ht0 hok.t0
  · constructor
    · rintro ⟨_, _, _, rfl, rfl, rfl, rfl, rfl, hok⟩
      exact ⟨rfl, rfl, hok⟩
    · rintro ⟨rfl, rfl, hok⟩
      exact ⟨a.t0, [a.t0], _, rfl, rfl, rfl, rfl, rfl, hok⟩

end Parser

/-! ## The restrictions byte by byte -/

section Restrictions

theorem toNat_lowHalf (b : UInt8) : (b &&& 0x0F).toNat = b.toNat % 16 := by
  rw [UInt8.toNat_and]
  exact Nat.and_two_pow_sub_one_eq_mod b.toNat 4

theorem toNat_highHalf (b : UInt8) : (b >>> 4).toNat = b.toNat / 16 := by
  rw [UInt8.toNat_shiftRight, Nat.shiftRight_eq_div_pow]
  rfl

/-- T0 announces TB1 by the second bit of its high half. -/
theorem hasBit_highHalf (b : UInt8) : hasBit (b >>> 4) InterfaceKind.b.bit = hasBit b 0x20 := by
  have hall : ∀ n : Fin 256, hasBit (UInt8.ofNat n.val >>> 4) InterfaceKind.b.bit =
      hasBit (UInt8.ofNat n.val) 0x20 := by decide +kernel
  have hb := hall ⟨b.toNat, b.toNat_lt⟩
  rwa [UInt8.ofNat_toNat] at hb

variable {protocol : UInt8} {g : InterfaceGroup}

open CardTap.Atr.Parser

theorem passes_first : Passes 0 protocol g ↔
    (∀ tb ∈ g.tb, tb = 0) ∧ ∀ td ∈ g.td, td.toNat % 16 ≤ 1 := by
  constructor
  · intro h
    refine ⟨fun tb htb => ?_, fun td htd => ?_⟩
    · have hcheck := h .b tb htb
      simpa [check] using hcheck
    · have hcheck := h .d td htd
      rw [← toNat_lowHalf]
      simpa [check, UInt8.lt_iff_toNat_lt] using hcheck
  · rintro ⟨htb, htd⟩ kind value hvalue
    cases kind with
    | a => rfl
    | b => simp [check, htb value hvalue]
    | c => rfl
    | d =>
      have hle := htd value hvalue
      rw [← toNat_lowHalf] at hle
      simpa [check, UInt8.lt_iff_toNat_lt] using hle

theorem passes_second : Passes 1 protocol g ↔
    g.ta = none ∧ g.tb = none ∧ ∀ tc ∈ g.tc, tc = 0x0A := by
  constructor
  · intro h
    refine ⟨?_, ?_, fun tc htc => ?_⟩
    · exact Option.eq_none_iff_forall_not_mem.2 fun ta hta => nomatch h .a ta hta
    · exact Option.eq_none_iff_forall_not_mem.2 fun tb htb => nomatch h .b tb htb
    · have hcheck := h .c tc htc
      simpa [check] using hcheck
  · rintro ⟨hta, htb, htc⟩ kind value hvalue
    cases kind with
    | a => exact absurd (hta.symm.trans hvalue) nofun
    | b => exact absurd (htb.symm.trans hvalue) nofun
    | c => simp [check, htc value hvalue]
    | d => rfl

theorem passes_third : Passes 2 protocol g ↔
    (∀ ta ∈ g.ta, 0x0F ≤ ta ∧ ta ≤ 0xFE) ∧
      (∀ tb ∈ g.tb, tb.toNat % 16 ≤ 5 ∧ tb.toNat / 16 ≤ 4) ∧
      ∀ tc ∈ g.tc, tc = 0 ∧ protocol ≠ 0 := by
  have hta (ta : UInt8) : check 2 .a ta protocol = .ok () ↔ 0x0F ≤ ta ∧ ta ≤ 0xFE := by
    have hlast : ta = 0xFF ↔ ta.toNat = 255 := UInt8.toNat_inj.symm
    have hlt := ta.toNat_lt
    simp only [check, UInt8.lt_iff_toNat_lt, UInt8.le_iff_toNat_le, hlast, UInt8.reduceToNat]
    split
    · exact iff_of_false nofun (by omega)
    · exact iff_of_true rfl (by omega)
  have htb (tb : UInt8) : check 2 .b tb protocol = .ok () ↔
      tb.toNat % 16 ≤ 5 ∧ tb.toNat / 16 ≤ 4 := by
    rw [← toNat_lowHalf, ← toNat_highHalf]
    simp only [check, gt_iff_lt, UInt8.lt_iff_toNat_lt, UInt8.reduceToNat]
    split
    · exact iff_of_false nofun (by omega)
    · exact iff_of_true rfl (by omega)
  have htc (tc : UInt8) : check 2 .c tc protocol = .ok () ↔ tc = 0 ∧ protocol ≠ 0 := by
    simp [check, and_comm]
  constructor
  · exact fun h => ⟨fun ta hmem => (hta ta).1 (h .a ta hmem),
      fun tb hmem => (htb tb).1 (h .b tb hmem), fun tc hmem => (htc tc).1 (h .c tc hmem)⟩
  · rintro ⟨ha, hb, hc⟩ kind value hmem
    cases kind with
    | a => exact (hta value).2 (ha value hmem)
    | b => exact (htb value).2 (hb value hmem)
    | c => exact (htc value).2 (hc value hmem)
    | d => rfl

theorem passes_of_le {index : Nat} (h : 3 ≤ index) : Passes index protocol g := by
  obtain ⟨k, rfl⟩ := Nat.exists_eq_add_of_le' h
  intro kind value _
  cases kind <;> rfl

theorem admitted_of_le {index : Nat} (h : 3 ≤ index) (groups : List InterfaceGroup) :
    Admitted index protocol groups := by
  induction groups generalizing index with
  | nil => trivial
  | cons g rest ih =>
    have hafter : protocolAfter index protocol g = protocol := if_neg (by omega)
    refine ⟨⟨passes_of_le h, fun hone => absurd hone (by omega)⟩, ?_⟩
    rw [hafter]
    exact ih (by omega)

variable (a : Atr)

theorem ta_succ (i : Nat) : a.ta (i + 1) = a.groups[i]?.bind (·.ta) := rfl

theorem tb_succ (i : Nat) : a.tb (i + 1) = a.groups[i]?.bind (·.tb) := rfl

theorem tc_succ (i : Nat) : a.tc (i + 1) = a.groups[i]?.bind (·.tc) := rfl

theorem td_succ (i : Nat) : a.td (i + 1) = a.groups[i]?.bind (·.td) := rfl

/-- Only the first three groups are restricted. -/
theorem admitted_iff : Admitted 0 0 a.groups ↔
    (∀ g ∈ a.groups[0]?, Passes 0 0 g) ∧
      (∀ g ∈ a.groups[1]?, Passes 1 a.protocol g ∧ AnnouncesTb3 1 a.protocol g) ∧
      ∀ g ∈ a.groups[2]?, Passes 2 a.protocol g := by
  obtain ⟨c, t0, groups, historical, tck⟩ := a
  rcases groups with _ | ⟨g₁, _ | ⟨g₂, _ | ⟨g₃, rest⟩⟩⟩
  · simp [Admitted]
  · simp [Admitted, AnnouncesTb3]
  · simp [Admitted, AnnouncesTb3, protocolAfter, Atr.protocol, td_succ]
  · simp [Admitted, AnnouncesTb3, protocolAfter, Atr.protocol, td_succ, admitted_of_le]

/-- A group behind one with TD is announced by it. -/
theorem Chained.next {n i : Nat} {lead td : UInt8} {groups : List InterfaceGroup}
    (h : Chained n lead groups) (hi : i + 1 < n) (hg : groups[i]? = some g) (htd : g.td = some td) :
    ∃ g', groups[i + 1]? = some g' ∧ g'.AnnouncedBy td := by
  induction n generalizing i lead groups with
  | zero => omega
  | succ n ih =>
    cases groups with
    | nil => exact h.elim
    | cons first rest =>
      obtain ⟨-, hrest⟩ := h
      cases i with
      | zero =>
        obtain rfl := Option.some.inj hg
        rw [htd] at hrest
        cases rest with
        | nil =>
          cases n with
          | zero => omega
          | succ n => exact hrest.elim
        | cons second rest =>
          cases n with
          | zero => omega
          | succ n => exact ⟨second, rfl, hrest.1⟩
      | succ i =>
        split at hrest
        · rw [hrest] at hg
          exact nomatch hg
        · obtain ⟨g', hg', hnext⟩ := ih hrest (by omega) (List.getElem?_cons_succ ▸ hg)
          exact ⟨g', hg', hnext⟩

theorem Chained.first {n : Nat} {lead : UInt8} {groups : List InterfaceGroup}
    (h : Chained (n + 1) lead groups) : ∃ g, groups[0]? = some g ∧ g.AnnouncedBy lead := by
  cases groups with
  | nil => exact h.elim
  | cons g rest => exact ⟨g, rfl, h.1⟩

theorem forall_mem_bind {α β : Type} {o : Option α} {f : α → Option β} {P : β → Prop} :
    (∀ b ∈ o.bind f, P b) ↔ ∀ a ∈ o, ∀ b ∈ f a, P b := by
  simp only [Option.mem_bind_iff, forall_exists_index, and_imp]
  exact ⟨fun h a ha b hb => h b a ha hb, fun h b a ha hb => h a ha b hb⟩

/-- The restrictions of the first three groups, told of the whole answer. -/
theorem admitted_iff_restricted : Admitted 0 0 a.groups ↔
    ((∀ tb ∈ a.tb 1, tb = 0) ∧ ∀ td ∈ a.td 1, td.toNat % 16 ≤ 1) ∧
      ((a.ta 2 = none ∧ a.tb 2 = none ∧ ∀ tc ∈ a.tc 2, tc = 0x0A) ∧
        ∀ td ∈ a.td 2, a.protocol = 1 → hasBit (td >>> 4) InterfaceKind.b.bit) ∧
      (∀ ta ∈ a.ta 3, 0x0F ≤ ta ∧ ta ≤ 0xFE) ∧
        (∀ tb ∈ a.tb 3, tb.toNat % 16 ≤ 5 ∧ tb.toNat / 16 ≤ 4) ∧
        ∀ tc ∈ a.tc 3, tc = 0 ∧ a.protocol ≠ 0 := by
  have hnone {α β : Type} (o : Option α) (f : α → Option β) :
      o.bind f = none ↔ ∀ x ∈ o, f x = none := Option.bind_eq_none_iff
  have hthird : (∀ g ∈ a.groups[1]?, AnnouncesTb3 1 a.protocol g) ↔
      ∀ td ∈ a.td 2, a.protocol = 1 → hasBit (td >>> 4) InterfaceKind.b.bit := by
    rw [td_succ, forall_mem_bind]
    exact ⟨fun h g hg td htd hp => h g hg rfl hp td htd,
      fun h g hg _ hp td htd => h g hg td htd hp⟩
  simp only [admitted_iff, passes_first, passes_second, passes_third, forall_and, hthird,
    ta_succ, tb_succ, tc_succ, td_succ, forall_mem_bind, hnone]

theorem any_needsCheck_iff : a.groups.any needsCheck ↔ ∃ i, ∃ td ∈ a.td i, td.toNat % 16 ≠ 0 := by
  have hneeds (g : InterfaceGroup) : needsCheck g ↔ ∃ td ∈ g.td, td.toNat % 16 ≠ 0 := by
    simp only [needsCheck, Option.any_eq_true, bne_iff_ne, ne_eq, ← UInt8.toNat_inj,
      toNat_lowHalf, Option.mem_def]
    rfl
  rw [List.any_eq_true]
  constructor
  · rintro ⟨g, hg, hcheck⟩
    obtain ⟨i, hi⟩ := List.mem_iff_getElem?.1 hg
    obtain ⟨td, htd, hne⟩ := (hneeds g).1 hcheck
    exact ⟨i + 1, td, Option.mem_bind_iff.2 ⟨g, hi, htd⟩, hne⟩
  · rintro ⟨i, td, htd, hne⟩
    cases i with
    | zero => exact nomatch htd
    | succ i =>
      obtain ⟨g, hg, htd⟩ := Option.mem_bind_iff.1 htd
      exact ⟨g, List.mem_of_getElem? hg, (hneeds g).2 ⟨td, htd, hne⟩⟩

/-- Behind a second group with TD the third one has TB3 exactly if that TD announces it. -/
theorem isSome_tb3 (h : Chained 4 a.t0 a.groups) {td : UInt8} (htd : td ∈ a.td 2) :
    (a.tb 3).isSome = hasBit (td >>> 4) InterfaceKind.b.bit := by
  obtain ⟨g, hg, htd⟩ := Option.mem_bind_iff.1 htd
  obtain ⟨g', hg', hannounced⟩ := h.next (by decide) hg htd
  rw [tb_succ, hg']
  exact hannounced .b

theorem isSome_tb1 (h : Chained 4 a.t0 a.groups) : (a.tb 1).isSome = hasBit a.t0 0x20 := by
  obtain ⟨g, hg, hannounced⟩ := h.first
  rw [tb_succ, hg, ← hasBit_highHalf]
  exact hannounced .b

/-- A first TD that announces T=0 or T=1 announces T=1 if it does not announce T=0. -/
theorem protocol_eq_one (htd : ∀ td ∈ a.td 1, td.toNat % 16 ≤ 1) (h : a.protocol ≠ 0) :
    a.protocol = 1 := by
  unfold Atr.protocol at h ⊢
  cases htd₁ : a.td 1 with
  | none => exact absurd (by rw [htd₁]; rfl) h
  | some td =>
    have hle := htd td htd₁
    rw [htd₁] at h
    rw [← toNat_lowHalf] at hle
    have hne : (td &&& 0x0F).toNat ≠ 0 := fun hzero => h (UInt8.toNat_inj.1 hzero)
    exact UInt8.toNat_inj.1 (show (td &&& 0x0F).toNat = 1 by omega)

/-- The checks of the parser are the restrictions of the grammar. -/
theorem acceptable_iff : Acceptable a ↔ a.Conforms := by
  constructor
  · intro h
    obtain ⟨⟨htb1, htd1⟩, ⟨⟨hta2, htb2, htc2⟩, hsent⟩, hta3, htb3, htc3⟩ :=
      (admitted_iff_restricted a).1 h.admitted
    have hsome : (a.tb 1).isSome := (isSome_tb1 a h.groups).trans h.t0
    obtain ⟨tb, htb⟩ := Option.isSome_iff_exists.1 hsome
    exact {
      groups := h.groups
      historical := by rw [h.historical, toNat_lowHalf]
      tck := h.tck.trans (any_needsCheck_iff a)
      checksum := h.checksum
      tb1 := by rw [htb, htb1 tb htb]
      td1 := htd1
      ta2 := hta2
      tb2 := htb2
      tc2 := htc2
      ta3 := hta3
      tb3 := htb3
      tc3 := fun tc htc => ⟨(htc3 tc htc).1, protocol_eq_one a htd1 (htc3 tc htc).2⟩
      tb3_sent := fun htd hp => by
        obtain ⟨td, htd⟩ := Option.isSome_iff_exists.1 htd
        rw [isSome_tb3 a h.groups htd]
        exact hsent td htd hp }
  · intro h
    have hannounced : hasBit a.t0 0x20 := by rw [← isSome_tb1 a h.groups, h.tb1]; rfl
    exact {
      t0 := hannounced
      groups := h.groups
      admitted := (admitted_iff_restricted a).2 ⟨⟨fun tb htb => by
          rw [h.tb1] at htb
          exact (Option.some.inj htb).symm, h.td1⟩,
        ⟨⟨h.ta2, h.tb2, h.tc2⟩, fun td htd hp =>
          (isSome_tb3 a h.groups htd).symm.trans (h.tb3_sent (Option.isSome_of_mem htd) hp)⟩,
        h.ta3, h.tb3, fun tc htc => ⟨(h.tc3 tc htc).1, by rw [(h.tc3 tc htc).2]; decide⟩⟩
      historical := by rw [h.historical, toNat_lowHalf]
      tck := h.tck.trans (any_needsCheck_iff a).symm
      checksum := h.checksum }

end Restrictions

end Atr

end CardTap

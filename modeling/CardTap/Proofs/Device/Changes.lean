import CardTap.Device.RegisterFile
import CardTap.Proofs.Run

/-!
# Changes of registers

The device sets bits of a register, clears bits of it or puts a value into it.  A row of such
changes is told by the registers it leaves and by the accesses it makes, and what it does to some
contacts only by whether each change spares them.
-/

namespace CardTap.Device

/-! ## Single bits -/

section Bits

variable {old mask kept : UInt8}

theorem or_and (x y z : UInt8) : (x ||| y) &&& z = x &&& z ||| y &&& z :=
  UInt8.toBitVec_inj.1 BitVec.and_or_distrib_right

theorem and_or_of_subset (h : kept &&& mask = kept) : (old ||| mask) &&& kept = kept := by
  have habsorbed : (old ||| -1) &&& kept = kept := by rw [UInt8.or_neg_one, UInt8.neg_one_and]
  rw [or_and, UInt8.neg_one_and] at habsorbed
  rw [or_and, UInt8.and_comm mask, h, habsorbed]

theorem and_clear_of_subset (h : kept &&& mask = kept) : (old &&& ~~~mask) &&& kept = 0 := by
  rw [← h, UInt8.and_comm kept, UInt8.and_assoc, ← UInt8.and_assoc (~~~mask), UInt8.not_and_self,
    UInt8.zero_and, UInt8.and_zero]

theorem and_or_of_disjoint (h : mask &&& kept = 0) : (old ||| mask) &&& kept = old &&& kept := by
  rw [or_and, h, UInt8.or_zero]

theorem and_clear_of_disjoint (h : mask &&& kept = 0) :
    (old &&& ~~~mask) &&& kept = old &&& kept := by
  have hkept : (mask ||| ~~~mask) &&& kept = kept := by rw [UInt8.or_not_self, UInt8.neg_one_and]
  rw [or_and, h, UInt8.zero_or] at hkept
  rw [UInt8.and_assoc, hkept]

end Bits

/-! ## Contacts -/

/-- Some contacts of a bank: its output register, its direction register and their bits. -/
structure Contacts where
  output : Nat
  direction : Nat
  mask : UInt8

namespace Contacts

/-- The bits of the contacts in both registers. -/
def bits (k : Contacts) (v : Values) : UInt8 × UInt8 :=
  (v k.output &&& k.mask, v k.direction &&& k.mask)

/-- All of the contacts are outputs at low. -/
def Low (k : Contacts) (v : Values) : Prop := k.bits v = (0, k.mask)

end Contacts

/-! ## Changes -/

/-- A change of one register. -/
inductive Change where
  | set (addr : Nat) (mask : UInt8)
  | clear (addr : Nat) (mask : UInt8)
  | put (addr : Nat) (value : UInt8)

namespace Change

/-- The register that is changed. -/
def addr : Change → Nat
  | .set addr _ => addr
  | .clear addr _ => addr
  | .put addr _ => addr

/-- The bits that may change. -/
def mask : Change → UInt8
  | .set _ mask => mask
  | .clear _ mask => mask
  | .put .. => 0xFF

/-- The new value of the register. -/
def result : Change → UInt8 → UInt8
  | .set _ mask, old => old ||| mask
  | .clear _ mask, old => old &&& ~~~mask
  | .put _ value, _ => value

/-- The write that makes the change. -/
def write (c : Change) (v : Values) : Write := ⟨v, c.addr, c.result (v c.addr)⟩

/-- The registers behind the change. -/
def done (c : Change) (v : Values) : Values := (c.write v).after

/-- The accesses that make the change: only a value is put without a read. -/
def accesses (c : Change) (v : Values) : List Access :=
  match c with
  | .put .. => [.write (c.write v)]
  | _ => [.read c.addr (v c.addr), .write (c.write v)]

/-- The change does not touch the contacts. -/
def Spares (c : Change) (k : Contacts) : Prop :=
  c.addr = k.output ∨ c.addr = k.direction → c.mask &&& k.mask = 0

instance (c : Change) (k : Contacts) : Decidable (c.Spares k) :=
  inferInstanceAs (Decidable (_ → _))

section Effects

variable {c : Change} {k : Contacts} {v : Values}

theorem result_spared {kept : UInt8} (h : c.mask &&& kept = 0) (old : UInt8) :
    c.result old &&& kept = old &&& kept := by
  cases c with
  | set addr mask => exact and_or_of_disjoint h
  | clear addr mask => exact and_clear_of_disjoint h
  | put addr value =>
    have hnone : kept = 0 := by
      rwa [mask, show (0xFF : UInt8) = -1 from rfl, UInt8.neg_one_and] at h
    simp [hnone]

@[simp] theorem done_addr (c : Change) (v : Values) : c.done v c.addr = c.result (v c.addr) :=
  Function.update_self ..

theorem done_of_ne {i : Nat} (h : i ≠ c.addr) : c.done v i = v i :=
  Function.update_of_ne h ..

theorem bits_done (h : c.Spares k) (v : Values) : k.bits (c.done v) = k.bits v := by
  have hregister : ∀ i, i = k.output ∨ i = k.direction →
      c.done v i &&& k.mask = v i &&& k.mask := by
    intro i hi
    by_cases haddr : i = c.addr
    · subst haddr
      rw [done_addr, result_spared (h hi)]
    · rw [done_of_ne haddr]
  rw [Contacts.bits, hregister _ (.inl rfl), hregister _ (.inr rfl), Contacts.bits]

theorem low_done (h : c.Spares k) (hlow : k.Low v) : k.Low (c.done v) := by
  rwa [Contacts.Low, bits_done h]

theorem found_accesses (h : c.addr ≠ Reg.inputD) (v : Values) :
    (c.accesses v).filterMap Access.found? = [] := by
  cases c <;> simp_all [accesses, Access.found?, addr]

theorem writes_accesses (c : Change) (v : Values) :
    (c.accesses v).filterMap Access.write? = [c.write v] := by
  cases c <;> rfl

end Effects

/-! ## Rows of changes -/

/-- The registers behind a row of changes. -/
def doneAll (v : Values) (cs : List Change) : Values := cs.foldl (fun v c => c.done v) v

/-- The accesses of a row of changes. -/
def trace (v : Values) : List Change → List Access
  | [] => []
  | c :: cs => c.accesses v ++ trace (c.done v) cs

/-- The writes of a row of changes. -/
def writes (v : Values) : List Change → List Write
  | [] => []
  | c :: cs => c.write v :: writes (c.done v) cs

section Rows

variable {cs ds : List Change} {v : Values} {w : Write}

theorem doneAll_append (v : Values) (cs ds : List Change) :
    doneAll v (cs ++ ds) = doneAll (doneAll v cs) ds :=
  List.foldl_append

theorem trace_append (v : Values) (cs ds : List Change) :
    trace v (cs ++ ds) = trace v cs ++ trace (doneAll v cs) ds := by
  induction cs generalizing v with
  | nil => rfl
  | cons c cs ih => simp [trace, ih, doneAll]

theorem writes_append (v : Values) (cs ds : List Change) :
    writes v (cs ++ ds) = writes v cs ++ writes (doneAll v cs) ds := by
  induction cs generalizing v with
  | nil => rfl
  | cons c cs ih => simp [writes, ih, doneAll]

theorem writes_trace (v : Values) (cs : List Change) :
    (trace v cs).filterMap Access.write? = writes v cs := by
  induction cs generalizing v with
  | nil => rfl
  | cons c cs ih => rw [trace, List.filterMap_append, writes_accesses, ih]; rfl

theorem found_trace (h : ∀ c ∈ cs, c.addr ≠ Reg.inputD) (v : Values) :
    (trace v cs).filterMap Access.found? = [] := by
  induction cs generalizing v with
  | nil => rfl
  | cons c cs ih =>
    rw [trace, List.filterMap_append, found_accesses (h c List.mem_cons_self)]
    exact ih (fun d hd => h d (List.mem_cons_of_mem c hd)) _

/-- What every change of a row keeps holds behind the row. -/
theorem doneAll_keeps {P : Values → Prop} (hkeep : ∀ c ∈ cs, ∀ v, P v → P (c.done v)) (hv : P v) :
    P (doneAll v cs) := by
  induction cs generalizing v with
  | nil => exact hv
  | cons c cs ih =>
    have hfirst := hkeep c List.mem_cons_self v hv
    exact ih (fun d hd => hkeep d (List.mem_cons_of_mem c hd)) hfirst

/-- Each write of a row makes one of its changes, on registers that have what the row keeps. -/
theorem mem_writes {P : Values → Prop} (hkeep : ∀ c ∈ cs, ∀ v, P v → P (c.done v)) (hv : P v)
    (hw : w ∈ writes v cs) : P w.before ∧ ∃ c ∈ cs, w = c.write w.before := by
  induction cs generalizing v with
  | nil => simp [writes] at hw
  | cons c cs ih =>
    rw [writes, List.mem_cons] at hw
    rcases hw with rfl | hw
    · exact ⟨hv, c, List.mem_cons_self, rfl⟩
    · have hfirst := hkeep c List.mem_cons_self v hv
      obtain ⟨hbefore, d, hd, hwrite⟩ :=
        ih (fun d hd => hkeep d (List.mem_cons_of_mem c hd)) hfirst hw
      exact ⟨hbefore, d, List.mem_cons_of_mem c hd, hwrite⟩

theorem mem_trace (hw : .write w ∈ trace v cs) : w ∈ writes v cs := by
  rw [← writes_trace]
  exact List.mem_filterMap.2 ⟨_, hw, rfl⟩

theorem exists_change (hw : w ∈ writes v cs) : ∃ c ∈ cs, w = c.write w.before :=
  (mem_writes (P := fun _ => True) (fun _ _ _ _ => trivial) trivial hw).2

/-- Contacts that every change of a row spares are the same behind each of its writes. -/
theorem bits_write {k : Contacts} (hspares : ∀ c ∈ cs, c.Spares k) (hw : w ∈ writes v cs) :
    k.bits w.after = k.bits w.before := by
  obtain ⟨c, hc, hwrite⟩ := exists_change hw
  have hafter : w.after = c.done w.before := congrArg Write.after hwrite
  rw [hafter, bits_done (hspares c hc)]

theorem low_doneAll {k : Contacts} (hspares : ∀ c ∈ cs, c.Spares k) (hlow : k.Low v) :
    k.Low (doneAll v cs) :=
  doneAll_keeps (fun c hc _ => low_done (hspares c hc)) hlow

theorem low_before {k : Contacts} (hspares : ∀ c ∈ cs, c.Spares k) (hlow : k.Low v)
    (hw : w ∈ writes v cs) : k.Low w.before :=
  (mem_writes (fun c hc _ => low_done (hspares c hc)) hlow hw).1

end Rows

end Change

/-! ## Changes as runs -/

namespace RegisterFile

open CardTap.Run

variable {m : RegisterFile}

/-- The register file behind a row of changes. -/
def changed (m : RegisterFile) (cs : List Change) : RegisterFile :=
  { m with
    values := Change.doneAll m.values cs
    accesses := m.accesses ++ Change.trace m.values cs }

theorem changed_append (m : RegisterFile) (cs ds : List Change) :
    (m.changed cs).changed ds = m.changed (cs ++ ds) := by
  simp [changed, Change.doneAll_append, Change.trace_append]

theorem read_returns {addr : Nat} (h : addr ≠ Reg.inputD) :
    (registers.read addr).Returns m (m.values addr)
      { m with accesses := m.accesses ++ [.read addr (m.values addr)] } := by
  have hfetched : m.fetched addr =
      (m.values addr, { m with accesses := m.accesses ++ [.read addr (m.values addr)] }) := if_neg h
  have hrun := Returns.step (fun m : RegisterFile => m.fetched addr) m
  rw [hfetched] at hrun
  exact hrun

theorem write_returns (addr : Nat) (value : UInt8) :
    (registers.write addr value).Returns m () (m.written addr value) :=
  Returns.change (fun m : RegisterFile => m.written addr value) m

theorem anySet_returns {addr : Nat} (mask : UInt8) (h : addr ≠ Reg.inputD) :
    (registers.anySet addr mask).Returns m (m.values addr &&& mask != 0)
      { m with accesses := m.accesses ++ [.read addr (m.values addr)] } :=
  Returns.bind (read_returns h) (Returns.pure _ _)

/-- A run makes a row of changes, on whatever registers it starts. -/
def Makes (x : Run RegisterFile Unit) (cs : List Change) : Prop :=
  ∀ m : RegisterFile, x.Returns m () (m.changed cs)

namespace Makes

variable {x y : Run RegisterFile Unit} {cs ds : List Change}

theorem seq (hx : Makes x cs) (hy : Makes y ds) : Makes (x >>= fun _ => y) (cs ++ ds) := by
  intro m
  rw [← changed_append]
  exact Returns.bind (hx m) (hy _)

theorem set {addr : Nat} (mask : UInt8) (h : addr ≠ Reg.inputD) :
    Makes (registers.set addr mask) [.set addr mask] := by
  intro m
  have hrun := Returns.bind (f := fun old => registers.write addr (old ||| mask))
    (read_returns (m := m) h) (write_returns addr _)
  rw [written, List.append_assoc] at hrun
  exact hrun

theorem clear {addr : Nat} (mask : UInt8) (h : addr ≠ Reg.inputD) :
    Makes (registers.clear addr mask) [.clear addr mask] := by
  intro m
  have hrun := Returns.bind (f := fun old => registers.write addr (old &&& ~~~mask))
    (read_returns (m := m) h) (write_returns addr _)
  rw [written, List.append_assoc] at hrun
  exact hrun

theorem put (addr : Nat) (value : UInt8) : Makes (registers.write addr value) [.put addr value] :=
  fun _ => write_returns addr value

end Makes

end RegisterFile

end CardTap.Device

import CardTap.Frame

/-!
# Characters read back

The nine levels behind the start bit decode, in the convention that a byte was encoded in, to that
byte; its parity agrees unless the parity bit was spoiled.
-/

namespace CardTap

theorem Convention.bit_level (c : Convention) (x : Bool) : c.bit (c.level x) = x := by
  cases c <;> cases x <;> rfl

theorem Convention.bit_flip (c : Convention) (l : Level) : c.bit l.flip = !c.bit l := by
  cases c <;> cases l <;> rfl

namespace Frame

/-- The levels behind the start bit. -/
def bits (f : Frame) : Vector Level 9 :=
  Vector.ofFn fun i : Fin 9 => getElem f (i.val + 1) (Nat.succ_lt_succ i.isLt)

theorem getElem_bits (f : Frame) {i : Nat} (h : i < 9) : f.bits[i] = f[i + 1] := by
  rw [bits, Vector.getElem_ofFn]

/-- A frame begins with a start bit. -/
def Starts (f : Frame) : Prop := f[0] = .low

theorem encode_starts (b : UInt8) (c : Convention) : (encode b c).Starts := by
  simp [Starts, encode]

theorem encode_data (b : UInt8) (c : Convention) {i : Nat} (h : i < 8) :
    (encode b c)[i + 1] = c.level (hasBit b (c.mask i)) := by
  simp only [encode, Vector.getElem_ofFn]
  rw [if_neg (Nat.succ_ne_zero i), if_neg (by omega), Nat.add_sub_cancel]

theorem encode_parity (b : UInt8) (c : Convention) {i : Nat} (h : i < 10) (heq : i = 9) :
    (encode b c)[i] = c.level (parity b) := by
  simp [encode, heq]

theorem spoilParity_of_ne (f : Frame) {i : Nat} (h : i < 10) (hne : i ≠ 9) :
    f.spoilParity[i] = f[i] := by
  rw [spoilParity, Vector.getElem_set_ne _ _ (Ne.symm hne)]

theorem spoilParity_of_eq (f : Frame) {i : Nat} (h : i < 10) (heq : i = 9) :
    f.spoilParity[i] = f[i].flip := by
  subst heq
  simp [spoilParity]

theorem Starts.spoilParity {f : Frame} (h : f.Starts) : f.spoilParity.Starts :=
  (spoilParity_of_ne f _ (by decide)).trans h

end Frame

/-- A byte is made of its bits, in either order. -/
theorem gather_hasBit (b : UInt8) (c : Convention) :
    (List.finRange 8).foldl
      (fun acc i => if hasBit b (c.mask i.val) then acc ||| c.mask i.val else acc) 0 = b := by
  have hall : ∀ n : Fin 256, (List.finRange 8).foldl (fun acc i =>
      if hasBit (UInt8.ofNat n.val) (c.mask i.val) then acc ||| c.mask i.val else acc) 0 =
        UInt8.ofNat n.val := by
    cases c <;> decide +kernel
  have hb := hall ⟨b.toNat, b.toNat_lt⟩
  rwa [UInt8.ofNat_toNat] at hb

theorem dataByte_eq {b : UInt8} {c : Convention} {bits : Vector Level 9}
    (h : ∀ i (hi : i < 8), bits[i] = c.level (hasBit b (c.mask i))) : dataByte bits c = b := by
  have hread : (fun (acc : UInt8) (i : Fin 8) =>
      if c.bit (bits.get (i.castLE (by decide))) then acc ||| c.mask i.val else acc) =
      fun acc i => if hasBit b (c.mask i.val) then acc ||| c.mask i.val else acc := by
    funext acc i
    rw [show bits.get (i.castLE _) = bits[i.val] from rfl, h i.val i.isLt, Convention.bit_level]
  rw [dataByte, hread, gather_hasBit]

theorem decode_bits_encode (b : UInt8) (c : Convention) :
    decode (Frame.encode b c).bits c = (b, true) := by
  have hbyte : dataByte (Frame.encode b c).bits c = b :=
    dataByte_eq fun i hi => by rw [Frame.getElem_bits, Frame.encode_data b c hi]
  rw [decode, hbyte, Frame.getElem_bits, Frame.encode_parity b c _ rfl, Convention.bit_level,
    beq_self_eq_true]

theorem decode_bits_spoilParity (b : UInt8) (c : Convention) :
    decode (Frame.encode b c).spoilParity.bits c = (b, false) := by
  have hbyte : dataByte (Frame.encode b c).spoilParity.bits c = b :=
    dataByte_eq fun i hi => by
      rw [Frame.getElem_bits, Frame.spoilParity_of_ne _ _ (by omega), Frame.encode_data b c hi]
  rw [decode, hbyte, Frame.getElem_bits, Frame.spoilParity_of_eq _ _ rfl,
    Frame.encode_parity b c _ rfl, Convention.bit_flip, Convention.bit_level]
  cases parity b <;> rfl

/-- The first character of a card, read in the direct convention, announces the convention that it
was sent in. -/
theorem ofTs?_decode (c : Convention) :
    Convention.ofTs? (decode (Frame.encode c.ts c).bits .direct).1 = some c := by
  cases c <;> decide +kernel

end CardTap

import CardTap.Diagnostic.Basic
import CardTap.Proofs.Line.Responsive

/-!
# Diagnostic exchanges on a line that answers

Reading a character again and sending it again end after four tries, whatever the line answers, so
that a diagnostic exchange maintains what the operations of its line maintain.
-/

namespace CardTap

open Run

section Exchanges

variable {σ : Type} {l : Line σ} {e : Etu} {P : σ → Prop} (hl : l.Serves P)
  (hroom : e.ticks * 1075 < Width.bits32.size)

include hl hroom

theorem pause_maintains {n : Nat} (hn : n ≤ 13) : ((Link.mk l e).pause n).run.Maintains P := by
  have hticks : e.ticks * n ≤ e.ticks * 13 := Nat.mul_le_mul_left _ hn
  exact Maintains.adapt (wait_maintains hl (by omega))

/-! ## Receiving -/

section Receiving

variable (c : Convention) {maxWait : Nat} (hlimit : maxWait ≠ 0)

include hlimit

theorem receiveWithin_maintains (tries : Nat) :
    ((Link.mk l e).receiveWithin c maxWait tries).run.Maintains P := by
  induction tries with
  | zero => exact Maintains.throw _
  | succ tries ih =>
    have hbyte : ((Link.mk l e).receiveByte c maxWait).run.Maintains P :=
      receive_maintains hl (by omega) c hlimit fun _ => hroom
    apply Maintains.bind_ok (Maintains.adapt hbyte)
    intro received
    cases hintact : received.intact with
    | true => simpa [hintact] using Maintains.ok received.byte
    | false => simpa [hintact] using ih

theorem receiveChar_maintains : ((Link.mk l e).receiveChar c maxWait).run.Maintains P :=
  receiveWithin_maintains hl hroom c hlimit tries

theorem receiveChars_maintains (n : Nat) :
    ((Link.mk l e).receiveChars c maxWait n).run.Maintains P := by
  induction n with
  | zero => exact Maintains.ok _
  | succ n ih =>
    apply Maintains.bind_ok ih
    intro chars
    apply Maintains.bind_ok (receiveChar_maintains hl hroom c hlimit)
    intro b
    exact Maintains.ok _

theorem receiveExpected_maintains (expected : UInt8) :
    ((Link.mk l e).receiveExpected c maxWait expected).run.Maintains P := by
  apply Maintains.bind_ok (receiveChar_maintains hl hroom c hlimit)
  intro got
  by_cases h : got = expected
  · simpa [h] using Maintains.ok ()
  · simpa [h] using Maintains.throw _

end Receiving

/-! ## Sending -/

section Sending

variable (c : Convention)

theorem sendWithin_maintains (b : UInt8) (tries : Nat) :
    ((Link.mk l e).sendWithin c b tries).run.Maintains P := by
  induction tries with
  | zero => exact Maintains.throw _
  | succ tries ih =>
    have hsend : ((Link.mk l e).send b c).run.Maintains P := send_maintains hl (by omega) b c
    apply Maintains.bind_ok (Maintains.lift hsend)
    intro result
    rcases result with failure | _
    · cases failure with
      | rejected => exact ih
      | _ => exact Maintains.throw _
    · exact Maintains.ok _

theorem sendAfterGaps_maintains {gap : Nat} (hgap : gap ≤ 13) (bytes : List UInt8) :
    ((Link.mk l e).sendAfterGaps c gap bytes).run.Maintains P := by
  induction bytes with
  | nil => exact Maintains.ok _
  | cons b rest ih =>
    apply Maintains.bind_ok (pause_maintains hl hroom hgap)
    intro _
    apply Maintains.bind_ok (sendWithin_maintains hl hroom c b tries)
    intro _
    exact ih

theorem sendSeries_maintains {gap : Nat} (hgap : gap ≤ 13) (bytes : List UInt8) :
    ((Link.mk l e).sendSeries c gap bytes).run.Maintains P := by
  cases bytes with
  | nil => exact Maintains.ok _
  | cons b rest =>
    apply Maintains.bind_ok (sendWithin_maintains hl hroom c b tries)
    intro _
    exact sendAfterGaps_maintains hl hroom c hgap rest

end Sending

end Exchanges

end CardTap

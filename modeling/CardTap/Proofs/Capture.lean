import CardTap.Capture.Buffer

/-!
# Exchanges as they stood on the line

A captured exchange is logged with the very bytes of its command and with the bytes of its response,
the two status bytes moved to the front.
-/

namespace CardTap

/-- The bytes of a response with its last two, the status, in front. -/
def statusFirst (line : List UInt8) : List UInt8 :=
  line.drop (line.length - 2) ++ line.take (line.length - 2)

theorem Command.bytes_of_ofBytes {line : List UInt8} {c : Command}
    (h : Command.ofBytes line = .ok c) : c.bytes = line := by
  unfold Command.ofBytes at h
  split at h
  · next cla ins p1 p2 p3 data =>
    unfold Command.make at h
    split at h
    · obtain rfl := Except.ok.inj h
      rfl
    · exact nomatch h
  · exact nomatch h

theorem Response.bytes_of_ofBytes {line : List UInt8} {r : Response}
    (h : Response.ofBytes line = .ok r) : r.bytes = statusFirst line := by
  unfold Response.ofBytes at h
  split at h
  · next sw2 sw1 data hline =>
    have hsplit : line = data.reverse ++ [sw1, sw2] := by
      rw [← List.reverse_reverse line, hline]
      simp
    unfold Response.make at h
    split at h
    · obtain rfl := Except.ok.inj h
      have hlen : (data.reverse ++ [sw1, sw2]).length - 2 = data.reverse.length := by simp
      rw [hsplit, statusFirst, hlen, List.drop_left, List.take_left]
      rfl
    · exact nomatch h
  · exact nomatch h

/-- An exchange with the bytes on the line that it was built from. -/
structure Captured where
  command : List UInt8
  response : List UInt8
  exchange : Exchange
  ofLine : Exchange.ofBytes command response = .ok exchange

theorem Captured.entry_exchange (x : Captured) :
    x.exchange.entry = ⟨some x.command, some (statusFirst x.response)⟩ := by
  have h := x.ofLine
  unfold Exchange.ofBytes at h
  cases hcommand : Command.ofBytes x.command with
  | error e => rw [hcommand] at h; exact nomatch h
  | ok c =>
    cases hresponse : Response.ofBytes x.response with
    | error e => rw [hcommand, hresponse] at h; exact nomatch h
    | ok r =>
      rw [hcommand, hresponse] at h
      rw [← Except.ok.inj h, Exchange.entry, Command.bytes_of_ofBytes hcommand,
        Response.bytes_of_ofBytes hresponse]

end CardTap

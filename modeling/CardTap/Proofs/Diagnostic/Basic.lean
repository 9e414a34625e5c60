import CardTap.Diagnostic.Card
import CardTap.Diagnostic.Terminal
import CardTap.Proofs.Bench.Wire.Conversation
import CardTap.Proofs.TerminalReset

/-!
# Diagnostic sequences on the simulated board

A diagnostic sequence works on one line, shows texts on the panel and records exchanges.  Each of
these acts on its own part of the bench and leaves the others alone.
-/

namespace CardTap

/-- The bytes of an exchange in the order in which they were on the line. -/
def Exchange.onLine (x : Exchange) : List UInt8 × List UInt8 :=
  (x.command.bytes, x.response.data ++ [x.response.sw1, x.response.sw2])

namespace Bench

open CardTap.Run CardTap.Bench.Wire

variable {size : Nat} {b : Bench} {α ε : Type}

/-! ## Parts of the bench -/

section Parts

theorem onTerminal_returns {f : {σ : Type} → Link σ → ExceptT ε (Run σ) α} {r : Except ε α}
    {w : Wire} (h : (f ⟨Wire.line, .terminal⟩).run.Returns b.terminal r w) :
    ((board size).onTerminal f).run.Returns b r { b with terminal := w } :=
  Returns.attempted (p := terminalPart) h

theorem onCard_returns {f : {σ : Type} → Link σ → ExceptT ε (Run σ) α} {r : Except ε α}
    {w : Wire} (h : (f ⟨Wire.line, .card⟩).run.Returns b.card r w) :
    ((board size).onCard f).run.Returns b r { b with card := w } :=
  Returns.attempted (p := cardPart) h

/-- The panel with a line shown on its display, if it has one. -/
def Panel.shown (p : Panel) (text : String) : Panel :=
  if p.connected then { p with powered := true, lines := text :: p.lines } else p

theorem Panel.shown_leds (p : Panel) (text : String) : (p.shown text).leds = p.leds := by
  unfold shown
  split <;> rfl

/-- The display is switched on before it is written. -/
theorem showLine_returns (size : Nat) (text : String) :
    ((board size).panel.run (·.showLine text)).Returns b ()
      { b with panel := b.panel.shown text } := by
  refine Returns.mounted (p := panelPart) (Returns.bind (Returns.read Panel.connected b.panel) ?_)
  unfold Panel.shown
  by_cases hdisplay : b.panel.connected = true
  · rw [if_pos hdisplay, if_pos hdisplay]
    refine Returns.bind (Returns.change (fun p : Panel => { p with powered := true }) b.panel) ?_
    refine Returns.bind (Returns.read Panel.powered _) ?_
    exact Returns.change (fun p : Panel => { p with lines := text :: p.lines }) _
  · rw [if_neg hdisplay, if_neg hdisplay]
    exact Returns.pure () b.panel

theorem showLine_ends (size : Nat) (text : String) :
    ((board size).panel.run (·.showLine text)).Ends b fun _ b' =>
      ∃ panel, b' = { b with panel } :=
  (showLine_returns size text).ends ⟨_, rfl⟩

theorem reportFailure_ends (size : Nat) (what : String) (e : DiagnosticError) :
    ((board size).reportFailure what e).Ends b fun _ b' => ∃ panel, b' = { b with panel } :=
  Ends.after (Returns.note _ b) (showLine_ends size _)

end Parts

/-! ## Recorded exchanges -/

section Recorded

/-- A part of a sequence records the exchanges `xs` as far as there is room for them; apart from
that it only works on the lines and on the panel. -/
def Records (b : Bench) (xs : List Exchange) (b' : Bench) : Prop :=
  ∃ terminal card panel captured,
    b' = { b with terminal, card, panel, ram.captured := captured } ∧
      captured.items = (b.ram.captured.items ++ xs).take Buffer.capacity

variable {b' b'' : Bench} {xs ys : List Exchange}

/-- What found no room before finds none later. -/
theorem take_append_take (n : Nat) (l l' : List α) :
    (l.take n ++ l').take n = (l ++ l').take n := by
  rw [List.take_append, List.take_append, List.take_take, Nat.min_self, List.length_take]
  congr 2
  omega

theorem Records.nothing (b : Bench) (terminal card : Wire) (panel : Panel) :
    Records b [] { b with terminal, card, panel } := by
  refine ⟨terminal, card, panel, b.ram.captured, rfl, ?_⟩
  rw [List.append_nil]
  exact (List.take_of_length_le b.ram.captured.items_le).symm

theorem Records.trans (h : Records b xs b') (h' : Records b' ys b'') :
    Records b (xs ++ ys) b'' := by
  obtain ⟨_, _, _, captured, rfl, hxs⟩ := h
  obtain ⟨terminal, card, panel, captured', rfl, hys⟩ := h'
  refine ⟨terminal, card, panel, captured', rfl, ?_⟩
  rw [hys, hxs, take_append_take, List.append_assoc]

theorem Records.captured_eq (h : Records b xs b') :
    b'.ram.captured.items = (b.ram.captured.items ++ xs).take Buffer.capacity := by
  obtain ⟨_, _, _, _, rfl, hitems⟩ := h
  exact hitems

theorem Records.slot_eq (h : Records b xs b') : b'.slot = b.slot := by
  obtain ⟨_, _, _, _, rfl, _⟩ := h
  rfl

theorem captured?_eq (r : Ram) (x : Exchange) :
    ∃ captured, (r.captured? x).2 = { r with captured } ∧
      captured.items = (r.captured.items ++ [x]).take Buffer.capacity := by
  unfold Ram.captured? Buffer.append?
  by_cases h : r.captured.items.length < 8
  · simp only [h, ↓reduceDIte]
    refine ⟨_, rfl, (List.take_of_length_le ?_).symm⟩
    rw [List.length_append]
    exact h
  · have hfull : r.captured.items.length = Buffer.capacity :=
      Nat.le_antisymm r.captured.items_le (Nat.not_lt.1 h)
    simp only [h, ↓reduceDIte]
    refine ⟨r.captured, rfl, ?_⟩
    rw [List.take_append_of_le_length (Nat.le_of_eq hfull.symm),
      List.take_of_length_le (Nat.le_of_eq hfull)]

theorem command_of_line {line : List UInt8} (hmin : 5 ≤ line.length) (hmax : line.length ≤ 69) :
    ∃ c, Command.ofBytes line = .ok c ∧ c.bytes = line := by
  match line, hmin with
  | cla :: ins :: p1 :: p2 :: p3 :: data, _ =>
    have hdata : data.length ≤ 64 := by
      simp only [List.length_cons] at hmax
      omega
    exact ⟨⟨⟨cla, ins, p1, p2, p3⟩, data, hdata⟩, dif_pos hdata, rfl⟩

/-- An exchange whose command and response fit is recorded with the bytes on the line. -/
theorem recordExchange_ends (size : Nat) (line data : List UInt8) (sw1 sw2 : UInt8)
    (hmin : 5 ≤ line.length) (hmax : line.length ≤ 69) (hdata : data.length ≤ 192) :
    ((board size).recordExchange line (Response.make data sw1 sw2)).Ends b fun _ b' =>
      b'.terminal = b.terminal ∧ b'.card = b.card ∧
        ∃ x : Exchange, x.onLine = (line, data ++ [sw1, sw2]) ∧ Records b [x] b' := by
  obtain ⟨command, hcommand, hline⟩ := command_of_line hmin hmax
  have hresponse : Response.make data sw1 sw2 = .ok ⟨sw1, sw2, data, hdata⟩ := dif_pos hdata
  let x : Exchange := ⟨command, ⟨sw1, sw2, data, hdata⟩⟩
  obtain ⟨captured, heq, hitems⟩ := captured?_eq b.ram x
  have hcapture : ((board size).capture x).Returns b (b.ram.captured? x).1
      { b with ram := { b.ram with captured } } := heq ▸ capture_returns x
  unfold Board.recordExchange
  simp only [hcommand, hresponse]
  refine Ends.after hcapture (Ends.pure ⟨rfl, rfl, x, ?_, ?_⟩)
  · exact congrArg (·, data ++ [sw1, sw2]) hline
  · exact ⟨b.terminal, b.card, b.panel, captured, rfl, hitems⟩

end Recorded

end Bench

end CardTap

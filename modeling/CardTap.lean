import CardTap.Atr.Basic
import CardTap.Atr.CardReset
import CardTap.Atr.Parse
import CardTap.Atr.Reader
import CardTap.Atr.Send
import CardTap.Bench.Bench
import CardTap.Boot
import CardTap.Chip.Basic
import CardTap.Device.Program
import CardTap.Line.Scripted
import CardTap.Log.Session
import CardTap.TerminalReset
import CardTap.Line.Calls
import CardTap.Line.Shared
import CardTap.Store.Dump
import CardTap.Store.Reply
import CardTap.Proofs.Run
import CardTap.Proofs.Keeps
import CardTap.Proofs.Ends
import CardTap.Proofs.Maintains
import CardTap.Proofs.Bench.Memory
import CardTap.Proofs.Bench.Access
import CardTap.Proofs.Bench.Settings
import CardTap.Proofs.Bench.Bounds
import CardTap.Proofs.Bench.PlainArray
import CardTap.Proofs.Bench.FactoryReset
import CardTap.Proofs.Capture
import CardTap.Proofs.Log.Plan
import CardTap.Proofs.Log.Flush
import CardTap.Proofs.Log.PowerLoss
import CardTap.Proofs.Log.AppendOnly
import CardTap.Proofs.Log.Clean
import CardTap.Proofs.Log.Reading
import CardTap.Proofs.TerminalReset
import CardTap.Proofs.Presence
import CardTap.Proofs.Log.Recovery
import CardTap.Proofs.Log.RoundTrip
import CardTap.Proofs.Log.Effect
import CardTap.Proofs.Boot
import CardTap.Proofs.Log.ErasedTail
import CardTap.Proofs.Log.TornBody
import CardTap.Proofs.Log.TornSession
import CardTap.Proofs.Log.TornFlush
import CardTap.Proofs.Line.Shared
import CardTap.Proofs.Line.Traces
import CardTap.Proofs.Line.Driven
import CardTap.Proofs.Log.Overrun
import CardTap.Proofs.AlwaysRestarts
import CardTap.Proofs.Bench.SingleWriter
import CardTap.Proofs.Frame
import CardTap.Proofs.Bench.Wire.Rest
import CardTap.Proofs.Bench.Wire.Serves
import CardTap.Proofs.Bench.Wire.Receive
import CardTap.Proofs.Bench.Wire.Send
import CardTap.Proofs.Atr.Reader
import CardTap.Proofs.Bench.Wire.Conversation
import CardTap.Proofs.Diagnostic.Basic
import CardTap.Proofs.Diagnostic.Exchanges
import CardTap.Proofs.Diagnostic.Terminal
import CardTap.Proofs.Diagnostic.Card
import CardTap.Proofs.Atr.Accepts
import CardTap.Proofs.Atr.Grammar
import CardTap.Proofs.Atr.Tape
import CardTap.Proofs.Log.Misread
import CardTap.Proofs.Log.Rewritten
import CardTap.Proofs.Log.Resume
import CardTap.Proofs.Log.Grouping
import CardTap.Proofs.Menu
import CardTap.Proofs.MenuCycle
import CardTap.Proofs.BootEffect
import CardTap.Proofs.PowerUp
import CardTap.Proofs.PowerCycles
import CardTap.Proofs.Bench.Wire.Series
import CardTap.Proofs.Bench.Wire.Retries
import CardTap.Proofs.Diagnostic.Script
import CardTap.Proofs.Line.Courses
import CardTap.Proofs.Line.Reception
import CardTap.Proofs.Atr.CardReset
import CardTap.Proofs.CardPower
import CardTap.Device.RegisterFile
import CardTap.Proofs.Device.Changes
import CardTap.Proofs.Device.CardContacts
import CardTap.Device.RunningTimer
import CardTap.Proofs.Device.Sections
import CardTap.Proofs.Device.WideCount
import CardTap.Proofs.Line.TimeBase
import CardTap.Proofs.Timing

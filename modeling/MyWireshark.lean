import MyWireshark.Lib.BoolGrammar
import MyWireshark.Lib.Machine
import MyWireshark.Lib.Bytes
import MyWireshark.Lib.ShortCircuit
import MyWireshark.Lib.OnesComplement
import MyWireshark.Lib.Transition
import MyWireshark.Lib.Monitor
import MyWireshark.Lib.RingBuffer
import MyWireshark.Lib.Text
import MyWireshark.Lib.Framing
import MyWireshark.Lib.Trace
import MyWireshark.Bpf.Interp
import MyWireshark.Filter.Core
import MyWireshark.Filter.Cursor
import MyWireshark.Filter.Follows
import MyWireshark.Filter.Descent
import MyWireshark.Filter.Lexing
import MyWireshark.Filter.Slack
import MyWireshark.CapFilter.Lexer
import MyWireshark.CapFilter.Ipv4Word
import MyWireshark.CapFilter.Parser
import MyWireshark.CapFilter.Grammar
import MyWireshark.CapFilter.Codegen
import MyWireshark.CapFilter.Backpatch
import MyWireshark.CapFilter.Semantics
import MyWireshark.CapFilter.Correct
import MyWireshark.CapFilter.Checked
import MyWireshark.CapFilter.PatchLists
import MyWireshark.CapFilter.Words
import MyWireshark.DispFilter.Lexer
import MyWireshark.DispFilter.Ipv6Word
import MyWireshark.DispFilter.Parser
import MyWireshark.DispFilter.Grammar
import MyWireshark.DispFilter.Correct
import MyWireshark.DispFilter.Words
import MyWireshark.DispFilter.Absent
import MyWireshark.Dissect.Checksum
import MyWireshark.Dissect.ChecksumExact
import MyWireshark.Dissect.OneWord
import MyWireshark.Dissect.Parsers
import MyWireshark.Dissect.Printer
import MyWireshark.Dissect.Layout
import MyWireshark.Dissect.Reference
import MyWireshark.Dissect.Correct
import MyWireshark.Dissect.Padding
import MyWireshark.Dissect.Ipv6Trailer
import MyWireshark.Dissect.Truncation
import MyWireshark.Literals
import MyWireshark.Addresses
import MyWireshark.TokenBuffer
import MyWireshark.Agreement
import MyWireshark.KeywordSync
import MyWireshark.Fragments
import MyWireshark.Queue.Model
import MyWireshark.Queue.Safety
import MyWireshark.Queue.Pipeline
import MyWireshark.Queue.Progress
import MyWireshark.Capture.RawSocket
import MyWireshark.Capture.Cursor
import MyWireshark.Capture.Reader
import MyWireshark.Capture.Delivery
import MyWireshark.Capture.Run
import MyWireshark.Capture.RunFlow
import MyWireshark.Capture.FilterWindow
import MyWireshark.Capture.Backend
import MyWireshark.Capture.Promisc
import MyWireshark.Capture.Stats
import MyWireshark.Capture.PcapFile
import MyWireshark.Capture.WireLength
import MyWireshark.Lib.Work
import MyWireshark.Queue.Termination
import MyWireshark.Capture.Outcome
import MyWireshark.Session.Model
import MyWireshark.Session.Invariant
import MyWireshark.Session.Exit
import MyWireshark.Session.Stop
import MyWireshark.Session.Filters
import MyWireshark.Capture.StopRequest
import MyWireshark.Capture.Resources
import MyWireshark.Dissect.Dump
import MyWireshark.Dissect.Lines
import MyWireshark.Session.Output
import MyWireshark.Dissect.Accepts
import MyWireshark.Dissect.Shown

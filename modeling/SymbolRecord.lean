import SymbolRecord.Main
import SymbolRecord.Proofs.Entries
import SymbolRecord.Proofs.Value
import SymbolRecord.Proofs.Codec
import SymbolRecord.Proofs.Record
import SymbolRecord.Proofs.Mixin
import SymbolRecord.Proofs.Legible
import SymbolRecord.Proofs.Encoding
import SymbolRecord.Proofs.Core
import SymbolRecord.Proofs.Decoding
import SymbolRecord.Proofs.RoundTrip
import SymbolRecord.Proofs.Utf8
import SymbolRecord.Proofs.Number
import SymbolRecord.Proofs.Token
import SymbolRecord.Proofs.Json
import SymbolRecord.Proofs.Yield
import SymbolRecord.Proofs.Run
import SymbolRecord.Proofs.Standard
import SymbolRecord.Proofs.Decoded
import SymbolRecord.Proofs.Stable
import SymbolRecord.Proofs.Coder
import SymbolRecord.Proofs.Lines
import SymbolRecord.Proofs.Compact
import SymbolRecord.Proofs.Normal
import SymbolRecord.Proofs.Ending
import SymbolRecord.Proofs.Verdict
import SymbolRecord.Proofs.Limits
import SymbolRecord.Proofs.Outcome
import SymbolRecord.Proofs.Judgment
import SymbolRecord.Proofs.Transport
import SymbolRecord.Proofs.Clean
import SymbolRecord.Proofs.Dispatch
import SymbolRecord.Proofs.Registration
import SymbolRecord.Proofs.Session
import SymbolRecord.Proofs.Visible
import SymbolRecord.Proofs.Extension
import SymbolRecord.Proofs.Parts
import SymbolRecord.Proofs.Account
import SymbolRecord.Proofs.Placement
import SymbolRecord.Proofs.Tally
import SymbolRecord.Proofs.Strictness
import SymbolRecord.Proofs.Configuration
import SymbolRecord.Proofs.Concatenation
import SymbolRecord.Proofs.FileTree
import SymbolRecord.Proofs.Delivery
import SymbolRecord.Proofs.Form
import SymbolRecord.Proofs.Fitting
import SymbolRecord.Proofs.Canonical
import SymbolRecord.Proofs.Shape
import SymbolRecord.Proofs.Kind
import SymbolRecord.Proofs.Uri
import SymbolRecord.Proofs.Percent
import SymbolRecord.Proofs.Location
import SymbolRecord.Proofs.Version
import SymbolRecord.Proofs.Slice
import SymbolRecord.Proofs.LineEnd
import SymbolRecord.Proofs.History

import CompactWire.CommandLine
import CompactWire.Grammar
import CompactWire.Input.Counted
import CompactWire.Input.Short
import CompactWire.Inspect
import CompactWire.Main
import CompactWire.Pool.Handle
import CompactWire.Pool.Metrics
import CompactWire.Proofs.Accounting
import CompactWire.Proofs.Amplification
import CompactWire.Proofs.BestFit
import CompactWire.Proofs.ContainerLimit
import CompactWire.Proofs.ContextFree
import CompactWire.Proofs.Contiguous
import CompactWire.Proofs.DeferredBooleans
import CompactWire.Proofs.DepthLimit
import CompactWire.Proofs.Dumps
import CompactWire.Proofs.FooterLength
import CompactWire.Proofs.Forgery
import CompactWire.Proofs.HandBack
import CompactWire.Proofs.InOrder
import CompactWire.Proofs.LooserLimits
import CompactWire.Proofs.MessageStreams
import CompactWire.Proofs.Minimal
import CompactWire.Proofs.Ranges
import CompactWire.Proofs.Refusals
import CompactWire.Proofs.Rejections
import CompactWire.Proofs.Requests
import CompactWire.Proofs.RoundTrip
import CompactWire.Proofs.SelfDelimiting
import CompactWire.Proofs.Shortfall
import CompactWire.Proofs.Skipping
import CompactWire.Proofs.StructStack
import CompactWire.Proofs.Unlimited
import CompactWire.Proofs.VarintReading
import CompactWire.Proofs.ZeroCopy
import CompactWire.Record
import CompactWire.Render
import CompactWire.Source.Any
import CompactWire.Value.Height
import CompactWire.Value.Normal
import CompactWire.Value.Parts
import CompactWire.Writer.Call

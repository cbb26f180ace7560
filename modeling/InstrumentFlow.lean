import InstrumentFlow.Asset.Builder
import InstrumentFlow.Asset.File
import InstrumentFlow.Asset.Listing
import InstrumentFlow.Bytecode.Assembler
import InstrumentFlow.CommandLine.Report
import InstrumentFlow.Engine.Perform
import InstrumentFlow.Main
import InstrumentFlow.Proofs.Answers
import InstrumentFlow.Proofs.Breakpoints
import InstrumentFlow.Proofs.Builders
import InstrumentFlow.Proofs.Builders.Soundness
import InstrumentFlow.Proofs.Catching
import InstrumentFlow.Proofs.Clearance
import InstrumentFlow.Proofs.Containment
import InstrumentFlow.Proofs.Counting
import InstrumentFlow.Proofs.Delays
import InstrumentFlow.Proofs.Delivery
import InstrumentFlow.Proofs.Dialogue
import InstrumentFlow.Proofs.Draining
import InstrumentFlow.Proofs.Expression.Application
import InstrumentFlow.Proofs.Expression.Integers
import InstrumentFlow.Proofs.Expression.Readers
import InstrumentFlow.Proofs.Expression.Search
import InstrumentFlow.Proofs.Forest.Handles
import InstrumentFlow.Proofs.Integrity
import InstrumentFlow.Proofs.Isolation
import InstrumentFlow.Proofs.Json
import InstrumentFlow.Proofs.Kinds
import InstrumentFlow.Proofs.Lifetime
import InstrumentFlow.Proofs.Mirror
import InstrumentFlow.Proofs.Notices
import InstrumentFlow.Proofs.Packed
import InstrumentFlow.Proofs.Programs
import InstrumentFlow.Proofs.Programs.Listing
import InstrumentFlow.Proofs.Pulses
import InstrumentFlow.Proofs.Reach
import InstrumentFlow.Proofs.Readiness
import InstrumentFlow.Proofs.References
import InstrumentFlow.Proofs.Returns
import InstrumentFlow.Proofs.Routing
import InstrumentFlow.Proofs.Serving
import InstrumentFlow.Proofs.Serving.Account
import InstrumentFlow.Proofs.Serving.Rows
import InstrumentFlow.Proofs.Slicing
import InstrumentFlow.Proofs.Starts
import InstrumentFlow.Proofs.Stopping
import InstrumentFlow.Proofs.Suspension
import InstrumentFlow.Proofs.Text.Search
import InstrumentFlow.Proofs.Transactions
import InstrumentFlow.Proofs.Transactions.Aside
import InstrumentFlow.Proofs.Transactions.Exchange
import InstrumentFlow.Proofs.Transactions.Mute
import InstrumentFlow.Proofs.Transactions.Orders
import InstrumentFlow.Proofs.Transactions.Rest
import InstrumentFlow.Proofs.Transactions.Speech
import InstrumentFlow.Proofs.Transactions.Trade
import InstrumentFlow.Proofs.Validity
import InstrumentFlow.Proofs.Value.Equality
import InstrumentFlow.Proofs.Waiting
import InstrumentFlow.Proofs.Wiring
import InstrumentFlow.Scpi.Worker

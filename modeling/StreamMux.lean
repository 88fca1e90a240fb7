import StreamMux.Wire.Decoder
import StreamMux.Link
import StreamMux.Settings
import StreamMux.Ids
import StreamMux.Registry
import StreamMux.Buffer.Lending
import StreamMux.Buffer.Intake
import StreamMux.Estimate.Gauge
import StreamMux.Estimate.Throughput
import StreamMux.Estimate.Latency
import StreamMux.Time.Stamp
import StreamMux.Time.Timer
import StreamMux.Waiting.Lock
import StreamMux.Waiting.Desk
import StreamMux.Flow.Queue
import StreamMux.Flow.Receive
import StreamMux.Flow.Send
import StreamMux.Flow.Stock
import StreamMux.Schedule.Solo
import StreamMux.Peer
import StreamMux.Schedule.Duo
import StreamMux.Summary
import StreamMux.Proofs.History
import StreamMux.Proofs.View
import StreamMux.Proofs.Step
import StreamMux.Proofs.Turns
import StreamMux.Proofs.Loops
import StreamMux.Proofs.Moves
import StreamMux.Proofs.Filing
import StreamMux.Proofs.Agreement
import StreamMux.Proofs.Codec
import StreamMux.Proofs.Ends
import StreamMux.Proofs.Channel
import StreamMux.Proofs.Traffic
import StreamMux.Proofs.Story
import StreamMux.Proofs.Windows
import StreamMux.Proofs.Hearing
import StreamMux.Proofs.Sound
import StreamMux.Proofs.Joint
import StreamMux.Proofs.Sole
import StreamMux.Proofs.Pending
import StreamMux.Proofs.Integrity
import StreamMux.Proofs.Conservation
import StreamMux.Proofs.Seats
import StreamMux.Proofs.Lossless
import StreamMux.Proofs.Tended
import StreamMux.Proofs.Tending
import StreamMux.Proofs.Closing
import StreamMux.Proofs.Ending
import StreamMux.Proofs.Thrift
import StreamMux.Proofs.EndOfStream
import StreamMux.Proofs.Counterparts
import StreamMux.Proofs.Crosstalk
import StreamMux.Proofs.Confirming
import StreamMux.Proofs.Room
import StreamMux.Proofs.Reuse
import StreamMux.Proofs.Records
import StreamMux.Proofs.Footprints
import StreamMux.Proofs.Pulse
import StreamMux.Proofs.Output
import StreamMux.Proofs.Inbound
import StreamMux.Proofs.Halting
import StreamMux.Proofs.Limits
import StreamMux.Proofs.Routing
import StreamMux.Proofs.Silence
import StreamMux.Proofs.Strands
import StreamMux.Proofs.Mirrors
import StreamMux.Proofs.Drawing
import StreamMux.Proofs.Requests
import StreamMux.Proofs.Opening
import StreamMux.Proofs.Supply
import StreamMux.Proofs.Pieces
import StreamMux.Proofs.Grammar
import StreamMux.Proofs.Echoes
import StreamMux.Proofs.Holding
import StreamMux.Proofs.Reception
import StreamMux.Proofs.WriteSides
import StreamMux.Proofs.WriteTurns
import StreamMux.Proofs.Segmentation
import StreamMux.Proofs.Wakeups
import StreamMux.Proofs.Handover
import StreamMux.Proofs.Spending
import StreamMux.Proofs.Leftovers
import StreamMux.Proofs.Numbering
import StreamMux.Proofs.Loans
import StreamMux.Proofs.Magnitude
import StreamMux.Proofs.Recent
import StreamMux.Proofs.Rounding
import StreamMux.Proofs.Metering

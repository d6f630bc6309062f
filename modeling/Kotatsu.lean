import Kotatsu.Lib.HashMap
import Kotatsu.Lib.Machine
import Kotatsu.CoreSteps
import Kotatsu.Custody
import Kotatsu.Layout
import Kotatsu.Seating
import Kotatsu.Registry
import Kotatsu.Join
import Kotatsu.Sessions
import Kotatsu.Lib.History
import Kotatsu.Tickets
import Kotatsu.ParamHistory
import Kotatsu.Placement
import Kotatsu.Casts
import Kotatsu.Lib.Broadcast
import Kotatsu.Convergence
import Kotatsu.MatchStart
import Kotatsu.MatchOnce
import Kotatsu.Lib.Moments
import Kotatsu.Provenance
import Kotatsu.Capacity
import Kotatsu.Authority
import Kotatsu.FirstPacket
import Kotatsu.Rollback
import Kotatsu.Duplicates
import Kotatsu.Clock
import Kotatsu.Cleanup
import Kotatsu.Deliveries
import Kotatsu.Lib.Parts
import Kotatsu.Shortened
import Kotatsu.Mirror
import Kotatsu.Elsewhere
import Kotatsu.Isolation
import Kotatsu.Lib.Listing
import Kotatsu.Listings
import Kotatsu.StartLayout
import Kotatsu.Relays
import Kotatsu.Lib.Floats
import Kotatsu.Lib.Json
import Kotatsu.Wire
import Kotatsu.PosRelay
import Kotatsu.Recipients
import Kotatsu.Lengths
import Kotatsu.PacketSize
import Kotatsu.Lib.Rest
import Kotatsu.Passes
import Kotatsu.Lib.Owners
import Kotatsu.Receivers
import Kotatsu.Progress
import Kotatsu.Lib.Journal
import Kotatsu.Lib.Tables
import Kotatsu.Ledger
import Kotatsu.Refinement
import Kotatsu.Messages
import Kotatsu.Removal
import Kotatsu.Gateway
import Kotatsu.ClientWire
import Kotatsu.TestClient
import Kotatsu.ClientNetwork
import Kotatsu.ClientRuns
import Kotatsu.Arrivals
import Kotatsu.Verdict
import Kotatsu.RemoteRtt

import SnapcastClient.Library.LittleEndian
import SnapcastClient.Library.Flac
import SnapcastClient.Library.Dns
import SnapcastClient.Library.Transition
import SnapcastClient.Library.Settling
import SnapcastClient.Library.Transcript
import SnapcastClient.Library.Streak
import SnapcastClient.Library.OrderStatistic
import SnapcastClient.Library.Channel
import SnapcastClient.Library.Loop
import SnapcastClient.Library.Mealy
import SnapcastClient.Library.Blocks
import SnapcastClient.Library.Cursor
import SnapcastClient.Model.Outcome
import SnapcastClient.Model.TimeVal
import SnapcastClient.Model.Proto
import SnapcastClient.Model.Framing
import SnapcastClient.Model.ClientMachine
import SnapcastClient.Model.ServerSession
import SnapcastClient.Model.Exchange
import SnapcastClient.Model.ConnectedClient
import SnapcastClient.Model.Registry
import SnapcastClient.Model.Net
import SnapcastClient.Model.ClientRun
import SnapcastClient.Model.ClientStream
import SnapcastClient.Model.Playing
import SnapcastClient.Model.Mdns
import SnapcastClient.Model.Pipeline
import SnapcastClient.Model.Decoder
import SnapcastClient.Verification.TimeVal
import SnapcastClient.Verification.Canonical
import SnapcastClient.Verification.Codec
import SnapcastClient.Model.SerdeJson
import SnapcastClient.Verification.SerdeJson
import SnapcastClient.Verification.FirstSettings
import SnapcastClient.Verification.Flac
import SnapcastClient.Verification.Framing
import SnapcastClient.Verification.ClientMachine
import SnapcastClient.Verification.Stream
import SnapcastClient.Verification.Decode
import SnapcastClient.Verification.Session
import SnapcastClient.Verification.Reading
import SnapcastClient.Verification.Header
import SnapcastClient.Verification.Exchange
import SnapcastClient.Verification.ClockRecovery
import SnapcastClient.Verification.Playout
import SnapcastClient.Verification.Ticks
import SnapcastClient.Verification.ClientRun
import SnapcastClient.Verification.Overflow
import SnapcastClient.Verification.Expiry
import SnapcastClient.Verification.Median
import SnapcastClient.Verification.Rejected
import SnapcastClient.Verification.Cadence
import SnapcastClient.Verification.Settings
import SnapcastClient.Verification.Readings
import SnapcastClient.Verification.Registry
import SnapcastClient.Verification.Net
import SnapcastClient.Verification.Entries
import SnapcastClient.Verification.Greeting
import SnapcastClient.Verification.Ledger
import SnapcastClient.Verification.Cutoff
import SnapcastClient.Verification.Traffic
import SnapcastClient.Verification.Delivery
import SnapcastClient.Verification.Progress
import SnapcastClient.Model.Conversation
import SnapcastClient.Verification.Conversation
import SnapcastClient.Verification.Refinement
import SnapcastClient.Verification.Talking
import SnapcastClient.Verification.Answering
import SnapcastClient.Verification.Volume
import SnapcastClient.Verification.Mdns
import SnapcastClient.Verification.Discovery
import SnapcastClient.Verification.Pipeline
import SnapcastClient.Verification.Pacing
import SnapcastClient.Verification.Flow
import SnapcastClient.Verification.Flush
import SnapcastClient.Verification.Restart
import SnapcastClient.Verification.Decoder
import SnapcastClient.Model.Players
import SnapcastClient.Model.App
import SnapcastClient.Verification.App
import SnapcastClient.Verification.Output
import SnapcastClient.Verification.Playback
import SnapcastClient.Model.Sink
import SnapcastClient.Model.Server
import SnapcastClient.Verification.Sink
import SnapcastClient.Verification.Server
import SnapcastClient.Verification.VolumeChanges
import SnapcastClient.Model.Rooms
import SnapcastClient.Verification.Rooms

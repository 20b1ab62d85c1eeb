import Asli.Logic.Bytes
import Asli.Logic.Window
import Asli.Core.Replay
import Asli.Core.ReplaySafety
import Asli.Crypto.Chunk
import Asli.Net.Session
import Asli.Net.SessionSteps
import Asli.Net.ImageStream
import Asli.Net.ImageTransfer
import Asli.Net.ImageOrder
import Asli.Logic.Double
import Asli.Relay.Limits
import Asli.Relay.Rooms
import Asli.Relay.Validate
import Asli.Relay.Auth
import Asli.Relay.Server
import Asli.Relay.ServerSteps
import Asli.Relay.Handshake
import Asli.Net.Rekeying
import Asli.Crypto.File
import Asli.Crypto.Domains
import Asli.App.Devices
import Asli.App.FileName
import Asli.App.Pins
import Asli.App.Transfer
import Asli.App.Consent
import Asli.App.Direct
import Asli.App.Progress
import Asli.App.SameNetwork
import Asli.App.ClipboardIo
import Asli.App.DirectStream
import Asli.App.MarkedContent
import Asli.App.OfferedOnce
import Asli.App.OwnWrites
import Asli.App.TakeOver
import Asli.App.WriterLoop
import Asli.Clipboard.X11Owner
import Asli.Logic.Utf8
import Asli.Relay.AuthAgreement
import Asli.Relay.Receivers
import Asli.App.PeerAccepts
import Asli.App.Reservation
import Asli.Relay.Config
import Asli.Relay.Acts
import Asli.Relay.ChunkRuns
import Asli.Relay.ClipOrder
import Asli.Relay.Presence
import Asli.Relay.Stored
import Asli.History.Append
import Asli.Relay.Buckets
import Asli.Relay.Quota
import Asli.Relay.RetryHint
import Asli.App.Bulk
import Asli.App.Online
import Asli.Net.CopyConfirm
import Asli.Net.Probes
import Asli.Relay.FrameFit
import Asli.App.KeptFiles
import Asli.App.SafeName
import Asli.Core.EchoAnswers
import Asli.Core.ReplayOrder
import Asli.History.Atomic
import Asli.History.Caps
import Asli.History.Damage
import Asli.Net.Backoff
import Asli.App.MoveToNewKey
import Asli.Crypto.Canonical
import Asli.Crypto.JoinCodes
import Asli.Net.Transport
import Asli.Relay.Address
import Asli.Relay.Admission
import Asli.Relay.Cidr
import Asli.Relay.Crockford
import Asli.History.Preview
import Asli.Clipboard.WaylandOwner
import Asli.Net.Coalesce
import Asli.Clipboard.WindowsOwner
import Asli.Clipboard.X11Watch
import Asli.App.ScheduledClear
import Asli.Clipboard.X11Whole
import Asli.Crypto.JoinBodies
import Asli.App.Meeting
import Asli.App.PassageRuns
import Asli.Net.Account
import Asli.App.Inbound

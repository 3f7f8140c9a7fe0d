import DialF.Audio.Aligned
import DialF.Audio.Alike
import DialF.Audio.Capture
import DialF.Audio.Chunks
import DialF.Audio.Detector
import DialF.Audio.Hearing
import DialF.Audio.OwnAudio
import DialF.Audio.Rates
import DialF.Audio.Record
import DialF.Audio.Resample
import DialF.Audio.SoxChoice
import DialF.Audio.SpeechStart
import DialF.Audio.Turn
import DialF.Bundle.Archived
import DialF.Bundle.BlockYaml
import DialF.Bundle.Carried
import DialF.Bundle.Clear
import DialF.Bundle.ConfigText
import DialF.Bundle.Export
import DialF.Bundle.Exported
import DialF.Bundle.Extract
import DialF.Bundle.Import
import DialF.Bundle.Imported
import DialF.Bundle.Installed
import DialF.Bundle.Pulled
import DialF.Bundle.Relative
import DialF.Bundle.RoundTrip
import DialF.Bundle.Unpack
import DialF.Bundle.Walk
import DialF.Daemon.AdbLink
import DialF.Daemon.Apart
import DialF.Daemon.CallMarkers
import DialF.Daemon.CallSummary
import DialF.Daemon.Card
import DialF.Daemon.Commands
import DialF.Daemon.Inbound
import DialF.Daemon.JobFlags
import DialF.Daemon.MarkerStore
import DialF.Daemon.Marking
import DialF.Daemon.Orphans
import DialF.Daemon.OverrideSet
import DialF.Daemon.OwnCall
import DialF.Daemon.Pacing
import DialF.Daemon.PhoneJob
import DialF.Daemon.PhoneServer
import DialF.Daemon.Presence
import DialF.Daemon.Protocol
import DialF.Daemon.Reconnect
import DialF.Daemon.Registry
import DialF.Daemon.Results
import DialF.Daemon.Serve
import DialF.Daemon.SessionName
import DialF.Daemon.SmsList
import DialF.Daemon.Stranded
import DialF.Daemon.Superseded
import DialF.Daemon.WaitAnswer
import DialF.Jobs.Accounting
import DialF.Jobs.Cancelled
import DialF.Jobs.Runner
import DialF.Lib.Best
import DialF.Lib.Binary
import DialF.Lib.Explore
import DialF.Lib.FilePlacing
import DialF.Lib.FileTree
import DialF.Lib.FirstMatch
import DialF.Lib.Frame
import DialF.Lib.FreeName
import DialF.Lib.Json
import DialF.Lib.LastWrite
import DialF.Lib.Lines
import DialF.Lib.Machine
import DialF.Lib.Notify
import DialF.Lib.Number
import DialF.Lib.Paths
import DialF.Lib.Replies
import DialF.Lib.Spaced
import DialF.Lib.Stream
import DialF.Lib.Substring
import DialF.Lib.Subtree
import DialF.Lib.Table
import DialF.Lib.Text
import DialF.Lib.Yaml
import DialF.Phone.CallCommands
import DialF.Phone.Candidates
import DialF.Phone.Dialf
import DialF.Phone.HelloFirst
import DialF.Phone.Link
import DialF.Phone.NeverIdle
import DialF.Phone.OwnAdvert
import DialF.Phone.ResolveQueue
import DialF.Phone.Resync
import DialF.Phone.Resynced
import DialF.Phone.Service
import DialF.Phone.Skipping
import DialF.Phone.Tracking
import DialF.Reach.Iptables
import DialF.Reach.Nft
import DialF.Reach.NftLines
import DialF.Reach.NftSound
import DialF.Service.UnitFile
import DialF.Share.Adb
import DialF.Share.Agreement
import DialF.Share.Authenticate
import DialF.Share.Client
import DialF.Share.DeviceList
import DialF.Share.Expiry
import DialF.Share.FailsClosed
import DialF.Share.ForwardPorts
import DialF.Share.Framed
import DialF.Share.Gate
import DialF.Share.Handshake
import DialF.Share.HostServer
import DialF.Share.Refused
import DialF.Share.Resolve
import DialF.Share.Scope
import DialF.Share.Server
import DialF.Share.Start
import DialF.Share.TokenGate
import DialF.Wire.Handle
import DialF.Wire.Protocol
import DialF.Wire.Understood

import HitEnter.Group.Escalation
import HitEnter.Group.Picker
import HitEnter.Group.Refused
import HitEnter.Group.Hierarchy
import HitEnter.Group.Integrity
import HitEnter.Group.ChannelDeletion
import HitEnter.Group.Compaction
import HitEnter.Group.Removals
import HitEnter.Group.Mutes
import HitEnter.Group.Newcomers
import HitEnter.Group.Readers
import HitEnter.Node.BindingSlots
import HitEnter.Node.InFlight
import HitEnter.Node.Gossip
import HitEnter.Node.Accepting
import HitEnter.Node.TagIndex
import HitEnter.Node.Relay
import HitEnter.Node.Offline
import HitEnter.Node.Slowmode
import HitEnter.Node.InboxMap
import HitEnter.Node.Refold
import HitEnter.Group.Seconds
import HitEnter.Group.Attach
import HitEnter.Zap.Fee
import HitEnter.App.Dates
import HitEnter.App.Withdrawals
import HitEnter.Calls.OneCall
import HitEnter.Calls.Size
import HitEnter.Calls.Replaced
import HitEnter.Calls.Answered
import HitEnter.Node.OwnOrder
import HitEnter.Node.Compact
import HitEnter.Node.Paging
import HitEnter.Node.Nip01
import HitEnter.Node.InboxCap
import HitEnter.Node.Files
import HitEnter.Node.Rooms
import HitEnter.Wire.Imeta
import HitEnter.App.Browse
import HitEnter.App.KeepInbox
import HitEnter.Node.ZapTotals
import HitEnter.Wire.Stream
import HitEnter.Wire.Contact
import HitEnter.Wire.Indexed
import HitEnter.Zap.Quote
import HitEnter.Calls.JitterOrder
import HitEnter.Calls.JitterResumes
import HitEnter.App.Announcing
import HitEnter.Group.Leftover
import HitEnter.Node.Converge
import HitEnter.Group.PermNames
import HitEnter.Node.SessionSpec
import HitEnter.Node.SessionBlind
import HitEnter.Node.SyncSpec
import HitEnter.Anchor.BridgeSpec
import HitEnter.Node.Joining
import HitEnter.App.OnboardingSpec

import MoqGo.Uri.Parse
import MoqGo.Message.RangeFilterCodec
import MoqGo.Message.Marshal
import MoqGo.Message.Datagram
import MoqGo.Session.SubgroupStream
import MoqGo.Session.Publication
import MoqGo.Session.Updates
import MoqGo.Session.Goaway
import MoqGo.Relay.NewGroup
import MoqGo.Relay.Ledger.Purge
import MoqGo.Relay.Ledger.Order
import MoqGo.Relay.Fanout.Outcome
import MoqGo.Relay.Fanout.Withheld
import MoqGo.Relay.Fanout.First
import MoqGo.Relay.Fanout.InboxPool
import MoqGo.Relay.Fill
import MoqGo.Relay.TracksFilter
import MoqGo.Relay.TracksUpdate
import MoqGo.Relay.StreamCount
import MoqGo.Relay.Candidates
import MoqGo.Relay.Affinity
import MoqGo.Relay.UpstreamPool
import MoqGo.Relay.Registry.Effect
import MoqGo.Relay.DatagramWriter
import MoqGo.Relay.Fanout.Subscribe
import MoqGo.Relay.Registry.QueueWriter
import MoqGo.Relay.Registry.Peer
import MoqGo.Relay.Registry.FetchRouter
import MoqGo.Relay.Registry.FlightWaits
import MoqGo.Relay.NamespaceWatch
import MoqGo.Relay.ForwardSkip
import MoqGo.Relay.Fetch.Stitch
import MoqGo.Relay.Fetch.Stream
import MoqGo.Session.TrackAlias

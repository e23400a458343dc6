import ChatSystem.AddContract
import ChatSystem.Representation
import ChatSystem.UniqueNames
import ChatSystem.Descriptors
import ChatSystem.Authenticity
import ChatSystem.Framing
import ChatSystem.Welcome
import ChatSystem.Fanout
import ChatSystem.Departure
import ChatSystem.Sections
import ChatSystem.Broadcast
import ChatSystem.Ghosts
import ChatSystem.Farewell
import ChatSystem.Delivery
import ChatSystem.Classification
import ChatSystem.ListParsers
import ChatSystem.Streams
import ChatSystem.Encoders
import ChatSystem.Packets
import ChatSystem.Inactivity
import ChatSystem.StatusView
import ChatSystem.ListCut
import ChatSystem.CodecCut
import ChatSystem.DirectLoss
import ChatSystem.Dispatch
import ChatSystem.Targets
import ChatSystem.Usable
import ChatSystem.Overreads
import ChatSystem.Queries
import ChatSystem.Privacy
import ChatSystem.Sessions
import ChatSystem.BuildBounds
import ChatSystem.StatusCommand
import ChatSystem.InputLoop
import ChatSystem.Handshake
import ChatSystem.InfoReplies
import ChatSystem.Echoes
import ChatSystem.Progress
import ChatSystem.Leaks
import ChatSystem.Capacity
import ChatSystem.RoomView
import ChatSystem.Deployment
import ChatSystem.Bridge
import ChatSystem.Installation

import EchoIocp.Spsc
import EchoIocp.Session
import EchoIocp.Callbacks
import EchoIocp.Listening
import EchoIocp.Counter
import EchoIocp.Dispatch
import EchoIocp.Frame
import EchoIocp.Slots
import EchoIocp.EchoSystem
import EchoIocp.Tokens
import EchoIocp.Invariant
import EchoIocp.Alive
import EchoIocp.Stream
import EchoIocp.Accepting
import EchoIocp.SendPipeline
import EchoIocp.Fifo
import EchoIocp.Framing
import EchoIocp.Sending
import EchoIocp.Sizing
import EchoIocp.Lib.Blocks
import EchoIocp.PacketStore
import EchoIocp.PacketQueue
import EchoIocp.MessageProcess
import EchoIocp.SendRace
import EchoIocp.Hushed
import EchoIocp.Routing
import EchoIocp.FlatBuffers.VectorDownward
import EchoIocp.FlatBuffers.TwoVectors
import EchoIocp.Lib.Returns
import EchoIocp.FlatBuffers.FlatBufferBuilder
import EchoIocp.FlatBuffers.Draft
import EchoIocp.FlatBuffers.EndTable
import EchoIocp.FlatBuffers.Objects
import EchoIocp.FlatBuffers.ObjectGraph
import EchoIocp.FlatBuffers.Serialize
import EchoIocp.FlatBuffers.Verifier
import EchoIocp.FlatBuffers.WellFormed
import EchoIocp.FlatBuffers.MessageWrapper
import EchoIocp.FlatBuffers.Accepted
import EchoIocp.FlatBuffers.Reading
import EchoIocp.FlatBuffers.RoundTrip
import EchoIocp.Delivery
import EchoIocp.Sessions
import EchoIocp.Outbox
import EchoIocp.Returning
import EchoIocp.Waiting

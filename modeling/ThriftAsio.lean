import ThriftAsio.Status
import ThriftAsio.ReadLoop
import ThriftAsio.Callbacks
import ThriftAsio.Superseded
import ThriftAsio.FramesAlone
import ThriftAsio.CurrentClient
import ThriftAsio.Accepting
import ThriftAsio.Quiescence
import ThriftAsio.SharedHistory
import ThriftAsio.UserInput
import ThriftAsio.Recovery
import ThriftAsio.Cycle

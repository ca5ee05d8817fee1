import Shadow6.NetworkAdapter.Nonce
import Shadow6.NetworkAdapter.Loss
import Shadow6.NetworkAdapter.Equivalence
import Shadow6.Credited.ReceiveWindow
import Shadow6.CorePony.Flow
import Shadow6.CoreZig.FlowControl
import Shadow6.PrivacyEnvelope.Forward
import Shadow6.PrivacyEnvelope.StreamFidelity
import Shadow6.CoreGo.AeadPair
import Shadow6.CorePony.Hello
import Shadow6.CorePony.Nonce
import Shadow6.Crosed.Ada
import Shadow6.Crosed.Idris
import Shadow6.Gate.SecureConn
import Shadow6.Gate.Udp
import Shadow6.PrivacyEnvelope.Watermarks
import Shadow6.Crosed.ReplayDirectory
import Shadow6.Public6.VirtualBroker
import Shadow6.NodeIpc.AtMostOnce
import Shadow6.CoreZig.Signed
import Shadow6.CoreAda.Relay
import Shadow6.Public6.JoinCode
import Shadow6.CoreGleam.Replay
import Shadow6.Deployment.ConfigView
import Shadow6.CoreD.Broker
import Shadow6.CoreGo.Access
import Shadow6.NetworkAdapter.Credit
import Shadow6.C11Relay.Receive
import Shadow6.Public6.Charge
import Shadow6.Public6.Negotiation
import Shadow6.CoreGo.IdleTimer
import Shadow6.CoreHare.Receive
import Shadow6.Credited.Boundary

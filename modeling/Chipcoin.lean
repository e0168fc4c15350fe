import Chipcoin.RegistryAgreement
import Chipcoin.Renewal
import Chipcoin.Activity
import Chipcoin.Commitment
import Chipcoin.Node.Download
import Chipcoin.Poisoning
import Chipcoin.ActiveWork
import Chipcoin.Signatures
import Chipcoin.Activation
import Chipcoin.Handshake
import Chipcoin.MalformedFrames
import Chipcoin.Misbehaviour
import Chipcoin.Reconciliation
import Chipcoin.Interchange
import Chipcoin.MessageRoundTrip
import Chipcoin.HeaderAgreement
import Chipcoin.SupplyReport
import Chipcoin.Consensus.Retarget
import Chipcoin.Influence
import Chipcoin.WalletParity
import Chipcoin.Availability
import Chipcoin.Payments
import Chipcoin.Fees
import Chipcoin.OperatorPeers
import Chipcoin.ConcentrationCaps
import Chipcoin.TipOrder
import Chipcoin.Assignment

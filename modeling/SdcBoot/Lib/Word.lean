/-
# Words of two bytes

A word of sixteen bits and its two halves, as a processor with byte registers sees them.
-/
import Mathlib.Data.Nat.Bitwise

namespace SdcBoot.Lib.Word

/-- The word of two bytes. -/
def word (lo hi : UInt8) : UInt16 := UInt16.ofNat (lo.toNat + 256 * hi.toNat)

theorem word_toNat (lo hi : UInt8) : (word lo hi).toNat = lo.toNat + 256 * hi.toNat := by
  have h1 := lo.toNat_lt
  have h2 := hi.toNat_lt
  exact UInt16.toNat_ofNat_of_lt' (show _ < 65536 by omega)

/-- The two bytes of a word. -/
def loByte (w : UInt16) : UInt8 := UInt8.ofNat (w.toNat % 256)

def hiByte (w : UInt16) : UInt8 := UInt8.ofNat (w.toNat / 256)

theorem loByte_toNat (w : UInt16) : (loByte w).toNat = w.toNat % 256 :=
  UInt8.toNat_ofNat_of_lt' (show _ < 256 by omega)

theorem hiByte_toNat (w : UInt16) : (hiByte w).toNat = w.toNat / 256 :=
  UInt8.toNat_ofNat_of_lt' (show _ < 256 by have := w.toNat_lt; omega)

@[simp] theorem loByte_word (lo hi : UInt8) : loByte (word lo hi) = lo := by
  have := lo.toNat_lt
  apply UInt8.toNat_inj.mp
  rw [loByte_toNat, word_toNat]
  omega

@[simp] theorem hiByte_word (lo hi : UInt8) : hiByte (word lo hi) = hi := by
  have := lo.toNat_lt
  apply UInt8.toNat_inj.mp
  rw [hiByte_toNat, word_toNat]
  omega

@[simp] theorem word_bytes (w : UInt16) : word (loByte w) (hiByte w) = w := by
  apply UInt16.toNat_inj.mp
  rw [word_toNat, loByte_toNat, hiByte_toNat]
  omega

theorem shiftLeft_eight (w : UInt16) : w <<< 8 = word 0 (loByte w) := by
  apply UInt16.toNat_inj.mp
  rw [word_toNat, loByte_toNat, UInt16.toNat_shiftLeft, UInt8.toNat_zero]
  change w.toNat <<< 8 % 2 ^ 16 = _
  omega

end SdcBoot.Lib.Word

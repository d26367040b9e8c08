/-!
# Little-endian 16-bit words
-/

namespace LittleEndian

def word (lo hi : UInt8) : UInt16 := lo.toUInt16 + hi.toUInt16 * 256

def low (w : UInt16) : UInt8 := w.toUInt8

def high (w : UInt16) : UInt8 := (w / 256).toUInt8

theorem word_toNat (lo hi : UInt8) : (word lo hi).toNat = lo.toNat + hi.toNat * 256 := by
  have hlo := lo.toNat_lt
  have hhi := hi.toNat_lt
  have h256 : (256 : UInt16).toNat = 256 := rfl
  simp only [word, UInt16.toNat_add, UInt16.toNat_mul, UInt8.toNat_toUInt16, h256]
  omega

theorem low_toNat (w : UInt16) : (low w).toNat = w.toNat % 256 := UInt16.toNat_toUInt8 w

theorem high_toNat (w : UInt16) : (high w).toNat = w.toNat / 256 := by
  have hw := w.toNat_lt
  have h256 : (256 : UInt16).toNat = 256 := rfl
  rw [high, UInt16.toNat_toUInt8, UInt16.toNat_div, h256]
  omega

@[simp] theorem word_low_high (w : UInt16) : word (low w) (high w) = w := by
  have hw := w.toNat_lt
  apply UInt16.toNat_inj.mp
  rw [word_toNat, low_toNat, high_toNat]
  omega

theorem word_eq_zero_iff (lo hi : UInt8) : word lo hi = 0 ↔ lo = 0 ∧ hi = 0 := by
  have h8 : (0 : UInt8).toNat = 0 := rfl
  have h16 : (0 : UInt16).toNat = 0 := rfl
  rw [← UInt16.toNat_inj, word_toNat, ← UInt8.toNat_inj, ← UInt8.toNat_inj, h8, h16]
  omega

end LittleEndian

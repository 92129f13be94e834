/-!
# 32-bit arithmetic

Sums and differences of unsigned 32-bit numbers, which wrap. They are those of the natural numbers
as long as they stay in range (`add32_of_lt`, `sub32_of_le`), and that is how a proof about code
that computes in 32 bits gets rid of them.
-/

namespace RtVcom.Lib

def add32 (a b : Nat) : Nat := (a + b) % 0x100000000

def sub32 (a b : Nat) : Nat := (a + 0x100000000 - b) % 0x100000000

theorem add32_of_lt {a b : Nat} (h : a + b < 0x100000000) : add32 a b = a + b :=
  Nat.mod_eq_of_lt h

theorem sub32_of_le {a b : Nat} (h : b ≤ a) (ha : a < 0x100000000) : sub32 a b = a - b := by
  unfold sub32
  omega

theorem add32_lt (a b : Nat) : add32 a b < 0x100000000 := Nat.mod_lt _ (by decide)

end RtVcom.Lib

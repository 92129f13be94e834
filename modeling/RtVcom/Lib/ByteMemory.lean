/-!
# Byte memory

A memory of bytes with numbers in it. `load` and `store` read and write a number of `k` bytes, the
least significant first; `fill` and `copy` are what `memset` and `memcpy` leave.

A number that was stored is loaded again (`load_store_same`), and every write leaves the bytes
outside of its range (`store_outside`, `fill_outside`, `copy_outside`), so that what is loaded from
there stays (`load_congr`). Whoever lays structures out in such a memory needs no more than that.
A structure may also be given as its cells (`Cell`): numbers at addresses, each of which the memory
holds or not, and which a write to another one leaves (`Holds.put_apart`).
-/

namespace RtVcom.Lib

/-- The content of every address. -/
abbrev ByteMemory := Nat → BitVec 8

namespace ByteMemory

/-- The number of `k` bytes at `a`. -/
def load (m : ByteMemory) (a : Nat) : Nat → Nat
  | 0 => 0
  | k + 1 => (m a).toNat + 0x100 * load m (a + 1) k

/-- The last `k` bytes of `v`, written to `a`. -/
def store (m : ByteMemory) (a v : Nat) : Nat → ByteMemory
  | 0 => m
  | k + 1 => store (fun x => if x = a then BitVec.ofNat 8 v else m x) (a + 1) (v / 0x100) k

/-- The number of values of `k` bytes. -/
def limit : Nat → Nat
  | 0 => 1
  | k + 1 => 0x100 * limit k

/-- `memset`. -/
def fill (m : ByteMemory) (a k : Nat) (v : BitVec 8) : ByteMemory :=
  fun x => if a ≤ x ∧ x < a + k then v else m x

/-- `memcpy`. -/
def copy (m : ByteMemory) (dest src k : Nat) : ByteMemory :=
  fun x => if dest ≤ x ∧ x < dest + k then m (src + (x - dest)) else m x

variable {m m' : ByteMemory} {a b v x : Nat}

/-- A load reads its own bytes only. -/
theorem load_congr {k : Nat} (h : ∀ x, a ≤ x → x < a + k → m' x = m x) :
    m'.load a k = m.load a k := by
  induction k generalizing a with
  | zero => rfl
  | succ k ih =>
    have hrest : m'.load (a + 1) k = m.load (a + 1) k := by
      apply ih
      intro x hle hlt
      exact h x (by omega) (by omega)
    rw [load, load, h a (by omega) (by omega), hrest]

/-- A store writes its own bytes only. -/
theorem store_outside {k : Nat} (h : x < a ∨ a + k ≤ x) : m.store a v k x = m x := by
  induction k generalizing m a v with
  | zero => rfl
  | succ k ih =>
    rw [store, ih (by omega), if_neg (by omega)]

/-- What was stored is loaded, as far as it fits. -/
theorem load_store_same (k : Nat) : (m.store a v k).load a k = v % limit k := by
  induction k generalizing m a v with
  | zero => exact (Nat.mod_one v).symm
  | succ k ih =>
    rw [load, store, store_outside (by omega), if_pos rfl, ih, BitVec.toNat_ofNat, limit,
      Nat.mod_mul]

theorem load_store_of_lt {k : Nat} (hv : v < limit k) : (m.store a v k).load a k = v := by
  rw [load_store_same, Nat.mod_eq_of_lt hv]

/-- A number elsewhere is loaded as before. -/
theorem load_store_other {j k : Nat} (h : b + j ≤ a ∨ a + k ≤ b) :
    (m.store a v k).load b j = m.load b j := by
  apply load_congr
  intro x hle hlt
  exact store_outside (by omega)

theorem fill_outside {k : Nat} {c : BitVec 8} (h : x < a ∨ a + k ≤ x) : m.fill a k c x = m x := by
  unfold fill
  rw [if_neg (by omega)]

theorem copy_outside {k : Nat} (h : x < a ∨ a + k ≤ x) : m.copy a b k x = m x := by
  unfold copy
  rw [if_neg (by omega)]

end ByteMemory

/-! ## Cells -/

/-- A number of `width` bytes at an address. -/
structure Cell where
  addr : Nat
  width : Nat
  val : Nat
deriving Repr, DecidableEq

namespace Cell

/-- Two cells do not overlap. -/
def Apart (c d : Cell) : Prop := c.addr + c.width ≤ d.addr ∨ d.addr + d.width ≤ c.addr

/-- The cell lies in the `k` bytes from `a` on. -/
def Inside (c : Cell) (a k : Nat) : Prop := a ≤ c.addr ∧ c.addr + c.width ≤ a + k

/-- Cells in regions that lie apart lie apart. -/
theorem Inside.apart {c d : Cell} {a b j k : Nat} (hc : c.Inside a j) (hd : d.Inside b k)
    (h : a + j ≤ b ∨ b + k ≤ a) : c.Apart d := by
  obtain ⟨hle, hend⟩ := hc
  obtain ⟨hle', hend'⟩ := hd
  unfold Apart
  omega

end Cell

namespace ByteMemory

variable {m : ByteMemory} {c d : Cell}

/-- The memory has the number where the cell says. -/
def Holds (m : ByteMemory) (c : Cell) : Prop := m.load c.addr c.width = c.val

/-- The number is written. -/
def put (m : ByteMemory) (c : Cell) : ByteMemory := m.store c.addr c.val c.width

theorem holds_put (h : c.val < limit c.width) : (m.put c).Holds c := load_store_of_lt h

theorem Holds.put_apart (h : m.Holds c) (hcd : c.Apart d) : (m.put d).Holds c :=
  (load_store_other hcd).trans h

end ByteMemory

end RtVcom.Lib

import Mathlib.Data.BitVec
import Mathlib.Logic.Function.Basic

/-!
# Byte memory whose addresses wrap

A memory of bytes over addresses of `w` bits, in which the address behind the last one is the first
one. `write` is a memory after `n` bytes were written to it from an address on; `fill` and `copy`
are what `memset` and `memcpy` are for.

A long write is two short ones (`write_write`, and `write_write_back` for the one that begins with
the rear part). For a copy this is so only if the part that is still to be copied is not
overwritten: `Forward` and `Backward` say of two regions that a copy may go through them upwards or
downwards, in pieces of any size (`copy_copy`, `copy_copy_back`).

`Written` says of a memory, byte by byte, what `write` computes (`written_iff`).
-/

namespace RtVcom.Lib

/-- The content of every address. -/
abbrev WrappedMemory (w : Nat) := BitVec w → BitVec 8

namespace WrappedMemory

variable {w : Nat}

/-- `n` bytes written from `d` on. -/
def write (m : WrappedMemory w) (d : BitVec w) (n : Nat) (f : Nat → BitVec 8) : WrappedMemory w :=
  fun x => if (x - d).toNat < n then f (x - d).toNat else m x

/-- `memset`. -/
def fill (m : WrappedMemory w) (d : BitVec w) (n : Nat) (v : BitVec 8) : WrappedMemory w :=
  m.write d n fun _ => v

/-- `memcpy`. -/
def copy (m : WrappedMemory w) (d s : BitVec w) (n : Nat) : WrappedMemory w :=
  m.write d n fun t => m (s + BitVec.ofNat w t)

/-- The word at an address, its least significant byte first. -/
def loadWord (m : WrappedMemory w) (a : BitVec w) : BitVec 32 :=
  m (a + 3) ++ m (a + 2) ++ m (a + 1) ++ m a

/-- A word written to an address. -/
def storeWord (m : WrappedMemory w) (a : BitVec w) (v : BitVec 32) : WrappedMemory w :=
  m.write a 4 fun t => v.extractLsb' (8 * t) 8

/-- The bytes from `d` on are those of `f`, and the others are as before. -/
structure Written (m m' : WrappedMemory w) (d : BitVec w) (n : Nat) (f : Nat → BitVec 8) :
    Prop where
  inside : ∀ i < n, m' (d + BitVec.ofNat w i) = f i
  outside : ∀ x, (∀ i < n, x ≠ d + BitVec.ofNat w i) → m' x = m x

/-- No address is in both regions. -/
def Apart (d s : BitVec w) (n : Nat) : Prop :=
  ∀ i < n, ∀ j < n, d + BitVec.ofNat w i ≠ s + BitVec.ofNat w j

/-- The region at `d` does not begin inside of the one at `s`, behind its first byte. -/
def Forward (d s : BitVec w) (n : Nat) : Prop := d = s ∨ n ≤ (d - s).toNat

/-- The region at `d` does not end inside of the one at `s`, before its last byte. -/
def Backward (d s : BitVec w) (n : Nat) : Prop := d = s ∨ (d - s).toNat + n ≤ 2 ^ w

variable {m : WrappedMemory w} {a d s x : BitVec w} {f g : Nat → BitVec 8} {i j n : Nat}

/-! ## Distances -/

/-- How far an address lies behind a start that moves on. -/
theorem toNat_sub_add (hi : i ≤ 2 ^ w) :
    (x - (d + BitVec.ofNat w i)).toNat =
      if i ≤ (x - d).toNat then (x - d).toNat - i else (x - d).toNat + 2 ^ w - i := by
  have hassoc : x - (d + BitVec.ofNat w i) = x - d - BitVec.ofNat w i :=
    sub_add_eq_sub_sub x d (BitVec.ofNat w i)
  have hlt := (x - d).isLt
  rw [hassoc, BitVec.toNat_sub, BitVec.toNat_ofNat]
  by_cases hfull : i = 2 ^ w
  · rw [hfull, Nat.mod_self, Nat.sub_zero, Nat.add_mod_left, Nat.mod_eq_of_lt hlt,
      if_neg (Nat.not_le.mpr hlt), Nat.add_sub_cancel]
  rw [Nat.mod_eq_of_lt (show i < 2 ^ w by omega)]
  split
  · next hle =>
    rw [show 2 ^ w - i + (x - d).toNat = (x - d).toNat - i + 2 ^ w by omega, Nat.add_mod_right,
      Nat.mod_eq_of_lt (by omega)]
  · next hlt' =>
    rw [Nat.mod_eq_of_lt (by omega)]
    omega

/-- The distance from a place in front of `d` is the way around. -/
theorem toNat_add_sub (h : i < (d - s).toNat) :
    (s + BitVec.ofNat w i - d).toNat = i + 2 ^ w - (d - s).toNat := by
  have hlt := (d - s).isLt
  have hway : s + BitVec.ofNat w i - d = BitVec.ofNat w i - (d - s) := by
    rw [sub_sub_eq_add_sub, add_comm s]
  rw [hway, BitVec.toNat_sub, BitVec.toNat_ofNat, Nat.mod_eq_of_lt (show i < 2 ^ w by omega),
    Nat.mod_eq_of_lt (by omega)]
  omega

theorem add_sub_self (d y : BitVec w) : d + y - d = y := by
  rw [BitVec.add_comm, BitVec.add_sub_cancel]

theorem eq_add_sub (x d : BitVec w) : x = d + BitVec.ofNat w (x - d).toNat := by
  rw [BitVec.ofNat_toNat, BitVec.setWidth_eq, BitVec.add_comm, BitVec.sub_add_cancel]

theorem add_ofNat (d : BitVec w) (i j : Nat) :
    d + BitVec.ofNat w i + BitVec.ofNat w j = d + BitVec.ofNat w (i + j) := by
  rw [BitVec.ofNat_add, BitVec.add_assoc]

/-! ## Writing in two parts -/

theorem write_inside (hi : i < n) (hn : n ≤ 2 ^ w) :
    m.write d n f (d + BitVec.ofNat w i) = f i := by
  have hoff : (d + BitVec.ofNat w i - d).toNat = i := by
    rw [add_sub_self, BitVec.toNat_ofNat, Nat.mod_eq_of_lt (by omega)]
  rw [write, hoff, if_pos hi]

theorem write_outside (h : n ≤ (x - d).toNat) : m.write d n f x = m x :=
  if_neg (Nat.not_lt.mpr h)

theorem write_zero : m.write d 0 f = m := by
  funext x
  exact write_outside (Nat.zero_le _)

/-- What is written is told by its elements. -/
theorem write_congr (h : ∀ t < n, f t = g t) : m.write d n f = m.write d n g := by
  funext x
  unfold write
  split
  · next hlt => exact h _ hlt
  · rfl

/-- A write, and then one behind it. -/
theorem write_write (hn : i + j ≤ 2 ^ w) (hg : ∀ t < j, g t = f (i + t)) :
    (m.write d i f).write (d + BitVec.ofNat w i) j g = m.write d (i + j) f := by
  funext x
  have hlt := (x - d).isLt
  simp only [write, toNat_sub_add (show i ≤ 2 ^ w by omega)]
  by_cases hbehind : i ≤ (x - d).toNat
  · rw [if_pos hbehind, if_neg (Nat.not_lt.mpr hbehind)]
    by_cases hinside : (x - d).toNat - i < j
    · rw [if_pos hinside, if_pos (by omega), hg _ hinside, Nat.add_sub_cancel' hbehind]
    · rw [if_neg hinside, if_neg (by omega)]
  · rw [if_neg hbehind, if_neg (by omega), if_pos (Nat.not_le.mp hbehind), if_pos (by omega)]

/-- A write, and then one in front of it. -/
theorem write_write_back (hn : i + j ≤ 2 ^ w) (hg : ∀ t < j, g t = f (i + t)) :
    (m.write (d + BitVec.ofNat w i) j g).write d i f = m.write d (i + j) f := by
  rw [← write_write hn hg]
  funext x
  simp only [write, toNat_sub_add (show i ≤ 2 ^ w by omega)]
  by_cases hbehind : i ≤ (x - d).toNat
  · rw [if_neg (Nat.not_lt.mpr hbehind), if_neg (Nat.not_lt.mpr hbehind)]
  · have hlt := (x - d).isLt
    have hfront := Nat.not_le.mp hbehind
    rw [if_pos hfront, if_neg hbehind, if_neg (by omega), if_pos hfront]

/-- `Written` is about the bytes one by one, and `write` is the memory that they leave. -/
theorem written_iff {m' : WrappedMemory w} (hn : n ≤ 2 ^ w) :
    Written m m' d n f ↔ m' = m.write d n f := by
  constructor
  · intro h
    funext x
    by_cases hx : (x - d).toNat < n
    · have hinside := h.inside _ hx
      rw [← eq_add_sub] at hinside
      rw [hinside, write, if_pos hx]
    · rw [write_outside (Nat.not_lt.mp hx)]
      apply h.outside
      rintro i hi rfl
      apply hx
      rw [add_sub_self, BitVec.toNat_ofNat, Nat.mod_eq_of_lt (by omega)]
      exact hi
  · rintro rfl
    constructor
    · intro i hi
      exact write_inside hi hn
    · intro x hx
      apply write_outside
      by_contra hlt
      exact hx _ (Nat.not_le.mp hlt) (eq_add_sub x d)

/-! ## `fill` and `copy` -/

theorem fill_fill {v : BitVec 8} (hn : i + j ≤ 2 ^ w) :
    (m.fill d i v).fill (d + BitVec.ofNat w i) j v = m.fill d (i + j) v :=
  write_write hn fun _ _ => rfl

theorem copy_zero : m.copy d s 0 = m := write_zero

theorem fill_zero {v : BitVec 8} : m.fill d 0 v = m := write_zero

/-- Regions that have nothing in common may be copied either way. -/
theorem Apart.forward (h : Apart d s n) : Forward d s n := by
  by_contra hover
  unfold Forward at hover
  push Not at hover
  have hpos : 0 < n := by omega
  have heq : d + BitVec.ofNat w 0 = s + BitVec.ofNat w (d - s).toNat := by
    rw [← eq_add_sub]
    exact BitVec.add_zero d
  exact h 0 hpos _ hover.2 heq

/-- What is left of a copy upwards is one. -/
theorem Forward.rest (h : Forward d s n) (hj : j ≤ n) :
    Forward (d + BitVec.ofNat w i) (s + BitVec.ofNat w i) j := by
  rcases h with rfl | hbehind
  · exact .inl rfl
  · right
    rw [add_sub_add_right_eq_sub]
    omega

/-- What is left of a copy downwards is one. -/
theorem Backward.rest (h : Backward d s n) (hj : j ≤ n) : Backward d s j := by
  rcases h with rfl | hfront
  · exact .inl rfl
  · right
    omega

/-- A part of a copy, and then the rest behind it. -/
theorem copy_copy (hn : i + j ≤ 2 ^ w) (h : Forward d s (i + j)) :
    (m.copy d s i).copy (d + BitVec.ofNat w i) (s + BitVec.ofNat w i) j = m.copy d s (i + j) := by
  apply write_write hn
  intro t ht
  rw [add_ofNat]
  apply write_outside
  rcases h with rfl | hbehind
  · rw [add_sub_self, BitVec.toNat_ofNat, Nat.mod_eq_of_lt (by omega)]
    omega
  · rw [toNat_add_sub (by omega)]
    have hlt := (d - s).isLt
    omega

/-- The rear part of a copy, and then the rest in front of it. -/
theorem copy_copy_back (hn : i + j ≤ 2 ^ w) (h : Backward d s (i + j)) :
    (m.copy (d + BitVec.ofNat w i) (s + BitVec.ofNat w i) j).copy d s i = m.copy d s (i + j) := by
  have hdist : (d - s).toNat + (i + j) ≤ 2 ^ w := by
    rcases h with rfl | hfront
    · rw [BitVec.sub_self, BitVec.toNat_zero]
      omega
    · exact hfront
  have hsource : ∀ t < i, m.copy (d + BitVec.ofNat w i) (s + BitVec.ofNat w i) j
      (s + BitVec.ofNat w t) = m (s + BitVec.ofNat w t) := by
    intro t ht
    apply write_outside
    by_cases hnone : j = 0
    · omega
    have hoff : (d + BitVec.ofNat w i - s).toNat = (d - s).toNat + i := by
      rw [add_sub_right_comm, BitVec.toNat_add, BitVec.toNat_ofNat,
        Nat.mod_eq_of_lt (show i < 2 ^ w by omega), Nat.mod_eq_of_lt (by omega)]
    rw [toNat_add_sub (by omega), hoff]
    omega
  have hfront : (m.copy (d + BitVec.ofNat w i) (s + BitVec.ofNat w i) j).copy d s i =
      (m.copy (d + BitVec.ofNat w i) (s + BitVec.ofNat w i) j).write d i
        fun t => m (s + BitVec.ofNat w t) := write_congr hsource
  rw [hfront]
  apply write_write_back hn
  intro t _
  rw [add_ofNat]

/-! ## Bytes and words -/

theorem write_one : m.write d 1 f = Function.update m d (f 0) := by
  funext x
  by_cases hx : x = d
  · have hzero : (x - d).toNat = 0 := by rw [hx, BitVec.sub_self, BitVec.toNat_zero]
    rw [write, hzero, if_pos Nat.zero_lt_one, hx, Function.update_self]
  · have hpos : (x - d).toNat ≠ 0 := by
      intro hzero
      apply hx
      rw [eq_add_sub x d, hzero]
      exact BitVec.add_zero d
    rw [write, if_neg (by omega), Function.update_of_ne hx]

theorem fill_one {v : BitVec 8} : m.fill d 1 v = Function.update m d v := write_one

theorem copy_one : m.copy d s 1 = Function.update m d (m s) := by
  rw [copy, write_one]
  exact congrArg (fun y => Function.update m d (m y)) (BitVec.add_zero s)

theorem byte_append {u k : Nat} (hi : BitVec u) (lo : BitVec 8) :
    (hi ++ lo).extractLsb' (8 * (k + 1)) 8 = hi.extractLsb' (8 * k) 8 := by
  rw [BitVec.extractLsb'_append_eq_of_le (by omega), Nat.mul_add_one, Nat.add_sub_cancel]

/-- A word that is loaded at one place and stored at another one takes its four bytes along. -/
theorem storeWord_loadWord : m.storeWord d (m.loadWord s) = m.copy d s 4 := by
  apply write_congr
  intro t ht
  unfold loadWord
  obtain rfl | rfl | rfl | rfl : t = 0 ∨ t = 1 ∨ t = 2 ∨ t = 3 := by omega
  · rw [BitVec.extractLsb'_append_eq_right]
    exact congrArg m (BitVec.add_zero s).symm
  · rw [byte_append, BitVec.extractLsb'_append_eq_right]
    rfl
  · rw [byte_append, byte_append, BitVec.extractLsb'_append_eq_right]
    rfl
  · rw [byte_append, byte_append, BitVec.extractLsb'_append_eq_left]
    rfl

end WrappedMemory

end RtVcom.Lib

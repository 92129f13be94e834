import RtVcom.Lib.WrappedMemory

/-!
# The memory functions

`rt_memset`, `rt_memcpy` and `rt_memmove` of `src/kservice.c`, as they are compiled without
`RT_USING_TINY_SIZE`. The first two go through an aligned region in blocks of four words, then word
by word, then byte by byte, and through any other region byte by byte; the third one goes byte by
byte, downwards where the destination begins inside of the source.

An access to a word is an access through a `WordPtr`, which is aligned, so that no other access to
a word can be written down. The loops of words say of themselves only that what is left to be done
leaves the same memory as the whole (`fillBlocks_rest`, `copyBlocks_rest`), and so do the loops of
bytes, whatever the loop before them has left.

Addresses are those of the 32-bit machine, and a sum of an address and a length wraps, in
`rt_memmove` too. There the end of the source is compared with the destination, and a source that
reaches the end of the address space has its end in front of its begin: `RunsOver` is the case in
which this hides an overlap.
-/

namespace RtVcom.Kservice

open RtVcom.Lib RtVcom.Lib.WrappedMemory

/-- The memory of the machine. -/
abbrev Memory := WrappedMemory 32

/-- `LBLOCKSIZE`, `LITTLEBLOCKSIZE`: the size of a `long`. -/
def lblocksize : Nat := 4

/-- `BIGBLOCKSIZE`. -/
def bigblocksize : Nat := lblocksize * 4

/-- `UNALIGNED(X)`. -/
def unaligned (x : BitVec 32) : BitVec 32 := x &&& 3#32

/-- A word further, the alignment is the same. -/
theorem unaligned_add (x : BitVec 32) : unaligned (x + 4#32) = unaligned x := by
  have hmask (y : Nat) : y &&& 3 = y % 4 := Nat.and_two_pow_sub_one_eq_mod y 2
  apply BitVec.eq_of_toNat_eq
  rw [unaligned, unaligned, BitVec.toNat_and, BitVec.toNat_and, BitVec.toNat_ofNat,
    BitVec.toNat_add, BitVec.toNat_ofNat, hmask, hmask]
  omega

/-- A pointer to a `long`. -/
structure WordPtr where
  addr : BitVec 32
  aligned : unaligned addr = 0

/-- `p + 1`. -/
def WordPtr.next (p : WordPtr) : WordPtr where
  addr := p.addr + 4#32
  aligned := (unaligned_add p.addr).trans p.aligned

/-! ## `rt_memset` -/

/-- `m` and `aligned_addr`. -/
structure Filling where
  mem : Memory
  alignedAddr : WordPtr

/-- `*aligned_addr++ = buffer`. -/
def Filling.word (k : Filling) (buffer : BitVec 32) : Filling where
  mem := k.mem.storeWord k.alignedAddr.addr buffer
  alignedAddr := k.alignedAddr.next

/-- `while (count >= LBLOCKSIZE * 4)`. -/
def fillBlocks (buffer : BitVec 32) (k : Filling) (count : Nat) : Filling × Nat :=
  if lblocksize * 4 ≤ count then
    let k := (((k.word buffer).word buffer).word buffer).word buffer
    fillBlocks buffer k (count - 4 * lblocksize)
  else (k, count)
termination_by count
decreasing_by
  unfold lblocksize at *
  omega

/-- `while (count >= LBLOCKSIZE)`. -/
def fillWords (buffer : BitVec 32) (k : Filling) (count : Nat) : Filling × Nat :=
  if lblocksize ≤ count then fillWords buffer (k.word buffer) (count - lblocksize) else (k, count)
termination_by count
decreasing_by
  unfold lblocksize at *
  omega

/-- `while (count--) *m++ = (char)d`. -/
def fillBytes (d : BitVec 8) (mem : Memory) (m : BitVec 32) : Nat → Memory
  | 0 => mem
  | count + 1 => fillBytes d (Function.update mem m d) (m + 1#32) count

/-- `buffer`, for words of four bytes. -/
def fillBuffer (d : BitVec 32) : BitVec 32 :=
  let buffer := (d <<< 8) ||| d
  buffer ||| (buffer <<< 16)

/-- `rt_memset`: the memory behind it, and its result. -/
def rtMemset (mem : Memory) (s c count : BitVec 32) : Memory × BitVec 32 :=
  let d := c &&& 0xff#32
  if h : ¬ count.toNat < lblocksize ∧ unaligned s = 0 then
    let (k, count) := fillBlocks (fillBuffer d) ⟨mem, s, h.2⟩ count.toNat
    let (k, count) := fillWords (fillBuffer d) k count
    (fillBytes (d.setWidth 8) k.mem k.alignedAddr.addr count, s)
  else (fillBytes (d.setWidth 8) mem s count.toNat, s)

/-! ## `rt_memcpy` -/

/-- `aligned_dst`, `aligned_src` and the memory they point to. -/
structure Copying where
  mem : Memory
  alignedDst : WordPtr
  alignedSrc : WordPtr

/-- `*aligned_dst++ = *aligned_src++`. -/
def Copying.word (k : Copying) : Copying where
  mem := k.mem.storeWord k.alignedDst.addr (k.mem.loadWord k.alignedSrc.addr)
  alignedDst := k.alignedDst.next
  alignedSrc := k.alignedSrc.next

/-- `while (len >= BIGBLOCKSIZE)`. -/
def copyBlocks (k : Copying) (len : Nat) : Copying × Nat :=
  if bigblocksize ≤ len then copyBlocks k.word.word.word.word (len - bigblocksize) else (k, len)
termination_by len
decreasing_by
  unfold bigblocksize lblocksize at *
  omega

/-- `while (len >= LITTLEBLOCKSIZE)`. -/
def copyWords (k : Copying) (len : Nat) : Copying × Nat :=
  if lblocksize ≤ len then copyWords k.word (len - lblocksize) else (k, len)
termination_by len
decreasing_by
  unfold lblocksize at *
  omega

/-- `while (len--) *dst_ptr++ = *src_ptr++`. -/
def copyBytes (mem : Memory) (dstPtr srcPtr : BitVec 32) : Nat → Memory
  | 0 => mem
  | len + 1 =>
    copyBytes (Function.update mem dstPtr (mem srcPtr)) (dstPtr + 1#32) (srcPtr + 1#32) len

/-- `UNALIGNED(X, Y)`. -/
def unalignedPair (x y : BitVec 32) : BitVec 32 := unaligned x ||| unaligned y

/-- `rt_memcpy`. `len` is an `int`, but every comparison of it with a size is one of unsigned
numbers. -/
def rtMemcpy (mem : Memory) (dst src count : BitVec 32) : Memory × BitVec 32 :=
  let len := count.toNat
  if h : ¬ len < bigblocksize ∧ unalignedPair src dst = 0 then
    have haligned := BitVec.or_eq_zero_iff.mp h.2
    let (k, len) := copyBlocks ⟨mem, ⟨dst, haligned.2⟩, ⟨src, haligned.1⟩⟩ len
    let (k, len) := copyWords k len
    (copyBytes k.mem k.alignedDst.addr k.alignedSrc.addr len, dst)
  else (copyBytes mem dst src len, dst)

/-! ## `rt_memmove` -/

/-- `while (n--) *(--tmp) = *(--s)`. -/
def copyBytesBack (mem : Memory) (tmp s : BitVec 32) : Nat → Memory
  | 0 => mem
  | n + 1 =>
    copyBytesBack (Function.update mem (tmp - 1#32) (mem (s - 1#32))) (tmp - 1#32) (s - 1#32) n

/-- `rt_memmove`. Its last loop is that of `rt_memcpy`. -/
def rtMemmove (mem : Memory) (dest src n : BitVec 32) : Memory × BitVec 32 :=
  if src < dest ∧ dest < src + n then
    (copyBytesBack mem (dest + n) (src + n) n.toNat, dest)
  else (copyBytes mem dest src n.toNat, dest)

/-- The destination begins inside of the source, behind its first byte, and the source reaches the
end of the address space. -/
def RunsOver (dest src n : BitVec 32) : Prop :=
  dest ≠ src ∧ (dest - src).toNat < n.toNat ∧ 2 ^ 32 ≤ src.toNat + n.toNat

instance (dest src n : BitVec 32) : Decidable (RunsOver dest src n) :=
  inferInstanceAs (Decidable (_ ∧ _))

/-! ## What the loops of `rt_memset` leave -/

variable {mem : Memory} {v : BitVec 8} {buffer : BitVec 32} {n : Nat}

/-- The loop of bytes fills its region. -/
theorem fillBytes_eq (n : Nat) (mem : Memory) (m : BitVec 32) (hn : n ≤ 2 ^ 32) :
    fillBytes v mem m n = mem.fill m n v := by
  induction n generalizing mem m with
  | zero => exact fill_zero.symm
  | succ n ih =>
    have hsplit : (mem.fill m 1 v).fill (m + 1#32) n v = mem.fill m (1 + n) v :=
      fill_fill (by omega)
    rw [fillBytes, ih _ _ (by omega), ← fill_one, hsplit, Nat.add_comm]

/-- `c & 0xff` is the low byte. -/
theorem and_low_byte (c : BitVec 32) : c &&& 0xff#32 = (c.setWidth 8).setWidth 32 := by
  apply BitVec.eq_of_toNat_eq
  rw [BitVec.toNat_and, BitVec.toNat_setWidth, BitVec.toNat_setWidth]
  have hmask : c.toNat &&& 255 = c.toNat % 256 := Nat.and_two_pow_sub_one_eq_mod c.toNat 8
  refine hmask.trans ?_
  omega

theorem setWidth_low_byte (b : BitVec 8) : (b.setWidth 32).setWidth 8 = b := by
  rw [BitVec.setWidth_setWidth_of_le b (by omega), BitVec.setWidth_eq]

/-- Every byte of the buffer is the one that it is made of. -/
theorem byte_fillBuffer :
    ∀ b : BitVec 8, ∀ t < 4, (fillBuffer (b.setWidth 32)).extractLsb' (8 * t) 8 = b := by
  decide +kernel

/-- What is to be done from here on: `n` more bytes. -/
def Filling.rest (k : Filling) (n : Nat) (v : BitVec 8) : Memory :=
  k.mem.fill k.alignedAddr.addr n v

/-- A word stored leaves the rest of the region to fill. -/
theorem Filling.word_rest (hbuffer : ∀ t < 4, buffer.extractLsb' (8 * t) 8 = v) (k : Filling)
    (h : lblocksize ≤ n) (hn : n ≤ 2 ^ 32) :
    (k.word buffer).rest (n - lblocksize) v = k.rest n v := by
  have hword : k.mem.storeWord k.alignedAddr.addr buffer = k.mem.fill k.alignedAddr.addr 4 v :=
    write_congr hbuffer
  have hsplit : (k.mem.fill k.alignedAddr.addr 4 v).fill (k.alignedAddr.addr + 4#32) (n - 4) v =
      k.mem.fill k.alignedAddr.addr (4 + (n - 4)) v := fill_fill (by omega)
  have hwhole : 4 + (n - 4) = n := Nat.add_sub_cancel' h
  rw [hwhole] at hsplit
  rw [rest, word, hword]
  exact hsplit

/-- The loop of blocks leaves the rest of the region to fill. -/
theorem fillBlocks_rest (hbuffer : ∀ t < 4, buffer.extractLsb' (8 * t) 8 = v) (k : Filling)
    (hn : n ≤ 2 ^ 32) :
    (fillBlocks buffer k n).1.rest (fillBlocks buffer k n).2 v = k.rest n v ∧
      (fillBlocks buffer k n).2 ≤ n := by
  have hsize : lblocksize = 4 := rfl
  fun_induction fillBlocks buffer k n with
  | case1 k count hle block ih =>
    have hfour : count - 4 * lblocksize =
        count - lblocksize - lblocksize - lblocksize - lblocksize := by omega
    obtain ⟨hrest, hshort⟩ := ih (by omega)
    refine ⟨hrest.trans ?_, by omega⟩
    rw [hfour, Filling.word_rest hbuffer _ (by omega) (by omega),
      Filling.word_rest hbuffer _ (by omega) (by omega),
      Filling.word_rest hbuffer _ (by omega) (by omega),
      Filling.word_rest hbuffer _ (by omega) hn]
  | case2 k count _ => exact ⟨rfl, Nat.le_refl _⟩

theorem fillWords_rest (hbuffer : ∀ t < 4, buffer.extractLsb' (8 * t) 8 = v) (k : Filling)
    (hn : n ≤ 2 ^ 32) :
    (fillWords buffer k n).1.rest (fillWords buffer k n).2 v = k.rest n v ∧
      (fillWords buffer k n).2 ≤ n := by
  fun_induction fillWords buffer k n with
  | case1 k count hle ih =>
    obtain ⟨hrest, hshort⟩ := ih (by omega)
    exact ⟨hrest.trans (k.word_rest hbuffer hle hn), by omega⟩
  | case2 k count _ => exact ⟨rfl, Nat.le_refl _⟩

/-- `rt_memset` sets its bytes, whichever way it takes. -/
theorem rtMemset_eq (mem : Memory) (s c count : BitVec 32) :
    rtMemset mem s c count = (mem.fill s count.toNat (c.setWidth 8), s) := by
  have hbuffer := byte_fillBuffer (c.setWidth 8)
  have hcount : count.toNat ≤ 2 ^ 32 := Nat.le_of_lt count.isLt
  unfold rtMemset
  rw [and_low_byte]
  dsimp only
  rw [setWidth_low_byte]
  split
  · next h =>
    obtain ⟨hblocks, hle⟩ := fillBlocks_rest hbuffer ⟨mem, s, h.2⟩ hcount
    obtain ⟨hwords, hle'⟩ := fillWords_rest hbuffer
      (fillBlocks (fillBuffer ((c.setWidth 8).setWidth 32)) ⟨mem, s, h.2⟩ count.toNat).1
      (hle.trans hcount)
    rw [fillBytes_eq _ _ _ (by omega)]
    exact congrArg (·, s) (hwords.trans hblocks)
  · rw [fillBytes_eq _ _ _ hcount]

/-! ## What the loops of `rt_memcpy` leave -/

/-- The loop of bytes copies its region, where no byte is read behind its write. -/
theorem copyBytes_eq (n : Nat) (mem : Memory) (d s : BitVec 32) (hn : n ≤ 2 ^ 32)
    (h : Forward d s n) : copyBytes mem d s n = mem.copy d s n := by
  induction n generalizing mem d s with
  | zero => exact copy_zero.symm
  | succ n ih =>
    have hsplit : (mem.copy d s 1).copy (d + 1#32) (s + 1#32) n = mem.copy d s (1 + n) :=
      copy_copy (by omega) (by rwa [Nat.add_comm])
    rw [copyBytes, ih _ _ _ (by omega) (h.rest (i := 1) (by omega)), ← copy_one, hsplit,
      Nat.add_comm]

/-- What is to be done from here on: `n` more bytes. -/
def Copying.rest (k : Copying) (n : Nat) : Memory :=
  k.mem.copy k.alignedDst.addr k.alignedSrc.addr n

/-- The bytes that are to be copied are not overwritten before. -/
def Copying.Safe (k : Copying) (n : Nat) : Prop := Forward k.alignedDst.addr k.alignedSrc.addr n

theorem Copying.word_safe {k : Copying} (h : k.Safe n) : k.word.Safe (n - lblocksize) :=
  Forward.rest h (Nat.sub_le n lblocksize)

/-- A word moved leaves the rest of the region to copy. -/
theorem Copying.word_rest {k : Copying} (hle : lblocksize ≤ n) (hn : n ≤ 2 ^ 32) (h : k.Safe n) :
    k.word.rest (n - lblocksize) = k.rest n := by
  have hwhole : 4 + (n - 4) = n := Nat.add_sub_cancel' hle
  have hsplit : (k.mem.copy k.alignedDst.addr k.alignedSrc.addr 4).copy
      (k.alignedDst.addr + 4#32) (k.alignedSrc.addr + 4#32) (n - 4) =
      k.mem.copy k.alignedDst.addr k.alignedSrc.addr (4 + (n - 4)) :=
    copy_copy (by omega) (hwhole.symm ▸ h)
  rw [hwhole] at hsplit
  rw [rest, word, storeWord_loadWord]
  exact hsplit

/-- The loop of blocks leaves the rest of the region to copy, and it stays safe to copy. -/
theorem copyBlocks_rest (k : Copying) (hn : n ≤ 2 ^ 32) (h : k.Safe n) :
    (copyBlocks k n).1.rest (copyBlocks k n).2 = k.rest n ∧
      (copyBlocks k n).1.Safe (copyBlocks k n).2 ∧ (copyBlocks k n).2 ≤ n := by
  have hsize : lblocksize = 4 := rfl
  have hbig : bigblocksize = 4 * lblocksize := rfl
  fun_induction copyBlocks k n with
  | case1 k len hle ih =>
    have hfour : len - bigblocksize =
        len - lblocksize - lblocksize - lblocksize - lblocksize := by omega
    have hone := Copying.word_safe h
    have htwo := Copying.word_safe hone
    have hthree := Copying.word_safe htwo
    rw [hfour] at ih ⊢
    obtain ⟨hrest, hsafe, hshort⟩ := ih (by omega) (Copying.word_safe hthree)
    refine ⟨hrest.trans ?_, hsafe, by omega⟩
    rw [Copying.word_rest (by omega) (by omega) hthree,
      Copying.word_rest (by omega) (by omega) htwo, Copying.word_rest (by omega) (by omega) hone,
      Copying.word_rest (by omega) hn h]
  | case2 k len _ => exact ⟨rfl, h, Nat.le_refl _⟩

theorem copyWords_rest (k : Copying) (hn : n ≤ 2 ^ 32) (h : k.Safe n) :
    (copyWords k n).1.rest (copyWords k n).2 = k.rest n ∧
      (copyWords k n).1.Safe (copyWords k n).2 ∧ (copyWords k n).2 ≤ n := by
  fun_induction copyWords k n with
  | case1 k len hle ih =>
    obtain ⟨hrest, hsafe, hshort⟩ := ih (by omega) (Copying.word_safe h)
    exact ⟨hrest.trans (Copying.word_rest hle hn h), hsafe, by omega⟩
  | case2 k len _ => exact ⟨rfl, h, Nat.le_refl _⟩

/-- `rt_memcpy` copies its bytes, whichever way it takes, if it may go upwards. -/
theorem rtMemcpy_eq (mem : Memory) (dst src count : BitVec 32)
    (hforward : Forward dst src count.toNat) :
    rtMemcpy mem dst src count = (mem.copy dst src count.toNat, dst) := by
  have hcount : count.toNat ≤ 2 ^ 32 := Nat.le_of_lt count.isLt
  unfold rtMemcpy
  dsimp only
  split
  · next h =>
    have haligned := BitVec.or_eq_zero_iff.mp h.2
    obtain ⟨hblocks, hsafe, hle⟩ :=
      copyBlocks_rest ⟨mem, ⟨dst, haligned.2⟩, ⟨src, haligned.1⟩⟩ hcount hforward
    obtain ⟨hwords, hsafe', hle'⟩ := copyWords_rest _ (hle.trans hcount) hsafe
    rw [copyBytes_eq _ _ _ _ (by omega) hsafe']
    exact congrArg (·, dst) (hwords.trans hblocks)
  · rw [copyBytes_eq _ _ _ _ hcount hforward]

/-! ## Which way `rt_memmove` goes -/

/-- The loop from the end copies its region, where no byte is read in front of its write. -/
theorem copyBytesBack_eq (n : Nat) (mem : Memory) (d s : BitVec 32) (hn : n ≤ 2 ^ 32)
    (h : Backward d s n) :
    copyBytesBack mem (d + BitVec.ofNat 32 n) (s + BitVec.ofNat 32 n) n = mem.copy d s n := by
  induction n generalizing mem with
  | zero => exact copy_zero.symm
  | succ n ih =>
    have hlast (p : BitVec 32) : p + BitVec.ofNat 32 (n + 1) - 1#32 = p + BitVec.ofNat 32 n := by
      rw [← add_ofNat]
      exact BitVec.add_sub_cancel _ _
    have hsplit : (mem.copy (d + BitVec.ofNat 32 n) (s + BitVec.ofNat 32 n) 1).copy d s n =
        mem.copy d s (n + 1) := copy_copy_back hn h
    rw [copyBytesBack, hlast, hlast, ih _ (by omega) (h.rest (by omega)), ← copy_one, hsplit]

/-- Where it goes downwards, it may. -/
theorem backward_of_taken {dest src n : BitVec 32} (hn : n.toNat < 2 ^ 31)
    (h : src < dest ∧ dest < src + n) : Backward dest src n.toNat := by
  have hdest := dest.isLt
  obtain ⟨hlo, hhi⟩ := h
  rw [BitVec.lt_def] at hlo hhi
  rw [BitVec.toNat_add] at hhi
  right
  rw [BitVec.toNat_sub]
  omega

/-- Where it goes upwards, it may, unless the end of the source has run over. -/
theorem forward_of_not_taken {dest src n : BitVec 32} (h : ¬ (src < dest ∧ dest < src + n))
    (hover : ¬ RunsOver dest src n) : Forward dest src n.toNat := by
  by_cases hne : dest = src
  · exact .inl hne
  right
  by_contra hlt
  have hdist : (dest - src).toNat < n.toNat := Nat.not_le.mp hlt
  have hend : src.toNat + n.toNat < 2 ^ 32 := by
    by_contra hend
    exact hover ⟨hne, hdist, Nat.not_lt.mp hend⟩
  have hdest := dest.isLt
  have hne' : dest.toNat ≠ src.toNat := fun heq => hne (BitVec.eq_of_toNat_eq heq)
  rw [BitVec.toNat_sub] at hdist
  apply h
  rw [BitVec.lt_def, BitVec.lt_def, BitVec.toNat_add]
  omega

/-- A region that runs over the end of the address space is copied upwards. -/
theorem not_taken_of_runsOver {dest src n : BitVec 32} (hover : RunsOver dest src n) :
    ¬ (src < dest ∧ dest < src + n) := by
  obtain ⟨-, -, hend⟩ := hover
  have hn := n.isLt
  have hsrc := src.isLt
  rintro ⟨hlo, hhi⟩
  rw [BitVec.lt_def] at hlo hhi
  rw [BitVec.toNat_add] at hhi
  omega

/-- `rt_memmove` copies every region but those that run over. -/
theorem rtMemmove_eq (mem : Memory) {dest src n : BitVec 32} (hn : n.toNat < 2 ^ 31)
    (hover : ¬ RunsOver dest src n) :
    rtMemmove mem dest src n = (mem.copy dest src n.toNat, dest) := by
  have hlimit : n.toNat ≤ 2 ^ 32 := Nat.le_of_lt n.isLt
  have hnat : BitVec.ofNat 32 n.toNat = n := BitVec.ofNat_toNat 32 n
  unfold rtMemmove
  split
  · next h =>
    have hback := copyBytesBack_eq n.toNat mem dest src hlimit (backward_of_taken hn h)
    rw [hnat] at hback
    rw [hback]
  · next h => rw [copyBytes_eq _ _ _ _ hlimit (forward_of_not_taken h hover)]

/-! ## Upwards into the source -/

theorem copyBytes_add (a b : Nat) (mem : Memory) (d s : BitVec 32) :
    copyBytes mem d s (a + b) =
      copyBytes (copyBytes mem d s a) (d + BitVec.ofNat 32 a) (s + BitVec.ofNat 32 a) b := by
  induction a generalizing mem d s with
  | zero =>
    have hzero (p : BitVec 32) : p + BitVec.ofNat 32 0 = p := BitVec.add_zero p
    rw [Nat.zero_add, hzero, hzero]
    rfl
  | succ a ih =>
    have hone (p : BitVec 32) : p + 1#32 + BitVec.ofNat 32 a = p + BitVec.ofNat 32 (a + 1) := by
      rw [Nat.add_comm a 1]
      exact add_ofNat p 1 a
    rw [Nat.add_right_comm, copyBytes, ih, hone, hone]
    rfl

/-- Nothing is written outside the region. -/
theorem copyBytes_outside {x : BitVec 32} (n : Nat) (mem : Memory) (d s : BitVec 32)
    (hn : n ≤ 2 ^ 32) (h : n ≤ (x - d).toNat) : copyBytes mem d s n x = mem x := by
  induction n generalizing mem d s with
  | zero => rfl
  | succ n ih =>
    have hnext : (x - (d + 1#32)).toNat = (x - d).toNat - 1 :=
      (toNat_sub_add (i := 1) (by omega)).trans (if_pos (by omega))
    have hne : x ≠ d := by
      rintro rfl
      rw [BitVec.sub_self, BitVec.toNat_zero] at h
      omega
    rw [copyBytes, ih _ _ _ (by omega) (by omega), Function.update_of_ne hne]

/-- The first byte of the source arrives a second time, where the byte at the destination should
have gone. -/
theorem copyBytes_repeats {d s : BitVec 32} (mem : Memory) (hne : d ≠ s)
    (h : (d - s).toNat < n) (hn : n ≤ 2 ^ 32) :
    copyBytes mem d s n (d + (d - s)) = mem s := by
  have hdist : BitVec.ofNat 32 (d - s).toNat = d - s := BitVec.ofNat_toNat 32 (d - s)
  have hsource : s + (d - s) = d := by rw [BitVec.add_comm, BitVec.sub_add_cancel]
  have hpos : 0 < (d - s).toNat := by
    by_contra hzero
    apply hne
    rw [eq_add_sub d s, Nat.eq_zero_of_not_pos hzero]
    exact BitVec.add_zero s
  obtain ⟨b, rfl⟩ : ∃ b, n = (d - s).toNat + (b + 1) := ⟨n - (d - s).toNat - 1, by omega⟩
  -- the copy is right up to the place where the source has been overwritten
  have hfront : copyBytes mem d s (d - s).toNat = mem.copy d s (d - s).toNat :=
    copyBytes_eq _ _ _ _ (by omega) (.inr (Nat.le_refl _))
  have hfirst : mem.copy d s (d - s).toNat d = mem s := by
    have hread := write_inside (m := mem) (d := d) (f := fun t => mem (s + BitVec.ofNat 32 t))
      hpos (show (d - s).toNat ≤ 2 ^ 32 by omega)
    have hzero (p : BitVec 32) : p + BitVec.ofNat 32 0 = p := BitVec.add_zero p
    rw [hzero, hzero] at hread
    exact hread
  have hfar : b ≤ (d + (d - s) - (d + (d - s) + 1#32)).toNat := by
    have hway : d + (d - s) - (d + (d - s) + 1#32) = BitVec.ofNat 32 (2 ^ 32 - 1) := by
      rw [sub_add_cancel_left]
      rfl
    rw [hway, BitVec.toNat_ofNat]
    omega
  rw [copyBytes_add, hfront, hdist, hsource, copyBytes, copyBytes_outside _ _ _ _ (by omega) hfar,
    Function.update_self, hfirst]

/-! ## The three functions -/

/-- The memory functions do to the memory, byte by byte, what they are for: `rt_memset` to any
region, `rt_memcpy` to regions that are apart, and `rt_memmove` whatever the memory holds if and
only if it does not run over the end of the address space. -/
theorem memory_bytewise (mem : Memory) (dst src c count : BitVec 32)
    (hcount : count.toNat < 2 ^ 31) :
    Written mem (rtMemset mem dst c count).1 dst count.toNat (fun _ => c.setWidth 8) ∧
    (Apart dst src count.toNat → Written mem (rtMemcpy mem dst src count).1 dst count.toNat
      fun i => mem (src + BitVec.ofNat 32 i)) ∧
    ((∀ mem, Written mem (rtMemmove mem dst src count).1 dst count.toNat
      fun i => mem (src + BitVec.ofNat 32 i)) ↔ ¬ RunsOver dst src count) := by
  have hlimit : count.toNat ≤ 2 ^ 32 := Nat.le_of_lt count.isLt
  refine ⟨?_, ?_, ?_, ?_⟩
  · rw [written_iff hlimit, rtMemset_eq]
    rfl
  · intro hapart
    rw [written_iff hlimit, rtMemcpy_eq mem dst src count hapart.forward]
    rfl
  · intro h hover
    obtain ⟨hne, hdist, -⟩ := id hover
    let marked : Memory := Function.update (fun _ => 0) src 1
    have hmoved := (h marked).inside _ hdist
    have hrepeats := copyBytes_repeats marked hne hdist hlimit
    have hsource : src + (dst - src) = dst := by rw [BitVec.add_comm, BitVec.sub_add_cancel]
    rw [rtMemmove, if_neg (not_taken_of_runsOver hover), BitVec.ofNat_toNat, BitVec.setWidth_eq,
      hsource] at hmoved
    have hone : marked src = 1 := Function.update_self ..
    have hzero : marked dst = 0 := Function.update_of_ne hne ..
    have hsame : marked src = marked dst := hrepeats.symm.trans hmoved
    rw [hone, hzero] at hsame
    exact absurd hsame (by decide)
  · intro hover mem
    rw [written_iff hlimit, rtMemmove_eq mem hcount hover]
    rfl

/-- Two regions that end before the address space does are never such a case. -/
theorem not_runsOver {dest src n : BitVec 32} (hdest : dest.toNat + n.toNat ≤ 2 ^ 32)
    (hsrc : src.toNat + n.toNat ≤ 2 ^ 32) : ¬ RunsOver dest src n := by
  rintro ⟨hne, hdist, hend⟩
  have hne' : dest.toNat ≠ src.toNat := fun heq => hne (BitVec.eq_of_toNat_eq heq)
  rw [BitVec.toNat_sub] at hdist
  omega

/-- A block, a word and three bytes at aligned addresses, moved upwards over themselves. -/
theorem memory_bytewise_block :
    let mem : Memory := fun x => x.setWidth 8
    Written mem (rtMemset mem 0x20000004 0x1AB 23).1 0x20000004 23 (fun _ => 0xAB) ∧
    Written mem (rtMemcpy mem 0x20000004 0x20000040 23).1 0x20000004 23
      (fun i => mem (0x20000040 + BitVec.ofNat 32 i)) ∧
    Written mem (rtMemmove mem 0x20000004 0x20000000 23).1 0x20000004 23
      (fun i => mem (0x20000000 + BitVec.ofNat 32 i)) := by
  intro mem
  have hapart : Apart (0x20000004 : BitVec 32) 0x20000040 23 := by
    unfold Apart
    decide
  refine ⟨(memory_bytewise mem 0x20000004 0 0x1AB 23 (by decide)).1,
    (memory_bytewise mem 0x20000004 0x20000040 0 23 (by decide)).2.1 hapart,
    (memory_bytewise mem 0x20000004 0x20000000 0 23 (by decide)).2.2.mpr ?_ mem⟩
  exact not_runsOver (by decide) (by decide)

/-- Three bytes are moved by one from the end of the address space, and the first one arrives
twice. -/
theorem memmove_runs_over :
    let mem : Memory := Function.update (fun _ => 0) 0xFFFFFFFE 1
    ¬ Written mem (rtMemmove mem 0xFFFFFFFF 0xFFFFFFFE 3).1 0xFFFFFFFF 3
      fun i => mem (0xFFFFFFFE + BitVec.ofNat 32 i) := by
  intro mem h
  have hsecond : (rtMemmove mem 0xFFFFFFFF 0xFFFFFFFE 3).1 0 = mem 0xFFFFFFFF :=
    h.inside 1 (by decide)
  exact absurd hsecond (by decide)

end RtVcom.Kservice

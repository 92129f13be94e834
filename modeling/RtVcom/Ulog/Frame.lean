import RtVcom.Kernel.Mem
import RtVcom.Lib.ByteMemory
import RtVcom.Ulog.Formatter

/-!
# Log frames

How `do_output` packs a log into a block of the asynchronous ring, and how `ulog_async_output` reads
it there: `struct ulog_frame`, and the text behind it, to which the frame has a pointer. The frame
is given as the cells that are written one after another; `magic`, `is_raw` and `log_len` share
the first word and are one of them. `readFrame_eq` is the round trip.
-/

namespace RtVcom.Ulog

open RtVcom.Lib

/-- What `do_output` and `ulog_output_to_all_backend` are given: `tag` is a pointer, and `log` the
`log_len` bytes that there are at the other one. -/
structure Log where
  level : BitVec 32
  tag : BitVec 32
  isRaw : Bool
  log : List (BitVec 8)
deriving Repr, DecidableEq

/-- `sizeof(struct ulog_frame)`. -/
def ulogFrameSize : Nat := 16

/-- `ULOG_FRAME_MAGIC`. -/
def ulogFrameMagic : Nat := 0x10

/-- `magic:8`, `is_raw:1` and `log_len:23`. -/
def Log.word (l : Log) : Nat :=
  ulogFrameMagic + 0x100 * l.isRaw.toNat + 0x200 * (l.log.length % 0x800000)

/-- The bytes of `rt_memcpy`. -/
def textCells (a : Nat) : List (BitVec 8) → List Cell
  | [] => []
  | c :: cs => ⟨a, 1, c.toNat⟩ :: textCells (a + 1) cs

/-- The frame that `do_output` writes to a block. -/
def frameCells (l : Log) (buf : Nat) : List Cell :=
  ⟨buf, 4, l.word⟩ :: ⟨buf + 4, 4, l.level.toNat⟩ :: ⟨buf + 12, 4, l.tag.toNat⟩ ::
    ⟨buf + 8, 4, buf + ulogFrameSize⟩ :: textCells (buf + ulogFrameSize) l.log

/-- The size that `do_output` asks for. -/
def Log.blkSize (l : Log) : Nat := Kernel.rtAlign (ulogFrameSize + l.log.length)

/-- `log_frame->magic`. -/
def readMagic (m : ByteMemory) (buf : Nat) : Nat := m.load buf 4 % 0x100

/-- The arguments that `ulog_async_output` reads for `ulog_output_to_all_backend`. -/
def readFrame (m : ByteMemory) (buf : Nat) : Log where
  level := BitVec.ofNat 32 (m.load (buf + 4) 4)
  tag := BitVec.ofNat 32 (m.load (buf + 12) 4)
  isRaw := m.load buf 4 / 0x100 % 2 = 1
  log := (List.range (m.load buf 4 / 0x200)).map fun i => m (m.load (buf + 8) 4 + i)

/-! ## The cells of a frame -/

section

variable {l : Log} {m : ByteMemory} {a buf : Nat} {c : Cell}

/-- The cells of a text lie inside its region, and their bytes fit. -/
theorem textCells_inside {text : List (BitVec 8)} (h : c ∈ textCells a text) :
    c.Inside a text.length ∧ c.val < ByteMemory.limit c.width := by
  induction text generalizing a with
  | nil => cases h
  | cons b text ih =>
    rw [List.length_cons]
    rcases List.mem_cons.mp h with rfl | h
    · refine ⟨⟨Nat.le_refl a, ?_⟩, b.isLt⟩
      change a + 1 ≤ a + (text.length + 1)
      omega
    · obtain ⟨⟨hle, hend⟩, hval⟩ := ih h
      exact ⟨⟨by omega, by omega⟩, hval⟩

theorem textCells_pairwise (text : List (BitVec 8)) (a : Nat) :
    (textCells a text).Pairwise Cell.Apart := by
  induction text generalizing a with
  | nil => exact .nil
  | cons b text ih =>
    refine List.pairwise_cons.mpr ⟨?_, ih (a + 1)⟩
    intro c hc
    exact .inl (textCells_inside hc).1.1

/-- A memory that holds the cells of a text holds the text. -/
theorem textCells_read {text : List (BitVec 8)} (h : ∀ c ∈ textCells a text, m.Holds c) :
    (List.range text.length).map (fun i => m (a + i)) = text := by
  induction text generalizing a with
  | nil => rfl
  | cons b text ih =>
    obtain ⟨hfirst, hrest⟩ := List.forall_mem_cons.mp h
    have hb : m a = b := by
      apply BitVec.eq_of_toNat_eq
      change (m a).toNat + 0x100 * 0 = b.toNat at hfirst
      omega
    rw [List.length_cons, List.range_succ_eq_map, List.map_cons, List.map_map, Nat.add_zero, hb]
    refine congrArg (b :: ·) ((List.map_congr_left ?_).trans (ih hrest))
    intro i _
    change m (a + (i + 1)) = m (a + 1 + i)
    rw [Nat.add_assoc, Nat.add_comm 1 i]

/-- Every cell of a frame is in its block. -/
theorem frameCells_inside (h : c ∈ frameCells l buf) :
    c.Inside buf (ulogFrameSize + l.log.length) := by
  -- the four words of the structure
  have hfield {off : Nat} (hoff : off + 4 ≤ 16) (val : Nat) :
      (⟨buf + off, 4, val⟩ : Cell).Inside buf (ulogFrameSize + l.log.length) := by
    refine ⟨Nat.le_add_right buf off, ?_⟩
    change buf + off + 4 ≤ buf + (16 + l.log.length)
    omega
  rcases List.mem_cons.mp h with rfl | h
  · exact @hfield 0 (by decide) _
  rcases List.mem_cons.mp h with rfl | h
  · exact hfield (by decide) _
  rcases List.mem_cons.mp h with rfl | h
  · exact hfield (by decide) _
  rcases List.mem_cons.mp h with rfl | h
  · exact hfield (by decide) _
  obtain ⟨⟨hle, hend⟩, -⟩ := textCells_inside h
  exact ⟨by omega, by omega⟩

/-- Every number of a frame fits into its cell. -/
theorem frameCells_fits (hbuf : buf + 16 < 0x100000000) (h : c ∈ frameCells l buf) :
    c.val < ByteMemory.limit c.width := by
  rcases List.mem_cons.mp h with rfl | h
  · have hraw : l.isRaw.toNat ≤ 1 := l.isRaw.toNat_le
    change l.word < 0x100000000
    unfold Log.word ulogFrameMagic
    omega
  rcases List.mem_cons.mp h with rfl | h
  · exact l.level.isLt
  rcases List.mem_cons.mp h with rfl | h
  · exact l.tag.isLt
  rcases List.mem_cons.mp h with rfl | h
  · exact hbuf
  exact (textCells_inside h).2

theorem frameCells_pairwise (l : Log) (buf : Nat) : (frameCells l buf).Pairwise Cell.Apart := by
  -- each of the four words is apart from what follows it
  have htext {addr : Nat} (haddr : addr + 4 ≤ buf + ulogFrameSize) (val : Nat) :
      ∀ c ∈ textCells (buf + ulogFrameSize) l.log, (⟨addr, 4, val⟩ : Cell).Apart c := by
    intro c hc
    exact .inl (Nat.le_trans haddr (textCells_inside hc).1.1)
  have hsize : ulogFrameSize = 16 := rfl
  refine List.pairwise_cons.mpr ⟨?_, List.pairwise_cons.mpr ⟨?_, List.pairwise_cons.mpr ⟨?_,
    List.pairwise_cons.mpr ⟨?_, textCells_pairwise _ _⟩⟩⟩⟩
  · refine List.forall_mem_cons.mpr ⟨?_, List.forall_mem_cons.mpr ⟨?_,
      List.forall_mem_cons.mpr ⟨?_, htext (by omega) _⟩⟩⟩
    · exact .inl (Nat.le_refl (buf + 4))
    · exact .inl (show buf + 4 ≤ buf + 12 by omega)
    · exact .inl (show buf + 4 ≤ buf + 8 by omega)
  · refine List.forall_mem_cons.mpr ⟨?_, List.forall_mem_cons.mpr ⟨?_, htext (by omega) _⟩⟩
    · exact .inl (show buf + 4 + 4 ≤ buf + 12 by omega)
    · exact .inl (show buf + 4 + 4 ≤ buf + 8 by omega)
  · refine List.forall_mem_cons.mpr ⟨?_, htext (by omega) _⟩
    exact .inr (show buf + 8 + 4 ≤ buf + 12 by omega)
  · exact htext (by omega) _

/-- A frame with its line fits its block, which is 144 bytes at most. -/
theorem blkSize_le (hlen : l.log.length ≤ lineBufSize) :
    ulogFrameSize + l.log.length ≤ l.blkSize ∧ l.blkSize ≤ 144 := by
  unfold lineBufSize at hlen
  unfold Log.blkSize Kernel.rtAlign add32 ulogFrameSize
  omega

/-- What was written is read. -/
theorem readFrame_eq (hlen : l.log.length ≤ lineBufSize) (h : ∀ c ∈ frameCells l buf, m.Holds c) :
    readMagic m buf = ulogFrameMagic ∧ readFrame m buf = l := by
  obtain ⟨hword, h⟩ := List.forall_mem_cons.mp h
  obtain ⟨hlevel, h⟩ := List.forall_mem_cons.mp h
  obtain ⟨htag, h⟩ := List.forall_mem_cons.mp h
  obtain ⟨hlog, htext⟩ := List.forall_mem_cons.mp h
  change m.load buf 4 = l.word at hword
  change m.load (buf + 4) 4 = l.level.toNat at hlevel
  change m.load (buf + 12) 4 = l.tag.toNat at htag
  change m.load (buf + 8) 4 = buf + ulogFrameSize at hlog
  have hraw : l.isRaw.toNat ≤ 1 := l.isRaw.toNat_le
  have hmagic : l.word % 0x100 = ulogFrameMagic := by
    unfold Log.word ulogFrameMagic
    omega
  have hisRaw : l.word / 0x100 % 2 = l.isRaw.toNat := by
    unfold Log.word ulogFrameMagic
    omega
  have hlogLen : l.word / 0x200 = l.log.length := by
    unfold lineBufSize at hlen
    unfold Log.word ulogFrameMagic
    omega
  constructor
  · rw [readMagic, hword, hmagic]
  · unfold readFrame
    rw [hword, hlevel, htag, hlog, hisRaw, hlogLen, textCells_read htext, BitVec.ofNat_toNat,
      BitVec.ofNat_toNat, BitVec.setWidth_eq, BitVec.setWidth_eq]
    cases l with
    | mk level tag isRaw log => cases isRaw <;> rfl

end

end RtVcom.Ulog

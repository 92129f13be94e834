import RtVcom.Driver.RingBuffer
import RtVcom.Serial.Device

/-!
# Writing to the virtual COM port

`_vcom_putc` and `_vcom_tx` of `class/cdc_vcom.c` put bytes into `tx_ringbuffer` and then send
`CDC_TX_HAS_DATE` to the transmitter. A call is a sequence of steps (`writerStep`), each with at
most one critical section on the ring, so that the same definition serves a call that runs alone
and calls that interleave. A step answers the ring behind it, where the call goes on, and
whether it executed `rt_event_send`. `txCall` is `_vcom_tx` as one function; its steps are those
of a call that runs alone (`returns_txCall`).

`rtSerialWrite` is the list of driver calls that `rt_serial_write` of the serial framework makes
for one write, according to the open flags. Both layers translate a newline in stream mode: the
driver in `_vcom_putc` and `_vcom_tx`, and the framework in `_serial_poll_tx`. The framework's
other two paths leave it to the driver. So the polling path translates twice, and
`rtSerialWrite_appends_iff` says that the written bytes are the translated string exactly when
the path is not the polling one or there is no newline.
-/

namespace RtVcom.Vcom

open RtVcom.Lib RtVcom.Kernel RtVcom.Driver RtVcom.Serial

/-- `CDC_TX_BUFSIZE`. -/
def cdcTxBufsize : Nat := 1024

/-- `CDC_BULKIN_MAXSIZE`. -/
def cdcBulkinMaxsize : Nat := cdcTxBufsize / 8

/-- The ring the writers put into. -/
abbrev TxRing : Type := RingQueue cdcTxBufsize

/-! ## The driver calls -/

/-- The locals of `_vcom_tx`: the buffer, cut to `baksize` bytes, and the indices. -/
structure TxFrame where
  buf : List UInt8
  ptr : Nat
  size : Nat
  empty : Bool
deriving Repr, DecidableEq

/-- Where a writer is in its call. -/
inductive WriterPc
  | idle
  /-- `_vcom_putc`: at its beginning, at its two puts, and at the event behind each. -/
  | putc (c : UInt8)
  | putCr (c : UInt8)
  | sendCr (c : UInt8)
  | putCh (c : UInt8)
  | sendCh
  /-- `_vcom_tx`: at its beginning, at the search for the next newline, at the put of what
  precedes it, at the put of the translated newline, at the put of the rest, at the event. -/
  | tx (buf : List UInt8)
  | txScan (f : TxFrame)
  | txPut (f : TxFrame)
  | txCrlf (f : TxFrame)
  | txTail (f : TxFrame)
  | txSend (f : TxFrame)
deriving Repr, DecidableEq

/-- What a step of a writer does: the ring, the next place, and whether it sent the event. -/
structure WriterStep where
  ring : TxRing
  pc : WriterPc
  sends : Bool

/-- `while(ptr < baksize && buf[ptr] != '\n') ptr++`. -/
def TxFrame.scan (f : TxFrame) : Nat :=
  f.ptr + ((f.buf.drop f.ptr).takeWhile (· ≠ lf)).length

/-- `rt_ringbuffer_put_force` of `buf[size] .. buf[upto - 1]`, counted in `size`. -/
def TxFrame.put (f : TxFrame) (ring : TxRing) (upto : Nat) : TxRing × TxFrame :=
  let block := (f.buf.drop f.size).take (upto - f.size)
  (ring.putForce block, { f with size := f.size + (rtRingbufferPutForce ring.val block).2 })

/-- The newline found by the search: `\r\n` when there is room for both. -/
def TxFrame.crlf (f : TxFrame) (ring : TxRing) : TxRing × WriterPc :=
  if f.size = f.ptr then
    if 2 ≤ rtRingbufferSpaceLen ring.val then
      (ring.putForce [cr, lf], .txScan { f with size := f.size + 1, ptr := f.ptr + 1 })
    else (ring, .txTail { f with empty := true })
  else (ring, .txTail { f with empty := true })

/-- One step of a writer, with `data->connected` and the open flags as it finds them. -/
def writerStep (connected : Bool) (openFlag : BitVec 16) (ring : TxRing) : WriterPc → WriterStep
  | .idle => ⟨ring, .idle, false⟩
  | .putc c =>
    ⟨ring,
      if connected then
        if c = lf ∧ hasFlag openFlag rtDeviceFlagStream then .putCr c else .putCh c
      else .idle,
      false⟩
  | .putCr c => ⟨ring.putcharForce cr, .sendCr c, false⟩
  | .sendCr c => ⟨ring, .putCh c, true⟩
  | .putCh c => ⟨ring.putcharForce c, .sendCh, false⟩
  | .sendCh => ⟨ring, .idle, true⟩
  | .tx buf =>
    -- `size` is cut to `CDC_BULKIN_MAXSIZE`; a disconnected port only recovers the data queue
    let f : TxFrame := { buf := buf.take cdcBulkinMaxsize, ptr := 0, size := 0, empty := false }
    ⟨ring,
      if connected then
        if hasFlag openFlag rtDeviceFlagStream then .txScan f else .txTail f
      else .idle,
      false⟩
  | .txScan f =>
    ⟨ring,
      if f.ptr < f.buf.length then
        if f.scan < f.buf.length then .txPut { f with ptr := f.scan }
        else .txTail { f with ptr := f.scan }
      else .txTail f,
      false⟩
  | .txPut f => ⟨(f.put ring f.ptr).1, .txCrlf (f.put ring f.ptr).2, false⟩
  | .txCrlf f => ⟨(f.crlf ring).1, (f.crlf ring).2, false⟩
  | .txTail f =>
    if f.size < f.buf.length ∧ f.empty = false then
      ⟨(f.put ring f.buf.length).1, .txSend (f.put ring f.buf.length).2, false⟩
    else ⟨ring, .txSend f, false⟩
  | .txSend f => ⟨ring, .idle, decide (f.size ≠ 0)⟩

/-- Where a driver call begins. -/
def driverEntry : DriverCall → WriterPc
  | .putc c => .putc c
  | .dmaTransmit buf => .tx buf

/-! ## Calls that run alone -/

/-- `n` steps of a writer on a connected port. -/
def writerRun (openFlag : BitVec 16) : Nat → TxRing × WriterPc → TxRing × WriterPc
  | 0, s => s
  | n + 1, (ring, pc) =>
    writerRun openFlag n
      ((writerStep true openFlag ring pc).ring, (writerStep true openFlag ring pc).pc)

/-- The call returns, and leaves this ring. -/
def Returns (openFlag : BitVec 16) (ring : TxRing) (pc : WriterPc) (ring' : TxRing) : Prop :=
  ∃ n, writerRun openFlag n (ring, pc) = (ring', .idle)

/-- The calls return one after the other. -/
def CallsReturn (openFlag : BitVec 16) : TxRing → List DriverCall → TxRing → Prop
  | ring, [], ring' => ring = ring'
  | ring, call :: calls, ring' =>
    ∃ mid, Returns openFlag ring (driverEntry call) mid ∧ CallsReturn openFlag mid calls ring'

/-- The string with every newline translated. -/
def translated (s : List UInt8) : List UInt8 := s.flatMap fun c => if c = lf then [cr, c] else [c]

theorem translated_append (s t : List UInt8) : translated (s ++ t) = translated s ++ translated t :=
  List.flatMap_append

/-- A text without line feed is its own translation. -/
theorem translated_of_not_mem {s : List UInt8} (h : lf ∉ s) : translated s = s := by
  induction s with
  | nil => rfl
  | cons c s ih =>
    have hc : c ≠ lf := fun he => h (he ▸ List.mem_cons_self)
    rw [translated, List.flatMap_cons, if_neg hc, List.singleton_append]
    exact congrArg (c :: ·) (ih fun hm => h (List.mem_cons_of_mem c hm))

/-- Every newline takes one more byte. -/
theorem length_translated (s : List UInt8) :
    (translated s).length = s.length + s.count lf := by
  induction s with
  | nil => rfl
  | cons c s ih =>
    rw [translated, List.flatMap_cons, List.length_append, List.length_cons, List.count_cons]
    change _ + (translated s).length = _
    rw [ih]
    by_cases hc : c = lf
    · rw [if_pos hc, hc, beq_self_eq_true, if_pos rfl]
      simp only [List.length_cons, List.length_nil]
      omega
    · rw [if_neg hc, beq_false_of_ne hc, if_neg Bool.false_ne_true]
      simp only [List.length_cons, List.length_nil]
      omega

/-- The translation at most doubles a text. -/
theorem length_translated_le (s : List UInt8) : (translated s).length ≤ 2 * s.length := by
  have hcount : s.count lf ≤ s.length := List.count_le_length
  rw [length_translated]
  omega

/-- The carriage returns added are no newlines. -/
theorem count_translated (s : List UInt8) : (translated s).count lf = s.count lf := by
  induction s with
  | nil => rfl
  | cons c s ih =>
    rw [translated, List.flatMap_cons, List.count_append, List.count_cons]
    change _ + (translated s).count lf = _
    rw [ih]
    by_cases hc : c = lf
    · rw [if_pos hc, hc, beq_self_eq_true, if_pos rfl, Nat.add_comm]
      rfl
    · rw [if_neg hc, List.count_singleton, beq_false_of_ne hc, if_neg Bool.false_ne_true,
        Nat.zero_add]
      rfl

/-! ## Runs -/

section Runs

variable {openFlag : BitVec 16}

/-- A run is a run and then another. -/
theorem writerRun_add (openFlag : BitVec 16) (n m : Nat) (s : TxRing × WriterPc) :
    writerRun openFlag (n + m) s = writerRun openFlag m (writerRun openFlag n s) := by
  induction n generalizing s with
  | zero => rw [Nat.zero_add]; rfl
  | succ n ih =>
    rw [Nat.succ_add]
    exact ih _

theorem writerRun_idle (n : Nat) (ring : TxRing) :
    writerRun openFlag n (ring, .idle) = (ring, .idle) := by
  induction n with
  | zero => rfl
  | succ n ih => exact ih

/-- A call returns with one ring. -/
theorem Returns.unique {ring a b : TxRing} {pc : WriterPc} (ha : Returns openFlag ring pc a)
    (hb : Returns openFlag ring pc b) : a = b := by
  obtain ⟨n, hn⟩ := ha
  obtain ⟨m, hm⟩ := hb
  have h1 := writerRun_add openFlag n m (ring, pc)
  have h2 := writerRun_add openFlag m n (ring, pc)
  rw [hn, writerRun_idle] at h1
  rw [hm, writerRun_idle, Nat.add_comm m n, h1] at h2
  exact congrArg Prod.fst h2

/-- A step of a call that returns. -/
theorem Returns.step {ring ring' : TxRing} {pc : WriterPc}
    (h : Returns openFlag (writerStep true openFlag ring pc).ring
      (writerStep true openFlag ring pc).pc ring') : Returns openFlag ring pc ring' := by
  obtain ⟨n, hn⟩ := h
  exact ⟨n + 1, hn⟩

theorem returns_idle (ring : TxRing) : Returns openFlag ring .idle ring := ⟨0, rfl⟩

/-! ## `_vcom_putc` alone -/

/-- The bytes that `_vcom_putc` puts. -/
def putcBytes (openFlag : BitVec 16) (c : UInt8) : List UInt8 :=
  if c = lf ∧ hasFlag openFlag rtDeviceFlagStream then [cr, c] else [c]

/-- `_vcom_putc` returns, its bytes put. -/
theorem returns_putc (openFlag : BitVec 16) (ring : TxRing) (c : UInt8) :
    Returns openFlag ring (.putc c) ((putcBytes openFlag c).foldl RingQueue.putcharForce ring) := by
  unfold putcBytes
  by_cases hc : c = lf ∧ hasFlag openFlag rtDeviceFlagStream
  · rw [if_pos hc]
    apply Returns.step
    simp only [writerStep, if_true, hc, and_self]
    exact .step (.step (.step (.step (returns_idle _))))
  · rw [if_neg hc]
    apply Returns.step
    simp only [writerStep, if_true, hc, if_false]
    exact .step (.step (returns_idle _))

/-- Bytes put one by one: the last that fit. -/
theorem queue_foldl_putcharForce (bytes : List UInt8) (ring : TxRing) :
    (bytes.foldl RingQueue.putcharForce ring).queue =
      keepLast cdcTxBufsize (ring.queue ++ bytes) := by
  induction bytes generalizing ring with
  | nil => rw [List.append_nil, keepLast_of_length_le ring.length_queue_le]; rfl
  | cons c bytes ih =>
    rw [List.foldl_cons, ih, RingQueue.queue_putcharForce, keepLast_append_keepLast,
      List.append_assoc, List.singleton_append]

/-- A sequence of `_vcom_putc` in stream mode puts the translated bytes. -/
theorem callsReturn_putc (hstream : hasFlag openFlag rtDeviceFlagStream = true)
    (bytes : List UInt8) (ring ring' : TxRing) :
    CallsReturn openFlag ring (bytes.map .putc) ring' ↔
      ring' = (translated bytes).foldl RingQueue.putcharForce ring := by
  induction bytes generalizing ring with
  | nil => exact eq_comm
  | cons c bytes ih =>
    have hput : putcBytes openFlag c = if c = lf then [cr, c] else [c] := by
      simp only [putcBytes, hstream, and_true]
    have hret := returns_putc openFlag ring c
    rw [hput] at hret
    rw [translated, List.flatMap_cons, List.foldl_append]
    constructor
    · rintro ⟨mid, hmid, hrest⟩
      rw [hret.unique hmid]
      exact (ih mid).mp hrest
    · intro h
      exact ⟨_, hret, (ih _).mpr h⟩

/-! ## `_vcom_tx` alone -/

theorem TxFrame.le_scan (f : TxFrame) : f.ptr ≤ f.scan := Nat.le_add_right _ _

/-- The loop over the newlines, to its end. -/
def txLoop (ring : TxRing) (f : TxFrame) : TxRing × TxFrame :=
  if f.ptr < f.buf.length then
    if f.scan < f.buf.length then
      let put := TxFrame.put { f with ptr := f.scan } ring f.scan
      if put.2.size = put.2.ptr then
        if 2 ≤ rtRingbufferSpaceLen put.1.val then
          txLoop (put.1.putForce [cr, lf])
            { put.2 with size := put.2.size + 1, ptr := put.2.ptr + 1 }
        else (put.1, { put.2 with empty := true })
      else (put.1, { put.2 with empty := true })
    else (ring, { f with ptr := f.scan })
  else (ring, f)
termination_by f.buf.length - f.ptr
decreasing_by
  have hle := f.le_scan
  simp only [TxFrame.put]
  omega

/-- The put behind the loop. -/
def TxFrame.tail (f : TxFrame) (ring : TxRing) : TxRing × TxFrame :=
  if f.size < f.buf.length ∧ f.empty = false then f.put ring f.buf.length else (ring, f)

/-- `_vcom_tx` on a connected port, up to its event. It answers the ring, and the frame with the
`size` that it returns. -/
def txCall (openFlag : BitVec 16) (ring : TxRing) (buf : List UInt8) : TxRing × TxFrame :=
  let f : TxFrame := { buf := buf.take cdcBulkinMaxsize, ptr := 0, size := 0, empty := false }
  let looped := if hasFlag openFlag rtDeviceFlagStream then txLoop ring f else (ring, f)
  looped.2.tail looped.1

/-- The last part of `_vcom_tx` is put, and the call returns. -/
theorem returns_tail (openFlag : BitVec 16) (f : TxFrame) (ring : TxRing) :
    Returns openFlag ring (.txTail f) (f.tail ring).1 := by
  apply Returns.step
  unfold TxFrame.tail
  by_cases hrest : f.size < f.buf.length ∧ f.empty = false
  · simp only [writerStep, hrest, and_self, if_true]
    exact .step (returns_idle _)
  · simp only [writerStep, hrest, if_false]
    exact .step (returns_idle _)

/-- A pass of the loop that finds a newline: what precedes it is put, and then the newline. -/
theorem returns_of_pass {openFlag : BitVec 16} {ring ring' : TxRing} {f : TxFrame}
    (hptr : f.ptr < f.buf.length) (hscan : f.scan < f.buf.length)
    (h : Returns openFlag
      ((TxFrame.put { f with ptr := f.scan } ring f.scan).2.crlf
        (TxFrame.put { f with ptr := f.scan } ring f.scan).1).1
      ((TxFrame.put { f with ptr := f.scan } ring f.scan).2.crlf
        (TxFrame.put { f with ptr := f.scan } ring f.scan).1).2 ring') :
    Returns openFlag ring (.txScan f) ring' := by
  apply Returns.step
  simp only [writerStep, hptr, hscan, if_true]
  exact .step (.step h)

/-- The steps of the loop. By induction along the loop. -/
theorem returns_of_txLoop {openFlag : BitVec 16} {ring ring' : TxRing} {f : TxFrame}
    (h : Returns openFlag (txLoop ring f).1 (.txTail (txLoop ring f).2) ring') :
    Returns openFlag ring (.txScan f) ring' := by
  induction ring, f using txLoop.induct with
  | case1 ring f hptr hscan put hall hroom ih =>
    rw [txLoop, if_pos hptr, if_pos hscan] at h
    simp only [put] at hall hroom ih
    simp only at h
    rw [if_pos hall, if_pos hroom] at h
    apply returns_of_pass hptr hscan
    rw [TxFrame.crlf, if_pos hall, if_pos hroom]
    exact ih h
  | case2 ring f hptr hscan put hall hroom =>
    rw [txLoop, if_pos hptr, if_pos hscan] at h
    simp only [put] at hall hroom
    simp only at h
    rw [if_pos hall, if_neg hroom] at h
    apply returns_of_pass hptr hscan
    rw [TxFrame.crlf, if_pos hall, if_neg hroom]
    exact h
  | case3 ring f hptr hscan put hall =>
    rw [txLoop, if_pos hptr, if_pos hscan] at h
    simp only [put] at hall
    simp only at h
    rw [if_neg hall] at h
    apply returns_of_pass hptr hscan
    rw [TxFrame.crlf, if_neg hall]
    exact h
  | case4 ring f hptr hscan =>
    rw [txLoop, if_pos hptr, if_neg hscan] at h
    apply Returns.step
    simp only [writerStep, hptr, hscan, if_true, if_false]
    exact h
  | case5 ring f hptr =>
    rw [txLoop, if_neg hptr] at h
    apply Returns.step
    simp only [writerStep, hptr, if_false]
    exact h

/-- The steps of a call. -/
theorem returns_txCall (openFlag : BitVec 16) (ring : TxRing) (buf : List UInt8) :
    Returns openFlag ring (.tx buf) (txCall openFlag ring buf).1 := by
  apply Returns.step
  unfold txCall
  by_cases hstream : hasFlag openFlag rtDeviceFlagStream = true
  · simp only [writerStep, if_true, hstream]
    exact returns_of_txLoop (returns_tail openFlag _ _)
  · simp only [writerStep, if_true, hstream]
    exact returns_tail openFlag _ _

/-- A put of a frame that has room: the bytes up to `upto` are in the ring and counted. -/
theorem TxFrame.put_eq (f : TxFrame) (ring : TxRing) {upto : Nat} (hle : f.size ≤ upto)
    (hupto : upto ≤ f.buf.length) (hroom : ring.queue.length + (upto - f.size) ≤ cdcTxBufsize) :
    (f.put ring upto).1.queue = ring.queue ++ (f.buf.drop f.size).take (upto - f.size) ∧
      (f.put ring upto).2 = { f with size := upto } := by
  have hlen : ((f.buf.drop f.size).take (upto - f.size)).length = upto - f.size := by
    rw [List.length_take, List.length_drop]
    omega
  refine ⟨RingQueue.queue_putForce ring (by rw [hlen]; exact hroom), ?_⟩
  rw [TxFrame.put]
  simp only [RingQueue.putForce_snd ring (by rw [hlen]; omega), hlen]
  rw [Nat.add_sub_cancel' hle]

/-- The rest of a frame without a newline. -/
theorem TxFrame.tail_eq (f : TxFrame) (hempty : f.empty = false) (hsize : f.size ≤ f.buf.length)
    (ring : TxRing) (hroom : ring.queue.length + (f.buf.length - f.size) ≤ cdcTxBufsize) :
    (f.tail ring).1.queue = ring.queue ++ f.buf.drop f.size ∧
      (f.tail ring).2.size = f.buf.length := by
  by_cases hlt : f.size < f.buf.length
  · obtain ⟨hqueue, hframe⟩ := f.put_eq ring (Nat.le_of_lt hlt) (Nat.le_refl _) hroom
    rw [TxFrame.tail, if_pos ⟨hlt, hempty⟩, hqueue, hframe,
      List.take_of_length_le (Nat.le_of_eq List.length_drop)]
    exact ⟨rfl, rfl⟩
  · rw [TxFrame.tail, if_neg fun h => hlt h.1, List.drop_eq_nil_of_le (by omega), List.append_nil]
    exact ⟨rfl, Nat.le_antisymm hsize (Nat.not_lt.mp hlt)⟩

/-- The search for the next newline: there is none, or the string is cut at the first one. -/
theorem newline_cases (l : List UInt8) :
    (lf ∉ l ∧ l.takeWhile (· ≠ lf) = l) ∨
      ∃ seg rest, l = seg ++ lf :: rest ∧ lf ∉ seg ∧ l.takeWhile (· ≠ lf) = seg := by
  induction l with
  | nil => exact .inl ⟨List.not_mem_nil, rfl⟩
  | cons c l ih =>
    by_cases hc : c = lf
    · exact .inr ⟨[], l, by rw [hc]; rfl, List.not_mem_nil, by simp only [hc, List.takeWhile_cons,
        ne_eq, not_true_eq_false, decide_false, Bool.false_eq_true, if_false]⟩
    · have htake : (c :: l).takeWhile (· ≠ lf) = c :: l.takeWhile (· ≠ lf) := by
        simp only [List.takeWhile_cons, ne_eq, hc, not_false_eq_true, decide_true, if_true]
      have hmem : ∀ t, lf ∉ t → lf ∉ c :: t := fun t ht hm =>
        (List.mem_cons.mp hm).elim (fun he => hc he.symm) ht
      rcases ih with ⟨hno, hall⟩ | ⟨seg, rest, hl, hno, hseg⟩
      · exact .inl ⟨hmem l hno, by rw [htake, hall]⟩
      · exact .inr ⟨c :: seg, rest, by rw [hl]; rfl, hmem seg hno, by rw [htake, hseg]⟩

/-- A pass of the loop that finds a newline with room for its translation: what precedes it and
the translated newline are put, and the search goes on behind it. -/
theorem txLoop_newline {buf seg rest : List UInt8} {k : Nat}
    (hsplit : buf.drop k = seg ++ lf :: rest)
    (hseg : (buf.drop k).takeWhile (· ≠ lf) = seg) (ring : TxRing)
    (hroom : ring.queue.length + seg.length + 2 ≤ cdcTxBufsize) :
    ∃ ring₂ : TxRing, ring₂.queue = ring.queue ++ seg ++ [cr, lf] ∧
      txLoop ring ⟨buf, k, k, false⟩ =
        txLoop ring₂ ⟨buf, k + seg.length + 1, k + seg.length + 1, false⟩ := by
  have hlen : buf.length - k = seg.length + (rest.length + 1) := by
    rw [← List.length_drop, hsplit, List.length_append, List.length_cons]
  have hscan : TxFrame.scan ⟨buf, k, k, false⟩ = k + seg.length := by
    rw [TxFrame.scan]
    simp only [hseg]
  obtain ⟨hput, hframe⟩ := TxFrame.put_eq ⟨buf, k + seg.length, k, false⟩ ring
    (Nat.le_add_right k seg.length) (by simp only; omega) (by simp only; omega)
  simp only [Nat.add_sub_cancel_left, hsplit, List.take_left] at hput
  generalize hring₁ : (TxFrame.put ⟨buf, k + seg.length, k, false⟩ ring (k + seg.length)).1 = ring₁
    at hput
  have hspace : 2 ≤ rtRingbufferSpaceLen ring₁.val := by
    rw [RingQueue.spaceLen_eq, hput, List.length_append]
    omega
  refine ⟨ring₁.putForce [cr, lf], ?_, ?_⟩
  · rw [RingQueue.queue_putForce ring₁, hput]
    rw [RingQueue.spaceLen_eq] at hspace
    simp only [List.length_cons, List.length_nil]
    omega
  · rw [txLoop, hscan, if_pos (by simp only; omega), if_pos (by simp only; omega)]
    simp only [hframe, hring₁, if_true, hspace]

/-- The call behind the bytes it has passed, by induction on the bytes in front of the search: what
it has passed is in the ring, translated, and the rest follows. -/
theorem txLoop_spec (q buf : List UInt8) (hroom : q.length + 2 * buf.length ≤ cdcTxBufsize)
    (d : Nat) :
    ∀ (k : Nat) (ring : TxRing), buf.length - k = d → k ≤ buf.length →
      ring.queue = q ++ translated (buf.take k) →
      let looped := txLoop ring ⟨buf, k, k, false⟩
      (looped.2.tail looped.1).1.queue = q ++ translated buf ∧
        (looped.2.tail looped.1).2.size = buf.length := by
  induction d using Nat.strongRecOn with
  | ind d ih =>
    intro k ring hd hk hq
    have hused : ring.queue.length ≤ q.length + 2 * k := by
      have := length_translated_le (buf.take k)
      rw [List.length_take] at this
      rw [hq, List.length_append]
      omega
    rcases newline_cases (buf.drop k) with ⟨hno, hall⟩ | ⟨seg, rest, hsplit, hno, hseg⟩
    · -- no newline is left
      have hscan : TxFrame.scan ⟨buf, k, k, false⟩ = buf.length := by
        rw [TxFrame.scan]
        simp only [hall, List.length_drop]
        omega
      have hend : txLoop ring ⟨buf, k, k, false⟩ = (ring, ⟨buf, buf.length, k, false⟩) := by
        rw [txLoop, hscan]
        simp only [Nat.lt_irrefl, if_false]
        split
        · rfl
        · rw [show k = buf.length by omega]
      obtain ⟨hqueue, hsize⟩ := TxFrame.tail_eq ⟨buf, buf.length, k, false⟩ rfl hk ring
        (by simp only; omega)
      rw [hend]
      refine ⟨?_, hsize⟩
      rw [hqueue, hq, List.append_assoc, ← translated_of_not_mem hno, ← translated_append,
        List.take_append_drop]
    · have hlen : buf.length - k = seg.length + (rest.length + 1) := by
        rw [← List.length_drop, hsplit, List.length_append, List.length_cons]
      obtain ⟨ring₂, hring₂, hpass⟩ := txLoop_newline hsplit hseg ring (by omega)
      have htake : buf.take (k + seg.length + 1) = buf.take k ++ (seg ++ [lf]) := by
        rw [Nat.add_assoc, List.take_add, hsplit, List.take_append,
          List.take_of_length_le (Nat.le_succ _), Nat.add_sub_cancel_left]
        rfl
      rw [hpass]
      exact ih (buf.length - (k + seg.length + 1)) (by omega) (k + seg.length + 1) ring₂ rfl
        (by omega) (by
          rw [hring₂, hq, htake, translated_append, translated_append, translated_of_not_mem hno]
          simp only [List.append_assoc]
          rfl)

/-- What `_vcom_tx` puts of its buffer. -/
def txBytes (openFlag : BitVec 16) (buf : List UInt8) : List UInt8 :=
  if hasFlag openFlag rtDeviceFlagStream then translated (buf.take cdcBulkinMaxsize)
  else buf.take cdcBulkinMaxsize

/-- A call with room for two bytes each puts what it takes of its buffer, in stream mode translated,
and counts it. -/
theorem txCall_spec (openFlag : BitVec 16) (buf : List UInt8) (ring : TxRing)
    (hroom : ring.queue.length + 2 * (buf.take cdcBulkinMaxsize).length ≤ cdcTxBufsize) :
    (txCall openFlag ring buf).1.queue = ring.queue ++ txBytes openFlag buf ∧
      (txCall openFlag ring buf).2.size = (buf.take cdcBulkinMaxsize).length := by
  unfold txCall txBytes
  by_cases hstream : hasFlag openFlag rtDeviceFlagStream = true
  · simp only [hstream, if_true]
    exact txLoop_spec ring.queue (buf.take cdcBulkinMaxsize) hroom _ 0 ring rfl (Nat.zero_le _)
      (List.append_nil _).symm
  · simp only [hstream]
    exact TxFrame.tail_eq ⟨buf.take cdcBulkinMaxsize, 0, 0, false⟩ rfl (Nat.zero_le _) ring
      (by simp only; omega)

/-- `_vcom_tx` in stream mode puts the translated bytes. -/
theorem returns_tx (hstream : hasFlag openFlag rtDeviceFlagStream = true) (buf : List UInt8)
    (hle : buf.length ≤ cdcBulkinMaxsize) (ring : TxRing)
    (hroom : ring.queue.length + 2 * buf.length ≤ cdcTxBufsize) :
    ∃ ring', Returns openFlag ring (.tx buf) ring' ∧
      ring'.queue = ring.queue ++ translated buf := by
  have hall : buf.take cdcBulkinMaxsize = buf := List.take_of_length_le hle
  refine ⟨_, returns_txCall openFlag ring buf, ?_⟩
  rw [(txCall_spec openFlag buf ring (by rw [hall]; exact hroom)).1, txBytes, if_pos hstream, hall]

/-! ## The three paths -/

/-- The framework's polling path translates what the driver translates again. -/
theorem serialPollTx_eq (hstream : hasFlag openFlag rtDeviceFlagStream = true) (s : List UInt8) :
    serialPollTx openFlag s = (translated s).map .putc := by
  rw [serialPollTx, translated, List.map_flatMap]
  congr 1
  funext c
  by_cases hc : c = lf
  · simp only [hc, hstream, and_self, if_true, List.map_cons, List.map_nil]
  · simp only [hc, false_and, if_false, List.map_cons, List.map_nil]

/-- Bytes that fit are appended, whichever way they are put one by one. -/
theorem callsReturn_putc_appends (hstream : hasFlag openFlag rtDeviceFlagStream = true)
    (bytes : List UInt8) (ring : TxRing)
    (hroom : ring.queue.length + (translated bytes).length ≤ cdcTxBufsize) :
    ∃ ring', CallsReturn openFlag ring (bytes.map .putc) ring' ∧
      ring'.queue = ring.queue ++ translated bytes := by
  refine ⟨_, (callsReturn_putc hstream bytes ring _).mpr rfl, ?_⟩
  rw [queue_foldl_putcharForce, keepLast_of_length_le]
  rw [List.length_append]
  exact hroom

/-- Translating twice is not translating once, even for a queue that keeps only the last bytes:
the lengths differ, or the whole buffer is newlines. -/
theorem keepLast_translated_twice {s : List UInt8} (hmem : lf ∈ s)
    (hlen : 2 * s.length ≤ cdcTxBufsize) :
    keepLast cdcTxBufsize (translated (translated s)) ≠ translated s := by
  intro heq
  have hpos : 0 < s.count lf := List.count_pos_iff.mpr hmem
  have hle : s.count lf ≤ s.length := List.count_le_length
  have hlength := congrArg List.length heq
  rw [length_keepLast, length_translated (translated s), count_translated,
    length_translated] at hlength
  have hcount : s.count lf = s.length := by omega
  have hhalf : s.length = 512 := by
    simp only [cdcTxBufsize] at hlen hlength
    omega
  have hall : s = List.replicate 512 lf := by
    rw [← hhalf]
    exact List.eq_replicate_iff.mpr ⟨rfl, fun b hb => (List.count_eq_length.mp hcount b hb).symm⟩
  rw [hall] at heq
  exact absurd heq (by decide +kernel)

/-- The empty transmit ring, as `rt_usb_vcom_init` leaves it. -/
def txRingInit : TxRing := .empty cdcTxBufsize (by decide) (by decide)

theorem queue_txRingInit : txRingInit.queue = [] := RingQueue.queue_empty _ _

/-- The three transmit paths and the newline: in stream mode, writing `s` with room for two
bytes each appends the translated string in every state exactly when the path is the
interrupt or the DMA one, or there is no newline in `s`. -/
theorem rtSerialWrite_appends_iff (openFlag : BitVec 16)
    (hstream : hasFlag openFlag rtDeviceFlagStream = true) (s : List UInt8)
    (hlen : 2 * s.length ≤ cdcTxBufsize)
    (hdma : hasFlag openFlag rtDeviceFlagIntTx = false →
      hasFlag openFlag rtDeviceFlagDmaTx = true → s.length ≤ cdcBulkinMaxsize) :
    (∀ ring : TxRing, ring.queue.length + 2 * s.length ≤ cdcTxBufsize →
      ∃ ring', CallsReturn openFlag ring (rtSerialWrite openFlag false s) ring' ∧
        ring'.queue = ring.queue ++ translated s) ↔
    (hasFlag openFlag rtDeviceFlagIntTx = true ∨ hasFlag openFlag rtDeviceFlagDmaTx = true ∨
      lf ∉ s) := by
  have htrans := length_translated_le s
  constructor
  · intro h
    by_cases hint : hasFlag openFlag rtDeviceFlagIntTx = true
    · exact .inl hint
    by_cases hdmaTx : hasFlag openFlag rtDeviceFlagDmaTx = true
    · exact .inr (.inl hdmaTx)
    refine .inr (.inr fun hmem => ?_)
    have hne : s ≠ [] := fun he => by rw [he] at hmem; cases hmem
    obtain ⟨ring', hcalls, hqueue⟩ := h txRingInit (by
      rw [queue_txRingInit, List.length_nil, Nat.zero_add]
      exact hlen)
    rw [rtSerialWrite, if_neg hne, if_neg hint, if_neg hdmaTx, serialPollTx_eq hstream] at hcalls
    rw [(callsReturn_putc hstream _ _ _).mp hcalls, queue_foldl_putcharForce,
      queue_txRingInit, List.nil_append, List.nil_append] at hqueue
    exact keepLast_translated_twice hmem hlen hqueue
  · intro h ring hroom
    unfold rtSerialWrite
    by_cases hne : s = []
    · rw [if_pos hne, hne]
      exact ⟨ring, rfl, (List.append_nil _).symm⟩
    rw [if_neg hne]
    by_cases hint : hasFlag openFlag rtDeviceFlagIntTx = true
    · rw [if_pos hint]
      exact callsReturn_putc_appends hstream s ring (by omega)
    rw [if_neg hint]
    by_cases hdmaTx : hasFlag openFlag rtDeviceFlagDmaTx = true
    · rw [if_pos hdmaTx]
      obtain ⟨ring', hret, hqueue⟩ := returns_tx hstream s
        (hdma (Bool.eq_false_iff.mpr hint) hdmaTx) ring hroom
      exact ⟨ring', ⟨ring', hret, rfl⟩, hqueue⟩
    · have hno : lf ∉ s := (h.resolve_left hint).resolve_left hdmaTx
      have hsame := translated_of_not_mem hno
      rw [if_neg hdmaTx, serialPollTx_eq hstream, hsame]
      obtain ⟨ring', hcalls, hqueue⟩ := callsReturn_putc_appends hstream s ring (by omega)
      rw [hsame] at hqueue
      exact ⟨ring', hcalls, hqueue⟩

/-- A newline through the interrupt path, into the empty ring. -/
theorem rtSerialWrite_appends_interrupt :
    ∃ ring', CallsReturn 0x440 txRingInit (rtSerialWrite 0x440 false [0x41, lf]) ring' ∧
      ring'.queue = txRingInit.queue ++ [0x41, cr, lf] :=
  (rtSerialWrite_appends_iff 0x440 (by decide) [0x41, lf] (by decide) (by decide)).mpr
    (.inl (by decide)) txRingInit (by decide +kernel)

/-- A newline through the polling path, into the empty ring: `\r\r\n`. -/
theorem rtSerialWrite_polling_translates_twice :
    ¬ ∀ (openFlag : BitVec 16) (s : List UInt8) (ring : TxRing),
      hasFlag openFlag rtDeviceFlagStream = true → s.length ≤ cdcBulkinMaxsize →
      ring.queue.length + 2 * s.length ≤ cdcTxBufsize →
      ∃ ring', CallsReturn openFlag ring (rtSerialWrite openFlag false s) ring' ∧
        ring'.queue = ring.queue ++ translated s := by
  intro h
  obtain ⟨ring', hcalls, hqueue⟩ := h rtDeviceFlagStream [lf] txRingInit (by decide) (by decide)
    (by decide +kernel)
  have hring : ring' = [cr, cr, lf].foldl RingQueue.putcharForce txRingInit :=
    (callsReturn_putc (by decide : hasFlag rtDeviceFlagStream rtDeviceFlagStream = true)
      [cr, lf] _ _).mp hcalls
  rw [hring] at hqueue
  exact absurd hqueue (by decide +kernel)

end Runs

end RtVcom.Vcom

import Mathlib.Logic.Function.Basic
import RtVcom.Vcom.Transfer

/-!
# What the host receives

The stream from the writers to the host, through the ring, the transmit thread and the controller.
A history goes along with the machine of `Vcom.Transmitter`: `puts` are the bytes that went into the
ring, each with its writer, and `texts w` is what the calls of writer `w` were to put, fixed when
the call looks at the open flags and at `data->connected`.

A call owes the ring a certain text (`WriterPc.pending`). While the ring has room for what a step
puts, a step pays a part of it, and nothing else (`writerStep_pays`). The law is `vcomTx_stream`:
what was put is what the host has received, what is under way, and what is in the ring, in this
order; and every writer has put its texts, in order, up to what its call still owes.
-/

namespace RtVcom.Vcom

open RtVcom.Lib RtVcom.Kernel RtVcom.Driver RtVcom.Serial RtVcom.Usb

/-! ## What a call owes -/

/-- What a call is to put, at its beginning. -/
def WriterPc.text (connected : Bool) (openFlag : BitVec 16) : WriterPc → List UInt8
  | .putc c => if connected then putcBytes openFlag c else []
  | .tx buf => if connected then txBytes openFlag buf else []
  | _ => []

/-- What a call behind its beginning has still to put. -/
def WriterPc.pending : WriterPc → List UInt8
  | .putCr c => [cr, c]
  | .sendCr c | .putCh c => [c]
  | .txScan f | .txPut f | .txCrlf f => translated (f.buf.drop f.size)
  | .txTail f => f.buf.drop f.size
  | _ => []

/-- What a step puts into the ring. -/
def WriterPc.puts (ring : TxRing) : WriterPc → List UInt8
  | .putCr _ => [cr]
  | .putCh c => [c]
  | .txPut f => (f.buf.drop f.size).take (f.ptr - f.size)
  | .txCrlf f => if f.size = f.ptr ∧ 2 ≤ rtRingbufferSpaceLen ring.val then [cr, lf] else []
  | .txTail f =>
    if f.size < f.buf.length ∧ f.empty = false then
      (f.buf.drop f.size).take (f.buf.length - f.size)
    else []
  | _ => []

/-- The room that a step needs in order to put all of it. -/
def WriterPc.need : WriterPc → Nat
  | .putCr _ | .putCh _ => 1
  | .txPut f => f.ptr - f.size
  | .txCrlf _ => 2
  | .txTail f => f.buf.length - f.size
  | _ => 0

/-- A call that has put all that it counted: `size` is at the place where the search goes on, and
behind the search there is the newline that it found. -/
def WriterPc.Placed : WriterPc → Prop
  | .txScan f => f.size = f.ptr ∧ f.empty = false
  | .txPut f => f.empty = false ∧ f.size ≤ f.ptr ∧
      ∃ seg rest, f.buf.drop f.size = seg ++ lf :: rest ∧ lf ∉ seg ∧ seg.length = f.ptr - f.size
  | .txCrlf f => f.empty = false ∧ f.size = f.ptr ∧ ∃ rest, f.buf.drop f.size = lf :: rest
  | .txTail f => f.empty = false
  | _ => True

/-- A call has its text at its beginning only, where it owes nothing yet. -/
theorem text_or_pending (connected : Bool) (openFlag : BitVec 16) (pc : WriterPc) :
    pc.text connected openFlag = [] ∨ pc.pending = [] := by
  cases pc with
  | putc | tx => exact .inr rfl
  | _ => exact .inl rfl

theorem placed_driverEntry (c : DriverCall) : (driverEntry c).Placed := by
  cases c <;> trivial

theorem pending_driverEntry (c : DriverCall) : (driverEntry c).pending = [] := by
  cases c <;> rfl

/-- The search stops at the first newline behind `size`, or at the end. -/
theorem scan_cases (f : TxFrame) (hsize : f.size = f.ptr) :
    (lf ∉ f.buf.drop f.size ∧ f.buf.length ≤ f.scan) ∨
      ∃ seg rest, f.buf.drop f.size = seg ++ lf :: rest ∧ lf ∉ seg ∧
        f.scan = f.size + seg.length ∧ f.scan < f.buf.length := by
  have hlen : (f.buf.drop f.size).length = f.buf.length - f.size := List.length_drop
  rcases newline_cases (f.buf.drop f.size) with ⟨hno, htake⟩ | ⟨seg, rest, hsplit, hno, htake⟩
  · left
    refine ⟨hno, ?_⟩
    rw [TxFrame.scan, ← hsize, htake, hlen]
    omega
  · right
    have hscan : f.scan = f.size + seg.length := by rw [TxFrame.scan, ← hsize, htake]
    refine ⟨seg, rest, hsplit, hno, hscan, ?_⟩
    rw [hsplit, List.length_append, List.length_cons] at hlen
    omega

/-- A put with room for it. -/
theorem putForce_of_room {ring : TxRing} {bytes : List UInt8} {n : Nat} (hle : bytes.length ≤ n)
    (hroom : ring.queue.length + n ≤ cdcTxBufsize) :
    (ring.putForce bytes).queue = ring.queue ++ bytes :=
  RingQueue.queue_putForce ring (by omega)

/-- With room a forced character is put behind the others. -/
theorem putcharForce_of_room {ring : TxRing} (c : UInt8)
    (hroom : ring.queue.length + 1 ≤ cdcTxBufsize) :
    (ring.putcharForce c).queue = ring.queue ++ [c] := by
  rw [RingQueue.queue_putcharForce, keepLast_of_length_le]
  rw [List.length_append, List.length_singleton]
  exact hroom

/-- What a step with room leaves: the ring with what it puts, and a call that owes the rest. -/
structure Pays (connected : Bool) (openFlag : BitVec 16) (ring : TxRing) (pc : WriterPc) : Prop where
  queue : (writerStep connected openFlag ring pc).ring.queue = ring.queue ++ pc.puts ring
  placed : (writerStep connected openFlag ring pc).pc.Placed
  owed : pc.text connected openFlag ++ pc.pending =
    pc.puts ring ++ (writerStep connected openFlag ring pc).pc.pending

variable {connected : Bool} {openFlag : BitVec 16} {ring : TxRing}

/-- `_vcom_putc` puts what it is owed. -/
theorem pays_putc (c : UInt8) : Pays connected openFlag ring (.putc c) := by
  cases connected with
  | false => exact ⟨(List.append_nil _).symm, trivial, rfl⟩
  | true =>
    by_cases hcr : c = lf ∧ hasFlag openFlag rtDeviceFlagStream
    · refine ⟨(List.append_nil _).symm, ?_, ?_⟩
      · simp only [writerStep, if_true, if_pos hcr]
        trivial
      · simp only [writerStep, WriterPc.text, putcBytes, WriterPc.pending, WriterPc.puts, if_true,
          if_pos hcr, List.append_nil, List.nil_append]
    · refine ⟨(List.append_nil _).symm, ?_, ?_⟩
      · simp only [writerStep, if_true, if_neg hcr]
        trivial
      · simp only [writerStep, WriterPc.text, putcBytes, WriterPc.pending, WriterPc.puts, if_true,
          if_neg hcr, List.append_nil, List.nil_append]

theorem pays_tx (buf : List UInt8) : Pays connected openFlag ring (.tx buf) := by
  cases connected with
  | false => exact ⟨(List.append_nil _).symm, trivial, rfl⟩
  | true =>
    by_cases hstream : hasFlag openFlag rtDeviceFlagStream
    · refine ⟨(List.append_nil _).symm, ?_, ?_⟩
      · simp only [writerStep, if_true, if_pos hstream]
        exact ⟨rfl, rfl⟩
      · simp only [writerStep, WriterPc.text, txBytes, WriterPc.pending, WriterPc.puts, if_true,
          if_pos hstream, List.append_nil, List.nil_append, List.drop_zero]
    · refine ⟨(List.append_nil _).symm, ?_, ?_⟩
      · simp only [writerStep, if_true, if_neg hstream]
        rfl
      · simp only [writerStep, WriterPc.text, txBytes, WriterPc.pending, WriterPc.puts, if_true,
          if_neg hstream, List.append_nil, List.nil_append, List.drop_zero]

/-- The search puts nothing; what is behind the last newline is its own translation. -/
theorem pays_txScan {f : TxFrame} (h : WriterPc.Placed (.txScan f)) :
    Pays connected openFlag ring (.txScan f) := by
  obtain ⟨hsize, hempty⟩ := h
  refine ⟨(List.append_nil _).symm, ?_, ?_⟩
  · dsimp only [writerStep]
    rcases scan_cases f hsize with ⟨-, hend⟩ | ⟨seg, rest, hsplit, hno, hscan, hlt⟩
    · split
      · rw [if_neg (by omega)]
        exact hempty
      · exact hempty
    · rw [if_pos (by omega), if_pos hlt]
      refine ⟨hempty, by dsimp only; omega, seg, rest, hsplit, hno, ?_⟩
      dsimp only
      omega
  · dsimp only [writerStep, WriterPc.text, WriterPc.puts]
    rw [List.nil_append, List.nil_append]
    rcases scan_cases f hsize with ⟨hno, hend⟩ | ⟨seg, rest, hsplit, hno, hscan, hlt⟩
    · have hsame : WriterPc.pending (.txScan f) = f.buf.drop f.size := translated_of_not_mem hno
      split
      · rw [if_neg (by omega)]
        exact hsame
      · exact hsame
    · rw [if_pos (by omega), if_pos hlt]
      rfl

theorem pays_txPut {f : TxFrame} (h : WriterPc.Placed (.txPut f))
    (hroom : ring.queue.length + (f.ptr - f.size) ≤ cdcTxBufsize) :
    Pays connected openFlag ring (.txPut f) := by
  obtain ⟨hempty, hle, seg, rest, hsplit, hno, hlen⟩ := h
  have htotal : (f.buf.drop f.size).length = seg.length + (rest.length + 1) := by
    rw [hsplit, List.length_append, List.length_cons]
  rw [List.length_drop] at htotal
  obtain ⟨hqueue, hframe⟩ := f.put_eq ring hle (by omega) hroom
  have hseg : (f.buf.drop f.size).take (f.ptr - f.size) = seg := by
    rw [hsplit, ← hlen, List.take_left]
  have hrest : f.buf.drop f.ptr = lf :: rest := by
    have hdrop := congrArg (List.drop seg.length) hsplit
    rw [List.drop_drop, List.drop_left] at hdrop
    rw [← hdrop]
    congr 1
    omega
  refine ⟨hqueue, ?_, ?_⟩
  · dsimp only [writerStep]
    rw [hframe]
    exact ⟨hempty, rfl, rest, hrest⟩
  · dsimp only [writerStep, WriterPc.text, WriterPc.puts, WriterPc.pending]
    rw [hframe, hseg, List.nil_append, hrest, hsplit, translated_append, translated_of_not_mem hno]

/-- `_vcom_tx` puts the carriage return and the line feed that it owes. -/
theorem pays_txCrlf {f : TxFrame} (h : WriterPc.Placed (.txCrlf f))
    (hroom : ring.queue.length + 2 ≤ cdcTxBufsize) :
    Pays connected openFlag ring (.txCrlf f) := by
  obtain ⟨hempty, hsize, rest, hsplit⟩ := h
  have hspace : 2 ≤ rtRingbufferSpaceLen ring.val := by
    rw [RingQueue.spaceLen_eq]
    omega
  have hrest : f.buf.drop (f.size + 1) = rest := by
    rw [← List.drop_drop, hsplit, List.drop_one, List.tail_cons]
  have hputs : WriterPc.puts ring (.txCrlf f) = [cr, lf] := if_pos ⟨hsize, hspace⟩
  have hstep : writerStep connected openFlag ring (.txCrlf f) =
      ⟨ring.putForce [cr, lf], .txScan { f with size := f.size + 1, ptr := f.ptr + 1 }, false⟩ := by
    simp only [writerStep, TxFrame.crlf, if_pos hsize, if_pos hspace]
  refine ⟨?_, ?_, ?_⟩
  · rw [hstep, hputs]
    exact putForce_of_room (Nat.le_refl 2) hroom
  · rw [hstep]
    exact ⟨congrArg (· + 1) hsize, hempty⟩
  · rw [hstep, hputs]
    dsimp only [WriterPc.text, WriterPc.pending]
    rw [hrest, hsplit, List.nil_append]
    rfl

/-- `_vcom_tx` puts the part behind the last line feed. -/
theorem pays_txTail {f : TxFrame} (h : WriterPc.Placed (.txTail f))
    (hroom : ring.queue.length + (f.buf.length - f.size) ≤ cdcTxBufsize) :
    Pays connected openFlag ring (.txTail f) := by
  have hempty : f.empty = false := h
  by_cases hlt : f.size < f.buf.length
  · obtain ⟨hqueue, hframe⟩ := f.put_eq ring (Nat.le_of_lt hlt) (Nat.le_refl _) hroom
    have hputs : WriterPc.puts ring (.txTail f) =
        (f.buf.drop f.size).take (f.buf.length - f.size) := if_pos ⟨hlt, hempty⟩
    have hall : (f.buf.drop f.size).take (f.buf.length - f.size) = f.buf.drop f.size :=
      List.take_of_length_le (Nat.le_of_eq List.length_drop)
    have hstep : writerStep connected openFlag ring (.txTail f) =
        ⟨(f.put ring f.buf.length).1, .txSend (f.put ring f.buf.length).2, false⟩ := by
      simp only [writerStep, if_pos (And.intro hlt hempty)]
    refine ⟨?_, ?_, ?_⟩
    · rw [hstep, hputs]
      exact hqueue
    · rw [hstep]
      trivial
    · rw [hstep, hputs, hall]
      exact (List.append_nil _).symm
  · have hstep : writerStep connected openFlag ring (.txTail f) = ⟨ring, .txSend f, false⟩ := by
      simp only [writerStep, if_neg fun hrest : _ ∧ _ => hlt hrest.1]
    have hputs : WriterPc.puts ring (.txTail f) = [] := if_neg fun hrest => hlt hrest.1
    refine ⟨?_, ?_, ?_⟩
    · rw [hstep, hputs, List.append_nil]
    · rw [hstep]
      trivial
    · rw [hstep, hputs]
      exact List.drop_eq_nil_of_le (Nat.not_lt.mp hlt)

/-- Every step of a call pays a part of what the call owes. -/
theorem writerStep_pays {pc : WriterPc} (h : pc.Placed)
    (hroom : ring.queue.length + pc.need ≤ cdcTxBufsize) : Pays connected openFlag ring pc := by
  cases pc with
  | putc c => exact pays_putc c
  | putCr c => exact ⟨putcharForce_of_room cr hroom, trivial, rfl⟩
  | putCh c => exact ⟨putcharForce_of_room c hroom, trivial, rfl⟩
  | tx buf => exact pays_tx buf
  | txScan f => exact pays_txScan h
  | txPut f => exact pays_txPut h hroom
  | txCrlf f => exact pays_txCrlf h hroom
  | txTail f => exact pays_txTail h hroom
  | idle => exact ⟨(List.append_nil _).symm, trivial, rfl⟩
  | sendCr c => exact ⟨(List.append_nil _).symm, trivial, rfl⟩
  | sendCh => exact ⟨(List.append_nil _).symm, trivial, rfl⟩
  | txSend f => exact ⟨(List.append_nil _).symm, trivial, rfl⟩

/-! ## The history -/

/-- The transmit side with the bytes that went into the ring and the texts of the calls. -/
structure TxHistory where
  sys : VcomTx
  puts : List (Nat × UInt8)
  texts : Nat → List UInt8

/-- What a step adds to the history. -/
def TxHistory.next (h : TxHistory) (t : VcomTx) : VcomAction → TxHistory
  | .write w =>
    { sys := t
      puts := h.puts ++ ((h.sys.writers w).puts h.sys.ring).map (w, ·)
      texts := Function.update h.texts w
        (h.texts w ++ (h.sys.writers w).text h.sys.connected h.sys.openFlag) }
  | _ => { h with sys := t }

def txHistory : Machine TxHistory VcomAction where
  init := { sys := vcomSystem.init, puts := [], texts := fun _ => [] }
  step h a := (vcomStep h.sys a).map fun t => h.next t a

/-- The wait for the completion does not expire, the host stays connected, and the ring has room for
what a writer puts. -/
def Streams (h : TxHistory) (a : VcomAction) : Prop :=
  Steady h.sys a ∧
    match a with
    | .write w => h.sys.ring.queue.length + (h.sys.writers w).need ≤ cdcTxBufsize
    | _ => True

instance : DecidableRel Streams := fun _ a =>
  match a with
  | .write _ => inferInstanceAs (Decidable (_ ∧ _ ≤ _))
  | .call _ _ | .tx | .checked _ | .expire | .inComplete | .notify | .handle | .lineState _
  | .openFlags _ => inferInstanceAs (Decidable (_ ∧ True))

/-- The bytes of one writer. -/
def bytesOf (w : Nat) (puts : List (Nat × UInt8)) : List UInt8 :=
  (puts.filter (·.1 = w)).map Prod.snd

/-- The bytes of a writer in one history and then another. -/
theorem bytesOf_append (w : Nat) (puts more : List (Nat × UInt8)) :
    bytesOf w (puts ++ more) = bytesOf w puts ++ bytesOf w more := by
  rw [bytesOf, List.filter_append, List.map_append]
  rfl

theorem bytesOf_self (w : Nat) (bytes : List UInt8) : bytesOf w (bytes.map (w, ·)) = bytes := by
  have hall : (bytes.map (w, ·)).filter (·.1 = w) = bytes.map (w, ·) := by
    rw [List.filter_eq_self]
    intro x hx
    obtain ⟨c, -, rfl⟩ := List.mem_map.mp hx
    exact decide_eq_true rfl
  rw [bytesOf, hall, List.map_map]
  exact List.map_id _

theorem bytesOf_other {v w : Nat} (hne : v ≠ w) (bytes : List UInt8) :
    bytesOf v (bytes.map (w, ·)) = [] := by
  have hnone : (bytes.map (w, ·)).filter (·.1 = v) = [] := by
    rw [List.filter_eq_nil_iff]
    intro x hx
    obtain ⟨c, -, rfl⟩ := List.mem_map.mp hx
    exact fun heq => hne (of_decide_eq_true heq).symm
  rw [bytesOf, hnone]
  rfl

/-! ## What the other steps leave alone -/

/-- The driver operations remove nothing from the ring. -/
theorem perform_removed (ops : List UsbOp) (s : VcomTx) :
    (perform s ops).removed = s.removed := by
  induction ops generalizing s with
  | nil => rfl
  | cons op ops ih => cases op <;> exact ih _

/-- An event sent touches neither the ring nor the writers. -/
theorem sendEvent_frame (s : VcomTx) :
    (sendEvent s).ring = s.ring ∧ (sendEvent s).writers = s.writers ∧
      (sendEvent s).removed = s.removed := by
  unfold sendEvent
  split <;> exact ⟨rfl, rfl, rfl⟩

/-- Beyond its put a writer's step touches neither the ring nor the writers. -/
theorem stepWriter_frame (s : VcomTx) (w : Nat) :
    (stepWriter s w).ring = (writerPut s w).ring ∧
      (stepWriter s w).writers = (writerPut s w).writers ∧
      (stepWriter s w).removed = s.removed := by
  unfold stepWriter
  split
  · exact sendEvent_frame (writerPut s w)
  · exact ⟨rfl, rfl, rfl⟩

/-- Neither the writers nor the bytes that went into the ring, whether they are still there or were
taken out. -/
structure Untouched (s t : VcomTx) : Prop where
  writers : t.writers = s.writers
  bytes : t.removed ++ t.ring.queue = s.removed ++ s.ring.queue

/-- The driver operations touch no writer. -/
theorem untouched_perform {s u : VcomTx} (h : Untouched s u) (ops : List UsbOp) :
    Untouched s (perform u ops) := by
  obtain ⟨hring, -, hwriters, -, -⟩ := perform_frame ops u
  refine ⟨hwriters.trans h.writers, ?_⟩
  rw [perform_removed, hring]
  exact h.bytes

/-- The thread moves the front of the ring to its buffer. -/
theorem untouched_txGet (s : VcomTx) : Untouched s (txGet s) := by
  refine ⟨rfl, ?_⟩
  simp only [txGet, RingQueue.getFst_eq, RingQueue.queue_getSnd]
  rw [List.append_assoc, List.take_append_drop]

/-- A step of the thread touches no writer. -/
theorem untouched_tx {s t : VcomTx} (hstep : stepTx s = some t) : Untouched s t := by
  unfold stepTx at hstep
  cases htx : s.tx with
  | recv =>
    rw [htx] at hstep
    cases hstep
    unfold txRecv
    split <;> exact ⟨rfl, rfl⟩
  | get =>
    rw [htx] at hstep
    cases hstep
    exact untouched_txGet s
  | submit res =>
    rw [htx] at hstep
    cases hstep
    unfold txSubmit
    rcases rtUsbdIoRequest s.epIn with ⟨epIn, ops⟩
    refine untouched_perform ?_ ops
    exact ⟨rfl, rfl⟩
  | wait =>
    rw [htx] at hstep
    cases hstep
    unfold txWait
    split <;> exact ⟨rfl, rfl⟩
  | suspended | checking | waiting =>
    rw [htx] at hstep
    cases hstep
  | received | check | got | initWait | fill | woken | after =>
    rw [htx] at hstep
    cases hstep
    exact ⟨rfl, rfl⟩

theorem untouched_notify (s : VcomTx) (size : Nat) (rest : List Nat) :
    Untouched s (stepNotify s size rest) := by
  unfold stepNotify
  split
  · refine untouched_perform ?_ _
    exact ⟨rfl, rfl⟩
  · refine untouched_perform ?_ _
    exact ⟨rfl, rfl⟩

theorem untouched_handle (s : VcomTx) : Untouched s (stepHandle s) := by
  unfold stepHandle
  rcases epInHandler s.epIn with ⟨epIn, ops⟩
  refine untouched_perform ?_ ops
  exact ⟨rfl, rfl⟩

/-! ## The stream -/

/-- The ring was fed in the order of `puts`, and each call stands between what its writer has put and
what it owes. -/
structure TxHistory.Whole (h : TxHistory) : Prop where
  placed : ∀ w, (h.sys.writers w).Placed
  order : h.puts.map Prod.snd = h.sys.removed ++ h.sys.ring.queue
  texts : ∀ w, h.texts w = bytesOf w h.puts ++ (h.sys.writers w).pending

/-- The history of a new system is whole. -/
theorem whole_init : txHistory.init.Whole where
  placed _ := trivial
  order := queue_txRingInit.symm
  texts _ := rfl

/-- A step that touches no writer keeps it whole. -/
theorem TxHistory.Whole.untouched {h : TxHistory} (hw : h.Whole) {t : VcomTx}
    (hsame : Untouched h.sys t) : TxHistory.Whole { h with sys := t } := by
  refine ⟨fun w => ?_, ?_, fun w => ?_⟩
  · dsimp only
    rw [hsame.writers]
    exact hw.placed w
  · dsimp only
    rw [hsame.bytes]
    exact hw.order
  · dsimp only
    rw [hsame.writers]
    exact hw.texts w

/-- A writer begins a call, and has not looked at anything yet. -/
theorem TxHistory.Whole.call {h : TxHistory} (hw : h.Whole) {w : Nat} (c : DriverCall)
    (hidle : h.sys.writers w = .idle) :
    TxHistory.Whole { h with sys := { h.sys with
      writers := fun v => if v = w then driverEntry c else h.sys.writers v } } := by
  refine ⟨fun v => ?_, hw.order, fun v => ?_⟩
  · dsimp only
    split
    · exact placed_driverEntry c
    · exact hw.placed v
  · dsimp only
    by_cases hv : v = w
    · rw [if_pos hv, pending_driverEntry, hw.texts v, hv, hidle]
      rfl
    · rw [if_neg hv]
      exact hw.texts v

theorem TxHistory.Whole.write {h : TxHistory} (hw : h.Whole) {w : Nat}
    (hroom : h.sys.ring.queue.length + (h.sys.writers w).need ≤ cdcTxBufsize) :
    (h.next (stepWriter h.sys w) (.write w)).Whole := by
  obtain ⟨hring, hwriters, hremoved⟩ := stepWriter_frame h.sys w
  have hpays := @writerStep_pays h.sys.connected h.sys.openFlag _ _ (hw.placed w) hroom
  refine ⟨fun v => ?_, ?_, fun v => ?_⟩
  · dsimp only [TxHistory.next]
    rw [hwriters]
    dsimp only [writerPut]
    split
    · exact hpays.placed
    · exact hw.placed v
  · dsimp only [TxHistory.next]
    rw [hring, hremoved]
    dsimp only [writerPut]
    have htags : (((h.sys.writers w).puts h.sys.ring).map (w, ·)).map Prod.snd =
        (h.sys.writers w).puts h.sys.ring := by
      rw [List.map_map]
      exact List.map_id _
    rw [hpays.queue, List.map_append, hw.order, htags, List.append_assoc]
  · dsimp only [TxHistory.next]
    rw [hwriters, bytesOf_append]
    dsimp only [writerPut]
    by_cases hv : v = w
    · subst hv
      rw [Function.update_self, if_pos rfl, bytesOf_self, hw.texts v]
      have hswap : (h.sys.writers v).pending ++
          (h.sys.writers v).text h.sys.connected h.sys.openFlag =
          (h.sys.writers v).text h.sys.connected h.sys.openFlag ++ (h.sys.writers v).pending := by
        rcases text_or_pending h.sys.connected h.sys.openFlag (h.sys.writers v) with hnil | hnil
        · rw [hnil, List.append_nil, List.nil_append]
        · rw [hnil, List.append_nil, List.nil_append]
      rw [List.append_assoc, hswap, hpays.owed, List.append_assoc]
    · rw [Function.update_of_ne hv, if_neg hv, bytesOf_other hv, List.append_nil]
      exact hw.texts v

/-- What is not a step of a writer leaves the history as it is. -/
theorem whole_step (h : TxHistory) (a : VcomAction) (h' : TxHistory) (hw : h.Whole)
    (hok : Streams h a) (hstep : txHistory.step h a = some h') : h'.Whole := by
  obtain ⟨t, ht, rfl⟩ := Option.map_eq_some_iff.mp hstep
  cases vcomStep_cases ht with
  | call hidle => exact hw.call _ hidle
  | write => exact hw.write hok.2
  | tx htx => exact hw.untouched (untouched_tx htx)
  | notify => exact hw.untouched (untouched_notify ..)
  | handle => exact hw.untouched (untouched_handle _)
  | checked | expire | inComplete | lineState | openFlags => exact hw.untouched ⟨rfl, rfl⟩

/-- Without its history a run is one of the transmit side. -/
theorem reach_sys {h : TxHistory} (hr : txHistory.Reach Streams h) :
    vcomSystem.Reach Steady h.sys := by
  refine hr.invariant (P := fun h => vcomSystem.Reach Steady h.sys) .init ?_
  intro h a h' hreach hok hstep
  obtain ⟨t, ht, rfl⟩ := Option.map_eq_some_iff.mp hstep
  have hsys : (h.next t a).sys = t := by cases a <;> rfl
  rw [hsys]
  exact .step hreach hok.1 ht

/-- What was taken out of the ring is what the controller has sent, and what is under way. -/
theorem removed_of_steady {s : VcomTx} (h : vcomSystem.Reach Steady s) :
    s.removed = s.wire ++ s.unsent := by
  have hexcl := (h.mono noExpiry_of_steady).invariant (P := fun u => u.Wakeful ∧ u.Exclusive)
    ⟨wakeful_init, exclusive_init⟩ exclusive_step
  have hinit : vcomSystem.init.Undropped :=
    ⟨rfl, fun _ => queue_txRingInit, fun _ _ => rfl, fun _ _ he => TxPc.noConfusion he⟩
  have hdrop := h.invariant (P := fun u => u.Wakeful ∧ u.Undropped) ⟨wakeful_init, hinit⟩
    fun u a t hu hok hst => ⟨wakeful_step u a t hu.1 hst, undropped_step u a t hu.2 hu.1 hok hst⟩
  exact hexcl.2.bytes hdrop.2.dropped

/-- **The stream to the host.** In every run in which no wait expires, the host stays connected and
the ring has room for what is put into it, the host has received what the writers put, in order,
but for what is under way and in the ring; and each writer has put the texts of its calls, in
order, but for what its call still owes. -/
theorem vcomTx_stream {h : TxHistory} (hr : txHistory.Reach Streams h) :
    h.puts.map Prod.snd = h.sys.wire ++ h.sys.unsent ++ h.sys.ring.queue ∧
      ∀ w, h.texts w = bytesOf w h.puts ++ (h.sys.writers w).pending := by
  have hwhole := hr.invariant whole_init whole_step
  refine ⟨?_, hwhole.texts⟩
  rw [hwhole.order, removed_of_steady (reach_sys hr)]

/-- Two writers in stream mode, a newline and a letter, and the host has all three bytes. -/
theorem vcomTx_stream_two :
    ∃ h, txHistory.Reach Streams h ∧ h.sys.wire = [cr, lf, 0x41] ∧
      h.puts.map Prod.snd = h.sys.wire ++ h.sys.unsent ++ h.sys.ring.queue := by
  obtain ⟨h, hreach, hwire⟩ := Machine.exists_reach_of_run txHistory Streams
    ([.lineState true, .openFlags rtDeviceFlagStream, .call 0 (.putc lf), .call 1 (.putc 0x41)] ++
      [.write 0, .write 0, .write 1, .write 0, .write 0, .write 0, .write 1, .write 1] ++
      [.tx, .tx, .tx, .checked 3, .tx, .tx, .tx, .tx, .tx, .tx, .inComplete, .notify, .handle])
    (fun h => h.sys.wire = [cr, lf, 0x41]) (by decide +kernel)
  exact ⟨h, hreach, hwire, (vcomTx_stream hreach).1⟩

end RtVcom.Vcom

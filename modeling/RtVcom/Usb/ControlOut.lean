import Mathlib.Algebra.GroupWithZero.Nat
import RtVcom.Usb.ControlIn
import RtVcom.Lib.Circular
import RtVcom.Lib.Machine

/-!
# The data stage of endpoint 0, from the host

`rt_usbd_ep0_read` asks the controller for the first packet of a request, and `_ep0_out_notify`,
called by the USB thread for every message of the endpoint, asks for the next one until nothing
remains. A message without a size asks the driver how much it read; the driver of this board
answers 0, so such a message changes nothing.

The run is a machine of three parties: the host sends packets into the buffer that the controller
was armed with, the interrupt queues messages, also ones without a size, and the thread handles
the oldest.

**The law** (`ep0_out_stage`): at every moment the memory is as it was with the bytes received so
far stored in order from the buffer on, and the callback has run once if all messages of the whole
request are handled and not at all before.
-/

namespace RtVcom.Usb

open RtVcom.Lib

/-! ## The model -/

/-- Endpoint 0 with its callback, the callbacks made so far with their sizes, and what the
controller is armed with. -/
structure Ep0Out (κ : Type) extends Udcd where
  rxIndicate : Option κ
  indicated : List (κ × Nat)
  armed : Option (Option Nat × Nat)
deriving Repr, DecidableEq

/-- `_ep_read` of the board's driver. -/
def epRead : Nat := 0

variable {κ : Type}

/-- `dcd_ep_read_prepare` on endpoint 0. -/
def Ep0Out.readPrepare (ep0 : Ep0Out κ) (buffer : Option Nat) (size : Nat) : Ep0Out κ :=
  { ep0 with
    calls := ep0.calls ++ [.epReadPrepare ep0OutAddr buffer size]
    armed := some (buffer, size) }

/-- `rt_usbd_ep0_read`. -/
def rtUsbdEp0Read (ep0 : Ep0Out κ) (buffer : Option Nat) (size : Nat) (rxInd : Option κ) :
    Ep0Out κ :=
  let readSize := if ep0.maxpacket ≤ size then ep0.maxpacket else size
  Ep0Out.readPrepare { ep0 with
    request := { ep0.request with buffer, remainSize := size }
    rxIndicate := rxInd
    stage := .dout } buffer readSize

/-- `_ep0_out_notify`. -/
def Ep0Out.ep0OutNotify (ep0 : Ep0Out κ) (msgSize : Nat) : Ep0Out κ :=
  if ep0.request.remainSize = 0 then ep0
  else
    let size := if msgSize = 0 then epRead else msgSize
    if size = 0 then ep0
    else
      let request : UioRequest := { ep0.request with
        remainSize := rtSizeSub ep0.request.remainSize size
        buffer := ep0.request.buffer.map (· + size) }
      let ep0 := { ep0 with request }
      if request.remainSize = 0 then
        { ep0 with indicated := ep0.indicated ++ ep0.rxIndicate.toList.map (·, size) }
      else rtUsbdEp0Read ep0 request.buffer request.remainSize ep0.rxIndicate

/-! ## The run -/

/-- Endpoint 0 with the memory, the messages on their way to the USB thread, and the bytes that
came in so far. -/
structure OutStage (κ : Type) where
  ep0 : Ep0Out κ
  memory : List UInt8
  messages : List Nat
  received : List UInt8
deriving Repr, DecidableEq

/-- A packet of the host, a message without a size, and a turn of the USB thread. -/
inductive OutEvent
  | packet (bytes : List UInt8)
  | zero
  | turn
deriving Repr, DecidableEq

/-- One event. A packet has 1 to `m` bytes of the `n` that the host has to send; it is stored where
the controller was told to, and uses that up. -/
def OutStage.step (m n : Nat) (s : OutStage κ) : OutEvent → Option (OutStage κ)
  | .packet bytes =>
    match s.ep0.armed with
    | some (some address, _) =>
      if 1 ≤ bytes.length ∧ bytes.length ≤ m ∧ s.received.length + bytes.length ≤ n then
        some { s with
          ep0 := { s.ep0 with armed := none }
          memory := blit s.memory address bytes
          messages := s.messages ++ [bytes.length]
          received := s.received ++ bytes }
      else none
    | _ => none
  | .zero => some { s with messages := s.messages ++ [0] }
  | .turn =>
    match s.messages with
    | [] => none
    | size :: messages => some { s with ep0 := s.ep0.ep0OutNotify size, messages }

/-- The run of a request of `n` bytes at address `a`, with messages without a size still on their
way. -/
def outMachine (ep0 : Ep0Out κ) (memory : List UInt8) (a n : Nat) (rxInd : Option κ)
    (early : Nat) : Machine (OutStage κ) OutEvent where
  init :=
    { ep0 := rtUsbdEp0Read ep0 (some a) n rxInd
      memory
      messages := List.replicate early 0
      received := [] }
  step := OutStage.step ep0.maxpacket n

/-- The messages that came with bytes. -/
def OutStage.pending (s : OutStage κ) : List Nat := s.messages.filter (0 < ·)

/-- How many bytes the thread has seen to. -/
def OutStage.handled (s : OutStage κ) : Nat := s.received.length - s.pending.sum

/-! ## What one event keeps -/

/-- Asked for a packet: everything that came in is handled, and there is more to come. -/
structure OutStage.Armed (s : OutStage κ) (a n : Nat) (before : List (κ × Nat)) : Prop where
  pending : s.pending = []
  more : s.received.length < n
  buffer : s.ep0.request.buffer = some (a + s.received.length)
  armed : s.ep0.armed =
    some (some (a + s.received.length), min s.ep0.maxpacket (n - s.received.length))
  indicated : s.ep0.indicated = before

/-- A packet came in and its message is on its way. -/
structure OutStage.Notified (s : OutStage κ) (a n size : Nat) (before : List (κ × Nat)) :
    Prop where
  pending : s.pending = [size]
  size_pos : 0 < size
  size_le : size ≤ s.received.length
  buffer : s.ep0.request.buffer = some (a + (s.received.length - size))
  armed : s.ep0.armed = none
  indicated : s.ep0.indicated = before

/-- The request is complete. -/
structure OutStage.Complete (s : OutStage κ) (n : Nat) (rxInd : Option κ)
    (before : List (κ × Nat)) : Prop where
  pending : s.pending = []
  all : s.received.length = n
  armed : s.ep0.armed = none
  indicated : ∃ size, s.ep0.indicated = before ++ rxInd.toList.map (·, size)

/-- The invariant of the run: what holds in every phase, and the phases. -/
structure OutStage.Kept (s : OutStage κ) (memory : List UInt8) (a n m : Nat) (rxInd : Option κ)
    (before : List (κ × Nat)) : Prop where
  maxpacket : s.ep0.maxpacket = m
  rxIndicate : s.ep0.rxIndicate = rxInd
  stored : s.memory = blit memory a s.received
  remain : s.ep0.request.remainSize + s.received.length = n + s.pending.sum
  received : s.received.length ≤ n
  phase : s.Armed a n before ∨ (∃ size, s.Notified a n size before) ∨ s.Complete n rxInd before

variable {s t : OutStage κ} {memory : List UInt8} {a n m : Nat} {rxInd : Option κ}
  {before : List (κ × Nat)}

/-- A message without a size changes nothing. -/
theorem Ep0Out.ep0OutNotify_zero (ep0 : Ep0Out κ) : ep0.ep0OutNotify 0 = ep0 := by
  rw [Ep0Out.ep0OutNotify]
  split
  · rfl
  · rfl

/-- A message with a size while something remains: the callback, or the next packet. -/
theorem Ep0Out.ep0OutNotify_size (ep0 : Ep0Out κ) {address size : Nat} (hpos : 0 < size)
    (hle : size ≤ ep0.request.remainSize) (h32 : ep0.request.remainSize < 0x100000000)
    (hbuffer : ep0.request.buffer = some address) :
    ep0.ep0OutNotify size =
      let request := { ep0.request with
        remainSize := ep0.request.remainSize - size
        buffer := some (address + size) }
      if ep0.request.remainSize = size then
        { ep0 with
          request
          indicated := ep0.indicated ++ ep0.rxIndicate.toList.map (·, size) }
      else
        rtUsbdEp0Read { ep0 with request } (some (address + size))
          (ep0.request.remainSize - size) ep0.rxIndicate := by
  have hremain : ep0.request.remainSize ≠ 0 := by omega
  have hsize : size ≠ 0 := by omega
  have hsub : rtSizeSub ep0.request.remainSize size = ep0.request.remainSize - size := by
    rw [rtSizeSub]
    omega
  have hdone : ep0.request.remainSize - size = 0 ↔ ep0.request.remainSize = size := by omega
  simp only [Ep0Out.ep0OutNotify, if_neg hremain, if_neg hsize, hsub, hbuffer, Option.map_some,
    hdone]

theorem OutStage.Kept.of_packet (hfit : a + n ≤ memory.length)
    (h : s.Kept memory a n m rxInd before) {bytes : List UInt8}
    (hstep : s.step m n (.packet bytes) = some t) : t.Kept memory a n m rxInd before := by
  obtain hphase | ⟨size, hphase⟩ | hphase := h.phase
  · simp only [OutStage.step, hphase.armed] at hstep
    split at hstep
    case isFalse => cases hstep
    case isTrue hbytes =>
      obtain ⟨hone, -, hall⟩ := hbytes
      cases hstep
      have hlength : (s.received ++ bytes).length = s.received.length + bytes.length :=
        List.length_append
      have hfilter : (s.messages ++ [bytes.length]).filter (0 < ·) = [bytes.length] := by
        have hpending := hphase.pending
        rw [OutStage.pending] at hpending
        rw [List.filter_append, hpending,
          List.filter_cons_of_pos (by simpa using Nat.succ_le_iff.mp hone)]
        rfl
      refine ⟨h.maxpacket, h.rxIndicate, ?_, ?_, ?_, .inr (.inl ⟨bytes.length, ?_⟩)⟩
      · rw [h.stored, blit_append (by omega)]
      · have hremain := h.remain
        rw [hphase.pending, List.sum_nil] at hremain
        show s.ep0.request.remainSize + (s.received ++ bytes).length =
          n + ((s.messages ++ [bytes.length]).filter (0 < ·)).sum
        rw [hfilter, hlength, List.sum_singleton]
        omega
      · simp only [hlength, hall]
      · refine ⟨hfilter, hone, ?_, ?_, rfl, hphase.indicated⟩
        · simp only [hlength, Nat.le_add_left]
        · simp only [hlength, Nat.add_sub_cancel, hphase.buffer]
  · simp only [OutStage.step, hphase.armed, reduceCtorEq] at hstep
  · simp only [OutStage.step, hphase.armed, reduceCtorEq] at hstep

/-- Messages without a size come and go without a trace. -/
theorem OutStage.Kept.of_messages (h : s.Kept memory a n m rxInd before) {messages : List Nat}
    (hmessages : messages.filter (0 < ·) = s.pending) :
    { s with messages }.Kept memory a n m rxInd before := by
  refine ⟨h.maxpacket, h.rxIndicate, h.stored, ?_, h.received, ?_⟩
  · rw [OutStage.pending, hmessages]
    exact h.remain
  · obtain hphase | ⟨size, hphase⟩ | hphase := h.phase
    · exact .inl ⟨hmessages.trans hphase.pending, hphase.more, hphase.buffer, hphase.armed,
        hphase.indicated⟩
    · exact .inr (.inl ⟨size, hmessages.trans hphase.pending, hphase.size_pos, hphase.size_le,
        hphase.buffer, hphase.armed, hphase.indicated⟩)
    · exact .inr (.inr ⟨hmessages.trans hphase.pending, hphase.all, hphase.armed,
        hphase.indicated⟩)

theorem OutStage.Kept.of_zero (h : s.Kept memory a n m rxInd before)
    (hstep : s.step m n .zero = some t) : t.Kept memory a n m rxInd before := by
  cases hstep
  refine h.of_messages ?_
  rw [List.filter_append, OutStage.pending]
  exact List.append_nil _

/-- A message that came with bytes is the only one of its kind, and what remains covers it. -/
theorem OutStage.Kept.notified (h : s.Kept memory a n m rxInd before) {size : Nat}
    (hmem : size ∈ s.pending) : s.Notified a n size before ∧
      size ≤ s.ep0.request.remainSize ∧
      s.ep0.request.remainSize = n - (s.received.length - size) := by
  obtain hphase | ⟨size', hphase⟩ | hphase := h.phase
  · rw [hphase.pending] at hmem
    exact absurd hmem List.not_mem_nil
  · rw [hphase.pending] at hmem
    obtain rfl := List.mem_singleton.mp hmem
    have hremain := h.remain
    have hreceived := h.received
    have hle := hphase.size_le
    rw [hphase.pending, List.sum_singleton] at hremain
    exact ⟨hphase, by omega, by omega⟩
  · rw [hphase.pending] at hmem
    exact absurd hmem List.not_mem_nil

/-- A turn that finds the message of a packet: the last one completes the request, behind every
other one the controller is asked for the next. -/
theorem OutStage.Kept.of_turn_size (h32 : n < 0x100000000)
    (h : s.Kept memory a n m rxInd before) {size : Nat} {messages : List Nat} (hpos : 0 < size)
    (hmessages : s.messages = size :: messages) :
    { s with ep0 := s.ep0.ep0OutNotify size, messages }.Kept memory a n m rxInd before := by
  have hhead : s.pending = size :: messages.filter (0 < ·) := by
    rw [OutStage.pending, hmessages, List.filter_cons_of_pos (by simpa using hpos)]
  obtain ⟨hphase, hle, hremain⟩ := h.notified (hhead ▸ List.mem_cons_self)
  have hrest : messages.filter (0 < ·) = [] := by
    have hpending := hhead.symm.trans hphase.pending
    exact (List.cons.inj hpending).2
  have hreceived := h.received
  have hbefore := hphase.size_le
  have haddress : a + (s.received.length - size) + size = a + s.received.length := by omega
  have hleft : s.ep0.request.remainSize - size = n - s.received.length := by omega
  have hnotify := s.ep0.ep0OutNotify_size hpos hle (by omega) hphase.buffer
  rw [haddress, hleft] at hnotify
  by_cases hdone : s.ep0.request.remainSize = size
  · have hall : s.received.length = n := by omega
    rw [hnotify, if_pos hdone]
    refine ⟨h.maxpacket, h.rxIndicate, h.stored, ?_, hreceived,
      .inr (.inr ⟨hrest, hall, hphase.armed, size, ?_⟩)⟩
    · rw [OutStage.pending, hrest, List.sum_nil]
      simp only [hall, Nat.sub_self, Nat.zero_add, Nat.add_zero]
    · rw [← hphase.indicated, ← h.rxIndicate]
  · have hread : (if s.ep0.maxpacket ≤ n - s.received.length then s.ep0.maxpacket
        else n - s.received.length) = min s.ep0.maxpacket (n - s.received.length) := by
      split <;> omega
    rw [hnotify, if_neg hdone]
    refine ⟨h.maxpacket, h.rxIndicate, h.stored, ?_, hreceived,
      .inl ⟨hrest, ?_, rfl, ?_, hphase.indicated⟩⟩
    · rw [OutStage.pending, hrest, List.sum_nil]
      exact Nat.sub_add_cancel hreceived
    · show s.received.length < n
      omega
    · rw [rtUsbdEp0Read, Ep0Out.readPrepare, hread]

/-- One event keeps the invariant. -/
theorem OutStage.Kept.step (hfit : a + n ≤ memory.length) (h32 : n < 0x100000000)
    (h : s.Kept memory a n m rxInd before) {event : OutEvent}
    (hstep : s.step m n event = some t) : t.Kept memory a n m rxInd before := by
  cases event with
  | packet bytes => exact h.of_packet hfit hstep
  | zero => exact h.of_zero hstep
  | turn =>
    simp only [OutStage.step] at hstep
    split at hstep
    · cases hstep
    · next size messages hmessages =>
      cases hstep
      rcases Nat.eq_zero_or_pos size with rfl | hpos
      · rw [Ep0Out.ep0OutNotify_zero]
        refine h.of_messages ?_
        rw [OutStage.pending, hmessages]
        rfl
      · exact h.of_turn_size h32 hpos hmessages

/-! ## The whole request -/

variable {ep0 : Ep0Out κ} {early : Nat}

theorem OutStage.kept_init (hn : 1 ≤ n) :
    (outMachine ep0 memory a n rxInd early).init.Kept memory a n ep0.maxpacket rxInd
      ep0.indicated := by
  have hearly : (List.replicate early 0).filter (0 < ·) = [] := by
    rw [List.filter_replicate_of_neg (by decide)]
  have hread : (if ep0.maxpacket ≤ n then ep0.maxpacket else n) = min ep0.maxpacket n := by
    split <;> omega
  refine ⟨rfl, rfl, ?_, ?_, Nat.zero_le n, .inl ⟨hearly, hn, rfl, ?_, rfl⟩⟩
  · show memory = blit memory a []
    rw [blit, List.append_nil, List.length_nil, Nat.add_zero, List.take_append_drop]
  · show n + 0 = n + ((List.replicate early 0).filter (0 < ·)).sum
    rw [hearly, List.sum_nil]
  · show some (some a, if ep0.maxpacket ≤ n then ep0.maxpacket else n) = _
    rw [hread]
    rfl

theorem OutStage.kept_of_reach (hn : 1 ≤ n) (h32 : n < 0x100000000)
    (hfit : a + n ≤ memory.length)
    (hreach : (outMachine ep0 memory a n rxInd early).Reach Machine.any s) :
    s.Kept memory a n ep0.maxpacket rxInd ep0.indicated :=
  hreach.invariant (P := fun s => s.Kept memory a n ep0.maxpacket rxInd ep0.indicated)
    (OutStage.kept_init hn) fun _ _ _ h _ hstep => h.step hfit h32 hstep

/-- At every moment of the data stage the memory holds the bytes that came in, in order from the
buffer on, and is unchanged elsewhere; the callback has run exactly once if the messages of all
`n` bytes are handled, and not before; no message takes more than remains; and the controller is
armed for the next bytes whenever there are more to come and no message of a packet is on its
way. -/
theorem ep0_out_stage (ep0 : Ep0Out κ) (memory : List UInt8) (a n : Nat) (rxInd : Option κ)
    (early : Nat) (s : OutStage κ) (hn : 1 ≤ n) (h32 : n < 0x100000000)
    (hfit : a + n ≤ memory.length)
    (hreach : (outMachine ep0 memory a n rxInd early).Reach Machine.any s) :
    s.memory = blit memory a s.received ∧
      (s.received.length = n ∧ s.pending = [] →
        ∃ size, s.ep0.indicated = ep0.indicated ++ rxInd.toList.map (·, size)) ∧
      (¬(s.received.length = n ∧ s.pending = []) → s.ep0.indicated = ep0.indicated) ∧
      (∀ size ∈ s.messages, size ≤ s.ep0.request.remainSize) ∧
      s.ep0.request.remainSize = n - s.handled ∧ s.handled ≤ n ∧
      (s.received.length < n → s.pending = [] → s.ep0.armed =
        some (some (a + s.received.length), min ep0.maxpacket (n - s.received.length))) := by
  have h := OutStage.kept_of_reach hn h32 hfit hreach
  have hremain := h.remain
  have hreceived := h.received
  refine ⟨h.stored, fun hall => ?_, fun hall => ?_, fun size hsize => ?_, ?_, ?_,
    fun hmore hpending => ?_⟩
  · obtain hphase | ⟨size, hphase⟩ | hphase := h.phase
    · exact absurd hall.1 (Nat.ne_of_lt hphase.more)
    · exact absurd (hphase.pending.symm.trans hall.2) (List.cons_ne_nil _ _)
    · exact hphase.indicated
  · obtain hphase | ⟨size, hphase⟩ | hphase := h.phase
    · exact hphase.indicated
    · exact hphase.indicated
    · exact absurd ⟨hphase.all, hphase.pending⟩ hall
  · rcases Nat.eq_zero_or_pos size with rfl | hpos
    · exact Nat.zero_le _
    · exact (h.notified (List.mem_filter.mpr ⟨hsize, decide_eq_true hpos⟩)).2.1
  · rw [OutStage.handled]
    obtain hphase | ⟨size, hphase⟩ | hphase := h.phase
    · rw [hphase.pending, List.sum_nil] at hremain ⊢
      omega
    · have hle := hphase.size_le
      rw [hphase.pending, List.sum_singleton] at hremain ⊢
      omega
    · rw [hphase.pending, List.sum_nil] at hremain ⊢
      omega
  · exact Nat.le_trans (Nat.sub_le _ _) hreceived
  · obtain hphase | ⟨size, hphase⟩ | hphase := h.phase
    · rw [hphase.armed, h.maxpacket]
    · exact absurd (hphase.pending.symm.trans hpending) (List.cons_ne_nil _ _)
    · exact absurd hphase.all (Nat.ne_of_lt hmore)

/-- Five bytes in packets of at most two, the last of one byte, with empty messages before, between
and behind. -/
theorem ep0_out_stage_five :
    ∃ s : OutStage Unit, s.memory = [0, 1, 2, 3, 4, 5, 0] ∧ s.ep0.indicated = [((), 1)] := by
  let ep0 : Ep0Out Unit :=
    { stage := .setup, maxpacket := 2, request := ⟨.write, none, 4, 0xFFFFFFFE⟩, calls := []
      rxIndicate := none, indicated := [], armed := none }
  let memory : List UInt8 := List.replicate 7 0
  obtain ⟨s, hreach, hreceived, hpending, hindicated⟩ := Machine.exists_reach_of_run
    (outMachine ep0 memory 1 5 (some ()) 1) Machine.any
    [.packet [1, 2], .zero, .turn, .turn, .turn, .packet [3, 4], .turn, .packet [5], .zero, .turn,
      .turn]
    (fun s => s.received = [1, 2, 3, 4, 5] ∧ s.pending = [] ∧ s.ep0.indicated = [((), 1)])
    (by decide)
  have hlaw := ep0_out_stage ep0 memory 1 5 (some ()) 1 s (by decide) (by decide) (by decide) hreach
  refine ⟨s, ?_, hindicated⟩
  rw [hlaw.1, hreceived]
  rfl

end RtVcom.Usb

import RtVcom.Vcom.Transmitter

/-!
# One transfer at a time

The transmit thread reuses one request and one buffer for every chunk. It waits for the
completion of a chunk with a time limit, and goes on with the next chunk when the limit passes,
whatever has become of the first.

While no wait expires, the thread and the usbd side take turns. Either the transfer side is
quiet: no packet at the controller, no message, no handler, no request outstanding. Or a request
is outstanding, the thread is at its wait, and one token of it moves between the controller, the
message queue and the handler (`VcomTx.Moving`). `VcomTx.Exclusive` is this invariant together with
the ledger of bytes: what was taken from the ring is what the controller has sent and what is
still to be sent of the one chunk in hand (`VcomTx.unsent`). The law is `vcomTx_one_outstanding`.
`vcomTx_overlapping_request` is a run in which an expired wait makes the thread issue a request
over one whose packet has not left the controller.
-/

namespace RtVcom.Vcom

open RtVcom.Lib RtVcom.Kernel RtVcom.Driver RtVcom.Serial RtVcom.Usb

/-! ## Runs without an expired wait -/

/-- The wait for the completion does not expire. -/
def NoExpiry (_ : VcomTx) : VcomAction → Prop
  | .expire => False
  | _ => True

/-- Nor does the host disconnect, upon which the thread drops what it has taken. -/
def Steady (_ : VcomTx) : VcomAction → Prop
  | .expire => False
  | .lineState connected => connected = true
  | _ => True

instance : DecidableRel NoExpiry
  | _, .expire => isFalse id
  | _, .call _ _ | _, .write _ | _, .tx | _, .checked _ | _, .inComplete | _, .notify | _, .handle
  | _, .lineState _ | _, .openFlags _ => isTrue trivial

instance : DecidableRel Steady
  | _, .expire => isFalse id
  | _, .lineState connected => inferInstanceAs (Decidable (connected = true))
  | _, .call _ _ | _, .write _ | _, .tx | _, .checked _ | _, .inComplete | _, .notify | _, .handle
  | _, .openFlags _ => isTrue trivial

theorem noExpiry_of_steady (s : VcomTx) (a : VcomAction) (h : Steady s a) : NoExpiry s a := by
  cases a with
  | expire => exact h
  | _ => trivial

/-! ## The transfer in hand -/

/-- Places where the thread has no chunk in hand. -/
def TxPc.looking : TxPc → Bool
  | .recv | .suspended | .received _ | .check | .checking _ | .get | .woken | .after => true
  | .got _ | .initWait _ | .fill _ | .submit _ | .wait | .waiting => false

/-- The bytes taken from the ring that the controller has not sent: the chunk in `ch` before
its request, then the packet at the controller and what remains of the request. -/
def VcomTx.unsent (s : VcomTx) : List UInt8 :=
  match s.tx with
  | .got res | .initWait res | .fill res | .submit res => s.ch.take res
  | .wait | .waiting =>
    if s.outstanding then
      (match s.inflight with
        | some (buffer, size) => region s.ch buffer size
        | none => []) ++ region s.ch s.epIn.request.buffer s.epIn.request.remainSize
    else []
  | _ => []

/-- While the thread looks for data nothing taken is unsent. -/
theorem unsent_of_looking {s : VcomTx} (h : s.tx.looking = true) : s.unsent = [] := by
  unfold VcomTx.unsent
  cases htx : s.tx with
  | got | initWait | fill | submit | wait | waiting => rw [htx] at h; cases h
  | _ => rfl

/-- The length of the chunk in `ch` that is not yet a request. -/
def TxPc.chunk : TxPc → Option Nat
  | .got res | .initWait res | .fill res | .submit res => some res
  | _ => none

/-- What the thread holds is the chunk that it has taken. -/
theorem unsent_of_chunk {s : VcomTx} {res : Nat} (h : s.tx.chunk = some res) :
    s.unsent = s.ch.take res := by
  unfold VcomTx.unsent
  cases htx : s.tx with
  | got | initWait | fill | submit => rw [htx] at h; cases h; rfl
  | _ => rw [htx] at h; cases h

/-- Nothing of a transfer is under way. -/
structure VcomTx.Quiet (s : VcomTx) : Prop where
  inflight : s.inflight = none
  messages : s.messages = []
  usbd : s.usbd = .idle
  outstanding : s.outstanding = false

/-- Where the one token of a transfer is. -/
inductive VcomTx.Moving (s : VcomTx) : Prop
  | controller (buffer : Option Nat) (size : Nat) (hi : s.inflight = some (buffer, size))
      (hm : s.messages = []) (hu : s.usbd = .idle)
  | message (size : Nat) (hi : s.inflight = none) (hm : s.messages = [size]) (hu : s.usbd = .idle)
  | handler (hi : s.inflight = none) (hm : s.messages = []) (hu : s.usbd = .handling)
      (hr : s.epIn.request.remainSize = 0)

/-- A request is under way and its completion has not been signalled. -/
structure VcomTx.Busy (s : VcomTx) : Prop where
  moving : s.Moving
  outstanding : s.outstanding = true
  unsignalled : s.completion.flag = false

/-- The thread and the transfer take turns: quiet, and the thread not waiting for anything that
is still to come, or busy, and the thread at its wait. -/
def VcomTx.Turns (s : VcomTx) : Prop :=
  (s.Quiet ∧ s.tx ≠ .waiting ∧ (s.tx = .wait → s.completion.flag = true)) ∨
    (s.Busy ∧ (s.tx = .wait ∨ s.tx = .waiting))

/-- The endpoint as it was set up, no request over another, the request filled in before it is
issued, the turns, and the ledger of bytes. -/
structure VcomTx.Exclusive (s : VcomTx) : Prop where
  dirIn : s.epIn.dirIn = true
  maxPacket : s.epIn.maxPacket = usbCdcBufsize
  stalled : s.epIn.stalled = false
  overlap : s.overlap = false
  filled : ∀ res, s.tx = .submit res → s.epIn.request.reqType = .write ∧
    s.epIn.request.buffer = some 0 ∧ s.epIn.request.size = res
  cleared : ∀ res, s.tx = .fill res ∨ s.tx = .submit res → s.completion.flag = false
  turns : s.Turns
  bytes : s.dropped = false → s.removed = s.wire ++ s.unsent

/-- The buffer is free at the beginning. -/
theorem exclusive_init : vcomSystem.init.Exclusive where
  dirIn := rfl
  maxPacket := rfl
  stalled := rfl
  overlap := rfl
  filled := fun _ h => by cases h
  cleared := fun _ h => by rcases h with h | h <;> cases h
  turns := .inl ⟨⟨rfl, rfl, rfl, rfl⟩, TxPc.noConfusion, fun h => by cases h⟩
  bytes := fun _ => rfl

/-- A thread that is not at its wait finds the transfer side quiet. -/
theorem VcomTx.Exclusive.quiet {s : VcomTx} (h : s.Exclusive) (hw : s.tx ≠ .wait)
    (hw' : s.tx ≠ .waiting) : s.Quiet := by
  rcases h.turns with ⟨hq, -, -⟩ | ⟨-, hpc | hpc⟩
  · exact hq
  · exact absurd hpc hw
  · exact absurd hpc hw'

/-- Where the thread looks, and where it does not. -/
theorem TxPc.looking_ne {pc : TxPc} (h : pc.looking = true) :
    pc ≠ .wait ∧ pc ≠ .waiting ∧ (∀ res, pc ≠ .fill res) ∧ ∀ res, pc ≠ .submit res := by
  refine ⟨?_, ?_, ?_, ?_⟩
  · rintro rfl; cases h
  · rintro rfl; cases h
  · rintro res rfl; cases h
  · rintro res rfl; cases h

/-- The invariant does not read the ring, the event, the writers and the host's side. -/
theorem VcomTx.Exclusive.frame {s : VcomTx} (h : s.Exclusive) (ring : TxRing) (event : RtEvent)
    (connected : Bool) (openFlag : BitVec 16) (writers : Nat → WriterPc) :
    VcomTx.Exclusive { s with ring, event, connected, openFlag, writers } :=
  ⟨h.dirIn, h.maxPacket, h.stalled, h.overlap, h.filled, h.cleared, by
    rcases h.turns with ⟨⟨hi, hm, hu, ho⟩, hw, hf⟩ | ⟨⟨hmove, ho, hf⟩, hpc⟩
    · exact .inl ⟨⟨hi, hm, hu, ho⟩, hw, hf⟩
    · refine .inr ⟨⟨?_, ho, hf⟩, hpc⟩
      cases hmove with
      | controller buffer size hi hm hu => exact .controller buffer size hi hm hu
      | message size hi hm hu => exact .message size hi hm hu
      | handler hi hm hu hr => exact .handler hi hm hu hr,
    h.bytes⟩

/-- Without a chunk in hand the thread moves freely. -/
theorem VcomTx.Exclusive.look {s : VcomTx} (h : s.Exclusive) (hs : s.tx.looking = true) {tx : TxPc}
    (ht : tx.looking = true) (completion : RtCompletion) :
    VcomTx.Exclusive { s with tx, completion } := by
  obtain ⟨hw, hw', -, -⟩ := TxPc.looking_ne hs
  obtain ⟨htw, htw', htf, hts⟩ := TxPc.looking_ne ht
  obtain ⟨hi, hm, hu, ho⟩ := h.quiet hw hw'
  refine ⟨h.dirIn, h.maxPacket, h.stalled, h.overlap, ?_, ?_, .inl ⟨⟨hi, hm, hu, ho⟩, htw', ?_⟩, ?_⟩
  · intro res he
    exact absurd he (hts res)
  · rintro res (he | he)
    · exact absurd he (htf res)
    · exact absurd he (hts res)
  · intro he
    exact absurd he htw
  · intro hd
    have hbytes := h.bytes hd
    rw [unsent_of_looking hs] at hbytes
    rw [unsent_of_looking (by exact ht)]
    exact hbytes

/-! ## Steps of the thread -/

/-- The thread is quiet with a chunk in hand that is not yet a request. -/
theorem exclusive_of_chunk {s : VcomTx} {res : Nat} (hd : s.epIn.dirIn = true)
    (hm : s.epIn.maxPacket = usbCdcBufsize) (hst : s.epIn.stalled = false)
    (ho : s.overlap = false) (hq : s.Quiet)
    (htx : s.tx = .got res ∨ s.tx = .initWait res ∨ s.tx = .fill res ∧ s.completion.flag = false)
    (hb : s.dropped = false → s.removed = s.wire ++ s.ch.take res) : s.Exclusive := by
  have hne : (∀ r, s.tx ≠ .submit r) ∧ s.tx ≠ .waiting ∧ s.tx ≠ .wait := by
    rcases htx with he | he | ⟨he, -⟩ <;> rw [he] <;>
      exact ⟨fun _ => TxPc.noConfusion, TxPc.noConfusion, TxPc.noConfusion⟩
  have hunsent : s.unsent = s.ch.take res := by
    apply unsent_of_chunk
    rcases htx with he | he | ⟨he, -⟩ <;> rw [he] <;> rfl
  refine ⟨hd, hm, hst, ho, fun r he => absurd he (hne.1 r), ?_,
    .inl ⟨hq, hne.2.1, fun he => absurd he hne.2.2⟩, ?_⟩
  · rintro r (he | he)
    · rcases htx with h1 | h1 | ⟨-, hf⟩
      · exact absurd (h1.symm.trans he) TxPc.noConfusion
      · exact absurd (h1.symm.trans he) TxPc.noConfusion
      · exact hf
    · exact absurd he (hne.1 r)
  · rw [hunsent]
    exact hb

theorem exclusive_recv {s : VcomTx} (h : s.Exclusive) (htx : s.tx = .recv) :
    (txRecv s).Exclusive := by
  have hlook : s.tx.looking = true := by rw [htx]; rfl
  unfold txRecv
  split
  · exact (h.look hlook rfl s.completion).frame s.ring _ s.connected s.openFlag s.writers
  · exact (h.look hlook rfl s.completion).frame s.ring _ s.connected s.openFlag s.writers
  · exact (h.look hlook rfl s.completion).frame s.ring _ s.connected s.openFlag s.writers

/-- Taking bytes from the ring keeps the buffer exclusive. -/
theorem exclusive_get {s : VcomTx} (h : s.Exclusive) (htx : s.tx = .get) : (txGet s).Exclusive := by
  have hlook : s.tx.looking = true := by rw [htx]; rfl
  obtain ⟨hw, hw', -, -⟩ := TxPc.looking_ne hlook
  obtain ⟨hi, hm, hu, ho⟩ := h.quiet hw hw'
  refine exclusive_of_chunk h.dirIn h.maxPacket h.stalled h.overlap ⟨hi, hm, hu, ho⟩ (.inl rfl) ?_
  intro hd
  have hbytes := h.bytes hd
  rw [unsent_of_looking hlook, List.append_nil] at hbytes
  simp only [txGet, List.take_left, hbytes]

theorem exclusive_got {s : VcomTx} (h : s.Exclusive) {res : Nat} (htx : s.tx = .got res) :
    VcomTx.Exclusive { s with
      tx := if res = 0 ∨ s.connected = false then .check else .initWait res
      dropped := s.dropped || decide (res ≠ 0 ∧ s.connected = false) } := by
  obtain ⟨hi, hm, hu, ho⟩ := h.quiet (by rw [htx]; exact TxPc.noConfusion)
    (by rw [htx]; exact TxPc.noConfusion)
  have hunsent : s.unsent = s.ch.take res := unsent_of_chunk (by rw [htx]; rfl)
  by_cases hstop : res = 0 ∨ s.connected = false
  · rw [if_pos hstop]
    refine ⟨h.dirIn, h.maxPacket, h.stalled, h.overlap, fun _ he => TxPc.noConfusion he,
      fun _ he => he.elim TxPc.noConfusion TxPc.noConfusion,
      .inl ⟨⟨hi, hm, hu, ho⟩, TxPc.noConfusion, fun he => TxPc.noConfusion he⟩, fun hd => ?_⟩
    -- a chunk that is not empty is counted as dropped here
    simp only [Bool.or_eq_false_iff, decide_eq_false_iff_not, not_and] at hd
    have hzero : res = 0 := by
      rcases hstop with hz | hc
      · exact hz
      · exact Classical.byContradiction fun hne => hd.2 hne hc
    have hbytes := h.bytes hd.1
    rw [hunsent, hzero, List.take_zero] at hbytes
    exact hbytes
  · rw [if_neg hstop]
    refine exclusive_of_chunk h.dirIn h.maxPacket h.stalled h.overlap ⟨hi, hm, hu, ho⟩
      (.inr (.inl rfl)) fun hd => ?_
    simp only [Bool.or_eq_false_iff] at hd
    have hbytes := h.bytes hd.1
    rw [hunsent] at hbytes
    exact hbytes

theorem exclusive_initWait {s : VcomTx} (h : s.Exclusive) {res : Nat} (htx : s.tx = .initWait res) :
    VcomTx.Exclusive { s with completion := rtCompletionInit, tx := .fill res } := by
  obtain ⟨hi, hm, hu, ho⟩ := h.quiet (by rw [htx]; exact TxPc.noConfusion)
    (by rw [htx]; exact TxPc.noConfusion)
  refine exclusive_of_chunk h.dirIn h.maxPacket h.stalled h.overlap ⟨hi, hm, hu, ho⟩
    (.inr (.inr ⟨rfl, rfl⟩)) fun hd => ?_
  have hbytes := h.bytes hd
  rw [unsent_of_chunk (by rw [htx]; rfl)] at hbytes
  exact hbytes

theorem exclusive_fill {s : VcomTx} (h : s.Exclusive) {res : Nat} (htx : s.tx = .fill res) :
    (txFill s res).Exclusive := by
  obtain ⟨hi, hm, hu, ho⟩ := h.quiet (by rw [htx]; exact TxPc.noConfusion)
    (by rw [htx]; exact TxPc.noConfusion)
  refine ⟨h.dirIn, h.maxPacket, h.stalled, h.overlap, fun r he => ?_,
    fun _ _ => h.cleared res (.inl htx), .inl ⟨⟨hi, hm, hu, ho⟩, TxPc.noConfusion, fun he => ?_⟩,
    fun hd => ?_⟩
  · cases he
    exact ⟨rfl, rfl, rfl⟩
  · cases he
  · have hbytes := h.bytes hd
    rw [unsent_of_chunk (by rw [htx]; rfl)] at hbytes
    exact hbytes

/-- A buffer is its first packet and what remains behind it. -/
theorem region_split (mem : List UInt8) (buffer : Option Nat) {m r : Nat} (h : m ≤ r) :
    region mem buffer m ++ region mem (buffer.map (· + m)) (r - m) = region mem buffer r := by
  rw [region_take mem buffer h, region_advance, List.take_append_drop]

theorem region_zero (mem : List UInt8) (buffer : Option Nat) : region mem buffer 0 = [] := by
  cases buffer with
  | none => rfl
  | some a => rw [region, List.take_zero]

/-- A transfer with its packet at the controller and the thread at its wait. -/
theorem exclusive_of_packet {s : VcomTx} {buffer : Option Nat} {size : Nat}
    (hd : s.epIn.dirIn = true) (hm : s.epIn.maxPacket = usbCdcBufsize)
    (hst : s.epIn.stalled = false) (ho : s.overlap = false)
    (hi : s.inflight = some (buffer, size)) (hms : s.messages = []) (hu : s.usbd = .idle)
    (hout : s.outstanding = true) (hf : s.completion.flag = false)
    (htx : s.tx = .wait ∨ s.tx = .waiting)
    (hb : s.dropped = false → s.removed = s.wire ++ (region s.ch buffer size ++
      region s.ch s.epIn.request.buffer s.epIn.request.remainSize)) : s.Exclusive := by
  have hunsent : s.unsent = region s.ch buffer size ++
      region s.ch s.epIn.request.buffer s.epIn.request.remainSize := by
    unfold VcomTx.unsent
    rcases htx with he | he <;> rw [he] <;> simp only [hout, if_true, hi]
  have hne : (∀ r, s.tx ≠ .submit r) ∧ ∀ r, s.tx ≠ .fill r := by
    rcases htx with he | he <;> rw [he] <;>
      exact ⟨fun _ => TxPc.noConfusion, fun _ => TxPc.noConfusion⟩
  refine ⟨hd, hm, hst, ho, fun r he => absurd he (hne.1 r), fun r he => ?_,
    .inr ⟨⟨.controller buffer size hi hms hu, hout, hf⟩, htx⟩, ?_⟩
  · exact he.elim (fun h1 => absurd h1 (hne.2 r)) fun h1 => absurd h1 (hne.1 r)
  · rw [hunsent]
    exact hb

/-- `rt_usbd_io_request`: the chunk becomes the packet at the controller and the rest of the
request. -/
theorem exclusive_submit {s : VcomTx} (h : s.Exclusive) {res : Nat} (htx : s.tx = .submit res) :
    (txSubmit s).Exclusive := by
  obtain ⟨hi, hm, hu, ho⟩ := h.quiet (by rw [htx]; exact TxPc.noConfusion)
    (by rw [htx]; exact TxPc.noConfusion)
  obtain ⟨htype, hbuf, hsize⟩ := h.filled res htx
  have hflag := h.cleared res (.inr htx)
  have hover : (s.overlap || s.outstanding) = false := by rw [h.overlap, ho]; rfl
  have hbytes : s.dropped = false → s.removed = s.wire ++ region s.ch (some 0) res := by
    intro hd
    have hb := h.bytes hd
    rw [unsent_of_chunk (by rw [htx]; rfl)] at hb
    exact hb
  by_cases hfull : s.epIn.maxPacket ≤ res
  · have hreq : rtUsbdIoRequest s.epIn = ({ s.epIn with request := { s.epIn.request with
          remainSize := res - s.epIn.maxPacket
          buffer := (some 0 : Option Nat).map (· + s.epIn.maxPacket) } },
        [.epWrite (some 0) s.epIn.maxPacket]) := by
      simp only [rtUsbdIoRequest, h.stalled, htype, rtUsbdEpWrite, hsize, hfull, hbuf, if_true,
        if_false, Bool.false_eq_true]
    simp only [txSubmit, hreq, perform]
    refine exclusive_of_packet h.dirIn h.maxPacket h.stalled hover rfl hm hu rfl hflag (.inl rfl)
      fun hd => ?_
    simp only at hd ⊢
    rw [region_split s.ch (some 0) hfull, hbytes hd]
  · have hreq : rtUsbdIoRequest s.epIn = ({ s.epIn with request := { s.epIn.request with
          remainSize := 0 } }, [.epWrite (some 0) res]) := by
      simp only [rtUsbdIoRequest, h.stalled, htype, rtUsbdEpWrite, hsize, hfull, hbuf, if_false,
        Bool.false_eq_true]
    simp only [txSubmit, hreq, perform]
    refine exclusive_of_packet h.dirIn h.maxPacket h.stalled hover rfl hm hu rfl hflag (.inl rfl)
      fun hd => ?_
    simp only at hd ⊢
    rw [region_zero, List.append_nil, hbytes hd]

/-- `rt_completion_wait`: the completion has been signalled, or the thread is suspended. -/
theorem exclusive_wait {s : VcomTx} (h : s.Exclusive) (htx : s.tx = .wait) :
    (txWait s).Exclusive := by
  rcases h.turns with ⟨⟨hi, hm, hu, ho⟩, -, hf⟩ | ⟨⟨hmove, ho, hf⟩, -⟩
  · have hwait : txWait s = { s with
        completion := { s.completion with flag := false }, tx := .after } := by
      simp only [txWait, rtCompletionWait, hf htx, if_true]
    rw [hwait]
    refine ⟨h.dirIn, h.maxPacket, h.stalled, h.overlap, fun _ he => TxPc.noConfusion he,
      fun _ he => he.elim TxPc.noConfusion TxPc.noConfusion,
      .inl ⟨⟨hi, hm, hu, ho⟩, TxPc.noConfusion, fun he => TxPc.noConfusion he⟩, fun hd => ?_⟩
    have hbytes := h.bytes hd
    have hunsent : s.unsent = [] := by
      unfold VcomTx.unsent
      rw [htx]
      simp only [ho, Bool.false_eq_true, if_false]
    rw [hunsent] at hbytes
    exact hbytes
  · have hwait : txWait s = { s with
        completion := { s.completion with suspendedList := s.completion.suspendedList ++ [vcomTid] }
        tx := .waiting } := by
      simp only [txWait, rtCompletionWait, hf, Bool.false_eq_true, if_false]
      rfl
    rw [hwait]
    refine ⟨h.dirIn, h.maxPacket, h.stalled, h.overlap, fun _ he => TxPc.noConfusion he,
      fun _ he => he.elim TxPc.noConfusion TxPc.noConfusion, .inr ⟨⟨?_, ho, hf⟩, .inr rfl⟩,
      fun hd => ?_⟩
    · cases hmove with
      | controller buffer size hi hm hu => exact .controller buffer size hi hm hu
      | message size hi hm hu => exact .message size hi hm hu
      | handler hi hm hu hr => exact .handler hi hm hu hr
    · have hbytes := h.bytes hd
      unfold VcomTx.unsent at hbytes ⊢
      rw [htx] at hbytes
      exact hbytes

/-- Every step of the thread keeps the buffer exclusive. -/
theorem exclusive_tx {s t : VcomTx} (h : s.Exclusive) (hstep : stepTx s = some t) :
    t.Exclusive := by
  unfold stepTx at hstep
  cases htx : s.tx with
  | recv => rw [htx] at hstep; cases hstep; exact exclusive_recv h htx
  | get => rw [htx] at hstep; cases hstep; exact exclusive_get h htx
  | got res => rw [htx] at hstep; cases hstep; exact exclusive_got h htx
  | initWait res => rw [htx] at hstep; cases hstep; exact exclusive_initWait h htx
  | fill res => rw [htx] at hstep; cases hstep; exact exclusive_fill h htx
  | submit res => rw [htx] at hstep; cases hstep; exact exclusive_submit h htx
  | wait => rw [htx] at hstep; cases hstep; exact exclusive_wait h htx
  | received res =>
    rw [htx] at hstep
    cases hstep
    have hlook : s.tx.looking = true := by rw [htx]; rfl
    exact h.look hlook (by split <;> rfl) s.completion
  | check | woken | after =>
    rw [htx] at hstep
    cases hstep
    have hlook : s.tx.looking = true := by rw [htx]; rfl
    exact h.look hlook rfl _
  | suspended | checking | waiting => rw [htx] at hstep; cases hstep

/-! ## Steps of the controller and the usbd thread -/

/-- A thread at its wait with a request outstanding. -/
theorem VcomTx.Exclusive.bytes_busy {s : VcomTx} (h : s.Exclusive) (ho : s.outstanding = true)
    (htx : s.tx = .wait ∨ s.tx = .waiting) (hd : s.dropped = false) :
    s.removed = s.wire ++ ((match s.inflight with
        | some (buffer, size) => region s.ch buffer size
        | none => []) ++ region s.ch s.epIn.request.buffer s.epIn.request.remainSize) := by
  have hbytes := h.bytes hd
  unfold VcomTx.unsent at hbytes
  rcases htx with he | he
  · rw [he] at hbytes
    simp only [ho, if_true] at hbytes
    exact hbytes
  · rw [he] at hbytes
    simp only [ho, if_true] at hbytes
    exact hbytes

/-- Something of a transfer is under way only while the thread is at its wait. -/
theorem VcomTx.Exclusive.busy {s : VcomTx} (h : s.Exclusive) (hq : ¬ s.Quiet) :
    s.Busy ∧ (s.tx = .wait ∨ s.tx = .waiting) :=
  h.turns.resolve_left fun hl => hq hl.1

theorem exclusive_inComplete {s : VcomTx} (h : s.Exclusive) {buffer : Option Nat} {size : Nat}
    (hi : s.inflight = some (buffer, size)) :
    VcomTx.Exclusive { s with
      inflight := none
      messages := s.messages ++ [size]
      wire := s.wire ++ region s.ch buffer size } := by
  obtain ⟨⟨hmove, ho, hf⟩, htx⟩ := h.busy fun hq => by rw [hq.inflight] at hi; cases hi
  have hbytes := h.bytes_busy ho htx
  simp only [hi] at hbytes
  cases hmove with
  | message _ hn => rw [hn] at hi; cases hi
  | handler hn => rw [hn] at hi; cases hi
  | controller _ _ _ hm hu =>
    refine ⟨h.dirIn, h.maxPacket, h.stalled, h.overlap, h.filled, h.cleared,
      .inr ⟨⟨.message size rfl (by rw [hm]; rfl) hu, ho, hf⟩, htx⟩, fun hd => ?_⟩
    unfold VcomTx.unsent
    rcases htx with he | he
    · simp only [he, ho, if_true, List.nil_append, List.append_assoc]
      exact hbytes hd
    · simp only [he, ho, if_true, List.nil_append, List.append_assoc]
      exact hbytes hd

/-- `_data_notify`: the next packet goes to the controller, or the handler is called. -/
theorem exclusive_notify {s : VcomTx} (h : s.Exclusive) {size : Nat} {rest : List Nat}
    (hidle : s.usbd = .idle) (hms : s.messages = size :: rest) :
    (stepNotify s size rest).Exclusive := by
  obtain ⟨⟨hmove, ho, hf⟩, htx⟩ := h.busy fun hq => by rw [hq.messages] at hms; cases hms
  have hbytes := h.bytes_busy ho htx
  cases hmove with
  | controller _ _ _ hm => rw [hm] at hms; cases hms
  | handler _ hm => rw [hm] at hms; cases hms
  | message _ hi hm =>
    rw [hm] at hms
    cases hms
    simp only [hi, List.nil_append] at hbytes
    by_cases hfull : s.epIn.maxPacket ≤ s.epIn.request.remainSize
    · have hnotify : dataNotify .configured s.epIn size 0 = ({ s.epIn with request :=
            { s.epIn.request with
              remainSize := s.epIn.request.remainSize - s.epIn.maxPacket
              buffer := s.epIn.request.buffer.map (· + s.epIn.maxPacket) } },
          [.epWrite s.epIn.request.buffer s.epIn.maxPacket], none) := by
        simp only [dataNotify, h.dirIn, hfull, ne_eq, not_true_eq_false, if_true, if_false]
      simp only [stepNotify, hnotify, perform]
      refine exclusive_of_packet h.dirIn h.maxPacket h.stalled h.overlap rfl rfl hidle ho hf htx
        fun hd => ?_
      simp only at hd ⊢
      rw [region_split s.ch s.epIn.request.buffer hfull, hbytes hd]
    · by_cases hpart : 0 < s.epIn.request.remainSize
      · have hnotify : dataNotify .configured s.epIn size 0 = ({ s.epIn with request :=
              { s.epIn.request with remainSize := 0 } },
            [.epWrite s.epIn.request.buffer s.epIn.request.remainSize], none) := by
          simp only [dataNotify, h.dirIn, hfull, hpart, ne_eq, not_true_eq_false, if_true,
            if_false]
        simp only [stepNotify, hnotify, perform]
        refine exclusive_of_packet h.dirIn h.maxPacket h.stalled h.overlap rfl rfl hidle ho hf htx
          fun hd => ?_
        simp only at hd ⊢
        rw [region_zero, List.append_nil, hbytes hd]
      · have hzero : s.epIn.request.remainSize = 0 := by omega
        have hnotify : dataNotify .configured s.epIn size 0 = (s.epIn, [], some size) := by
          simp only [dataNotify, h.dirIn, hfull, hpart, ne_eq, not_true_eq_false, if_true,
            if_false]
        simp only [stepNotify, hnotify, perform]
        exact ⟨h.dirIn, h.maxPacket, h.stalled, h.overlap, h.filled, h.cleared,
          .inr ⟨⟨.handler hi rfl rfl hzero, ho, hf⟩, htx⟩, h.bytes⟩

/-- `_ep_in_handler`: a zero-length packet goes to the controller, or the completion is
signalled and the transfer side is quiet again. -/
theorem exclusive_handle {s : VcomTx} (h : s.Exclusive) (hpark : s.Parked)
    (hh : s.usbd = .handling) : (stepHandle s).Exclusive := by
  obtain ⟨⟨hmove, ho, hf⟩, htx⟩ := h.busy fun hq => by rw [hq.usbd] at hh; cases hh
  have hbytes := h.bytes_busy ho htx
  cases hmove with
  | controller _ _ _ _ hu => rw [hu] at hh; cases hh
  | message _ _ _ hu => rw [hu] at hh; cases hh
  | handler hi hm _ hr =>
    simp only [hi, hr, region_zero, List.append_nil] at hbytes
    by_cases hz : s.epIn.request.size ≠ 0 ∧ s.epIn.request.size % s.epIn.maxPacket = 0
    · have hlt : ¬ s.epIn.maxPacket ≤ 0 := by rw [h.maxPacket]; decide
      have hhandler : epInHandler s.epIn = ({ s.epIn with request :=
          { reqType := .write, buffer := none, size := 0, remainSize := 0 } },
          [.epWrite none 0]) := by
        rw [epInHandler, if_pos hz]
        simp only [rtUsbdIoRequest, h.stalled, rtUsbdEpWrite, hlt, if_false, Bool.false_eq_true]
      simp only [stepHandle, hhandler, perform]
      refine exclusive_of_packet h.dirIn h.maxPacket h.stalled h.overlap rfl hm rfl ho hf htx
        fun hd => ?_
      simp only [region_zero, List.append_nil] at hd ⊢
      exact hbytes hd
    · have hhandler : epInHandler s.epIn = (s.epIn, [.completionDone]) := by
        rw [epInHandler, if_neg hz]
      have hpark' : VcomTx.Parked { s with usbd := .idle } :=
        ⟨hpark.event, hpark.completion, hpark.unsignalled⟩
      have hdone : stepHandle s = signal { s with usbd := .idle } := by
        simp only [stepHandle, hhandler]
        rw [perform_completionDone hpark']
        rfl
      rw [hdone]
      rcases htx with he | he
      · have hsig : signal { s with usbd := .idle } = { s with
            usbd := .idle, completion := { flag := true, suspendedList := [] }
            outstanding := false } := by
          simp only [signal, he, reduceCtorEq, if_false]
        rw [hsig]
        refine ⟨h.dirIn, h.maxPacket, h.stalled, h.overlap, h.filled, ?_,
          .inl ⟨⟨hi, hm, rfl, rfl⟩, ?_, fun _ => rfl⟩, fun hd => ?_⟩
        · intro r hc
          rw [he] at hc
          exact hc.elim TxPc.noConfusion TxPc.noConfusion
        · rw [he]
          exact TxPc.noConfusion
        · unfold VcomTx.unsent
          simp only [he, Bool.false_eq_true, if_false, List.append_nil]
          exact hbytes hd
      · have hsig : signal { s with usbd := .idle } = { s with
            usbd := .idle, completion := { flag := true, suspendedList := [] }
            outstanding := false, tx := .woken } := by
          simp only [signal, he, if_true]
        rw [hsig]
        refine ⟨h.dirIn, h.maxPacket, h.stalled, h.overlap, fun _ hc => TxPc.noConfusion hc,
          fun _ hc => hc.elim TxPc.noConfusion TxPc.noConfusion,
          .inl ⟨⟨hi, hm, rfl, rfl⟩, TxPc.noConfusion, fun hc => TxPc.noConfusion hc⟩, fun hd => ?_⟩
        rw [unsent_of_looking rfl, List.append_nil]
        exact hbytes hd

/-! ## Steps of the writers -/

/-- A writer's step moves a thread only from one place without a chunk to another. -/
theorem exclusive_write {s : VcomTx} (h : s.Exclusive) (hw : s.Wakeful) (w : Nat) :
    (stepWriter s w).Exclusive := by
  have hput : (writerPut s w).Exclusive := by
    rcases touch_cases (decide ((writerStep s.connected s.openFlag s.ring (s.writers w)).ring ≠
      s.ring)) s.tx with hk | ⟨hc, -, hk⟩
    · simp only [writerPut, hk]
      exact h.frame _ s.event s.connected s.openFlag _
    · have hlook : s.tx.looking = true := by rw [hc]; rfl
      simp only [writerPut, hk]
      exact (h.look hlook rfl s.completion).frame _ s.event s.connected s.openFlag _
  rw [stepWriter]
  split
  · rw [sendEvent_eq (writerPut_parked hw.toParked w) hw.flag (writerPut_clear hw w)]
    split
    · next hs =>
      have hlook : (writerPut s w).tx.looking = true := by rw [hs]; rfl
      exact (hput.look hlook rfl _).frame _ _ _ _ _
    · exact hput.frame _ _ _ _ _
  · exact hput

/-- Every step but the expiry keeps the invariant. -/
theorem exclusive_step (s : VcomTx) (a : VcomAction) (t : VcomTx) (h : s.Wakeful ∧ s.Exclusive)
    (hok : NoExpiry s a) (hstep : vcomSystem.step s a = some t) : t.Wakeful ∧ t.Exclusive := by
  obtain ⟨hw, h⟩ := h
  refine ⟨wakeful_step s a t hw hstep, ?_⟩
  cases vcomStep_cases hstep with
  | call => exact h.frame s.ring s.event s.connected s.openFlag _
  | write => exact exclusive_write h hw _
  | tx htx => exact exclusive_tx h htx
  | checked htx =>
    have hlook : s.tx.looking = true := by rw [htx]; rfl
    exact h.look hlook (by split <;> rfl) s.completion
  | expire => exact hok.elim
  | inComplete hinflight => exact exclusive_inComplete h hinflight
  | notify hidle hmessages => exact exclusive_notify h hidle hmessages
  | handle hhandling => exact exclusive_handle h hw.toParked hhandling
  | lineState => exact h.frame s.ring s.event _ s.openFlag s.writers
  | openFlags => exact h.frame s.ring s.event s.connected _ s.writers

/-! ## A port that stays connected drops nothing -/

/-- The writer has found the port connected and is about to put. -/
def WriterPc.armed : WriterPc → Bool
  | .idle | .putc _ | .tx _ => false
  | _ => true

/-- Nothing has been dropped, and as long as the port has never been connected there is nothing
to drop. -/
structure VcomTx.Undropped (s : VcomTx) : Prop where
  dropped : s.dropped = false
  ring : s.connected = false → s.ring.queue = []
  writers : s.connected = false → ∀ w, (s.writers w).armed = false
  chunk : s.connected = false → ∀ res, s.tx = .got res → res = 0

/-- A writer that finds the port disconnected does nothing. -/
theorem writerStep_disconnected (openFlag : BitVec 16) (ring : TxRing) {pc : WriterPc}
    (h : pc.armed = false) : writerStep false openFlag ring pc = ⟨ring, .idle, false⟩ := by
  cases pc with
  | idle | putc | tx => rfl
  | _ => cases h

/-- The driver operations leave the thread where it is or wake it. -/
theorem perform_tx_cases (ops : List UsbOp) (s : VcomTx) :
    (perform s ops).tx = s.tx ∨ (perform s ops).tx = .woken := by
  induction ops generalizing s with
  | nil => exact .inl rfl
  | cons op ops ih =>
    cases op with
    | epWrite buffer size => exact ih { s with inflight := some (buffer, size) }
    | epReadPrepare buffer size => exact ih s
    | completionDone =>
      simp only [perform]
      refine (ih _).elim (fun he => ?_) .inr
      rw [he]
      simp only
      split
      · exact .inr rfl
      · exact .inl rfl

/-- The calls into the controller drop nothing. -/
theorem undropped_perform {s : VcomTx} (h : s.Undropped) (ops : List UsbOp) :
    (perform s ops).Undropped := by
  obtain ⟨hr, -, hw, hc, hd⟩ := perform_frame ops s
  refine ⟨hd.trans h.dropped, ?_, ?_, ?_⟩
  · rw [hr, hc]
    exact h.ring
  · rw [hw, hc]
    exact h.writers
  · rw [hc]
    intro hcon res he
    rcases perform_tx_cases ops s with htx | htx
    · exact h.chunk hcon res (htx.symm.trans he)
    · rw [htx] at he
      cases he

/-- A step that leaves the ring, the writers and the line alone and takes no chunk. -/
theorem VcomTx.Undropped.keep {s u : VcomTx} (h : s.Undropped) (hd : u.dropped = s.dropped)
    (hc : u.connected = s.connected) (hr : u.ring = s.ring) (hw : u.writers = s.writers)
    (htx : ∀ res, u.tx ≠ .got res) : u.Undropped := by
  refine ⟨hd.trans h.dropped, fun hcon => ?_, fun hcon => ?_, fun _ res he => absurd he (htx res)⟩
  · rw [hr]
    exact h.ring (hc.symm.trans hcon)
  · rw [hw]
    exact h.writers (hc.symm.trans hcon)

/-- A step of the thread drops nothing. -/
theorem undropped_tx {s t : VcomTx} (h : s.Undropped) (hstep : stepTx s = some t) :
    t.Undropped := by
  unfold stepTx at hstep
  cases htx : s.tx with
  | recv =>
    rw [htx] at hstep
    cases hstep
    unfold txRecv
    split
    · exact h.keep rfl rfl rfl rfl fun _ => TxPc.noConfusion
    · exact h.keep rfl rfl rfl rfl fun _ => TxPc.noConfusion
    · exact h.keep rfl rfl rfl rfl fun _ => TxPc.noConfusion
  | received res =>
    rw [htx] at hstep
    cases hstep
    refine h.keep rfl rfl rfl rfl fun r => ?_
    simp only
    split
    · exact TxPc.noConfusion
    · exact TxPc.noConfusion
  | get =>
    rw [htx] at hstep
    cases hstep
    refine ⟨h.dropped, fun hcon => ?_, h.writers, fun hcon res he => ?_⟩
    · change (s.ring.getSnd cdcBulkinMaxsize).queue = []
      rw [RingQueue.queue_getSnd, h.ring hcon, List.drop_nil]
    · cases he
      rw [RingQueue.getFst_eq, h.ring hcon, List.take_nil, List.length_nil]
  | got res =>
    rw [htx] at hstep
    cases hstep
    have hnone : decide (res ≠ 0 ∧ s.connected = false) = false :=
      decide_eq_false fun hc => hc.1 (h.chunk hc.2 res htx)
    refine ⟨?_, h.ring, h.writers, fun _ r he => ?_⟩
    · simp only [h.dropped, hnone, Bool.or_self]
    · simp only at he
      split at he
      · cases he
      · cases he
  | submit res =>
    rw [htx] at hstep
    cases hstep
    apply undropped_perform
    exact h.keep rfl rfl rfl rfl fun _ => TxPc.noConfusion
  | wait =>
    rw [htx] at hstep
    cases hstep
    unfold txWait
    split
    · exact h.keep rfl rfl rfl rfl fun _ => TxPc.noConfusion
    · exact h.keep rfl rfl rfl rfl fun _ => TxPc.noConfusion
  | check | initWait | fill | woken | after =>
    rw [htx] at hstep
    cases hstep
    exact h.keep rfl rfl rfl rfl fun _ => TxPc.noConfusion
  | suspended | checking | waiting => rw [htx] at hstep; cases hstep

theorem undropped_write {s : VcomTx} (h : s.Undropped) (hw : s.Wakeful) (w : Nat) :
    (stepWriter s w).Undropped := by
  have hgot : ∀ res, (writerPut s w).tx = .got res → s.tx = .got res :=
    fun _ he => (writerPut_tx s w fun _ => TxPc.noConfusion).mp he
  have hput : (writerPut s w).Undropped := by
    refine ⟨h.dropped, fun hcon => ?_, fun hcon v => ?_, fun hcon res he => ?_⟩
    · simp only [writerPut, show s.connected = false from hcon,
        writerStep_disconnected _ _ (h.writers hcon w)]
      exact h.ring hcon
    · simp only [writerPut, show s.connected = false from hcon,
        writerStep_disconnected _ _ (h.writers hcon w)]
      split
      · rfl
      · exact h.writers hcon v
    · exact h.chunk hcon res (hgot res he)
  rw [stepWriter]
  split
  · rw [sendEvent_eq (writerPut_parked hw.toParked w) hw.flag (writerPut_clear hw w)]
    split
    · exact ⟨hput.dropped, hput.ring, hput.writers, fun _ _ he => TxPc.noConfusion he⟩
    · exact ⟨hput.dropped, hput.ring, hput.writers, hput.chunk⟩
  · exact hput

theorem undropped_step (s : VcomTx) (a : VcomAction) (t : VcomTx) (h : s.Undropped)
    (hw : s.Wakeful) (hok : Steady s a) (hstep : vcomSystem.step s a = some t) : t.Undropped := by
  cases vcomStep_cases hstep with
  | @call w c =>
    refine ⟨h.dropped, h.ring, fun hcon v => ?_, h.chunk⟩
    simp only
    split
    · cases c <;> rfl
    · exact h.writers hcon v
  | write => exact undropped_write h hw _
  | tx htx => exact undropped_tx h htx
  | checked =>
    refine ⟨h.dropped, h.ring, h.writers, fun _ res he => ?_⟩
    simp only at he
    split at he
    · cases he
    · cases he
  | expire => exact hok.elim
  | inComplete => exact ⟨h.dropped, h.ring, h.writers, h.chunk⟩
  | notify =>
    unfold stepNotify
    split
    · apply undropped_perform
      exact ⟨h.dropped, h.ring, h.writers, h.chunk⟩
    · apply undropped_perform
      exact ⟨h.dropped, h.ring, h.writers, h.chunk⟩
  | handle =>
    simp only [stepHandle]
    apply undropped_perform
    exact ⟨h.dropped, h.ring, h.writers, h.chunk⟩
  | @lineState connected =>
    -- the line state only ever rises in a steady run
    have hc : connected = true := hok
    subst hc
    exact ⟨h.dropped, Bool.noConfusion, Bool.noConfusion, Bool.noConfusion⟩
  | openFlags => exact ⟨h.dropped, h.ring, h.writers, h.chunk⟩

/-! ## The laws -/

/-- At most one transfer of the virtual COM port is outstanding, over every run in which no wait
of the thread expires: it never issues a request before the completion of the last one, also
when the host disconnects. While the port stays connected the bytes the controller has sent are
those taken from the ring, in order, up to what is still unsent of the chunk in hand, and all
of them whenever the thread has none. -/
theorem vcomTx_one_outstanding (s : VcomTx) :
    (vcomSystem.Reach NoExpiry s → s.overlap = false) ∧
    (vcomSystem.Reach Steady s →
      s.removed = s.wire ++ s.unsent ∧ (s.tx.looking = true → s.removed = s.wire)) := by
  have hexcl : ∀ s, vcomSystem.Reach NoExpiry s → s.Wakeful ∧ s.Exclusive :=
    fun s h => h.invariant (P := fun u => u.Wakeful ∧ u.Exclusive) ⟨wakeful_init, exclusive_init⟩
      exclusive_step
  refine ⟨fun h => (hexcl s h).2.overlap, fun h => ?_⟩
  have hinit : vcomSystem.init.Undropped :=
    ⟨rfl, fun _ => queue_txRingInit, fun _ _ => rfl, fun _ _ he => TxPc.noConfusion he⟩
  have hdrop := h.invariant (P := fun u => u.Wakeful ∧ u.Undropped) ⟨wakeful_init, hinit⟩
    fun u a t hu hok hst => ⟨wakeful_step u a t hu.1 hst, undropped_step u a t hu.2 hu.1 hok hst⟩
  have hbytes := (hexcl s (h.mono noExpiry_of_steady)).2.bytes hdrop.2.dropped
  refine ⟨hbytes, fun hlook => ?_⟩
  rw [unsent_of_looking hlook, List.append_nil] at hbytes
  exact hbytes

/-- A schedule that takes the byte `c` through the ring up to the request for it. -/
def sendOne (c : UInt8) : List VcomAction :=
  [.call 0 (.putc c), .write 0, .write 0, .write 0]

/-- The thread from its event to its wait. -/
def txChunk : List VcomAction :=
  [.tx, .checked 1, .tx, .tx, .tx, .tx, .tx, .tx]

/-- One byte all the way to the host. -/
theorem vcomTx_one_outstanding_byte :
    ∃ s, (vcomSystem.Reach NoExpiry s ∧ s.overlap = false) ∧
      vcomSystem.Reach Steady s ∧ s.wire = [0x41] ∧ s.removed = s.wire ++ s.unsent := by
  obtain ⟨s, hreach, hwire⟩ :=
    Machine.exists_reach_of_run vcomSystem Steady
      ([.lineState true] ++ sendOne 0x41 ++ [.tx, .tx] ++ txChunk ++
        [.inComplete, .notify, .handle])
      (fun s => s.wire = [0x41]) (by decide +kernel)
  have hno := hreach.mono noExpiry_of_steady
  obtain ⟨hover, hsent⟩ := vcomTx_one_outstanding s
  exact ⟨s, ⟨hno, hover hno⟩, hreach, hwire, (hsent hreach).1⟩

/-- The wait for the first byte expires and the second one is requested over it, before any
packet has completed; the first byte is neither sent nor to be sent any more. -/
theorem vcomTx_overlapping_request :
    ¬ ∀ s, vcomSystem.Reach Machine.any s → s.overlap = false ∧ s.removed = s.wire ++ s.unsent := by
  intro h
  obtain ⟨s, hreach, hover, -, -⟩ :=
    Machine.exists_reach_of_run vcomSystem Machine.any
      ([.lineState true] ++ sendOne 0x41 ++ [.tx, .tx] ++ txChunk ++ [.expire, .tx, .tx] ++
        sendOne 0x42 ++ txChunk)
      (fun s => s.overlap = true ∧ s.wire = [] ∧ s.unsent = [0x42]) (by decide +kernel)
  rw [(h s hreach).1] at hover
  cases hover

end RtVcom.Vcom

import Mathlib.Algebra.Ring.Int.Defs
import Mathlib.Algebra.BigOperators.Group.List.Basic
import RtVcom.Lib.Machine

/-!
# The count of the bytes a DMA channel has received

The channel stores byte after byte around the buffer and counts down what is left of it. Two
handlers of `drv_usart.c` tell the serial framework how many bytes came in since the last time:
`uart_isr` when the line falls idle, and `HAL_UART_RxCpltCallback` when the channel has come to the
end of the buffer. Both go by `last_index`, up to which the bytes are told.

The callback runs some time after the channel has begun the buffer again. If the line falls idle
before that, `uart_isr` takes the new index for one of the old round: the difference of the indices
is not the number of bytes, and below zero where the new index is the smaller one. In every run the
lengths are right all along exactly if that never happens (`dma_count_iff`).

Each handler works out its length with the interrupts off and reports it with them on, so that the
channel and the other handler go on in between.
-/

namespace RtVcom.Serial

open RtVcom.Lib

/-! ## The event -/

/-- `RT_SERIAL_EVENT_RX_DMADONE | (recv_len << 8)`. -/
def dmadoneEvent (recvLen : BitVec 32) : BitVec 32 := 0x03#32 ||| recvLen <<< 8

/-- `length = (event & (~0xff)) >> 8` in `rt_hw_serial_isr`, where both are an `int`. -/
def dmadoneLength (event : BitVec 32) : Int := ((event &&& ~~~0xff#32).sshiftRight 8).toInt

/-- The length is what the event carries beside its code. -/
theorem dmadoneEvent_masked (recvLen : BitVec 32) :
    dmadoneEvent recvLen &&& ~~~0xff#32 = recvLen <<< 8 := by
  have hmask : ∀ i < 32, (~~~0xff#32).getLsbD i = decide (8 ≤ i) := by decide
  have hevent : ∀ i < 32, 8 ≤ i → (0x03#32).getLsbD i = false := by decide
  apply BitVec.eq_of_getLsbD_eq
  intro i hi
  rw [dmadoneEvent, BitVec.getLsbD_and, BitVec.getLsbD_or, hmask i hi, BitVec.getLsbD_shiftLeft]
  by_cases hlow : 8 ≤ i
  · rw [hevent i hi hlow, decide_eq_true hlow, Bool.false_or, Bool.and_true]
  · rw [decide_eq_false hlow, Bool.and_false, decide_eq_true (Nat.lt_of_not_le hlow)]
    simp

/-- A length of 24 bits comes through, with its sign. -/
theorem dmadoneLength_event {recvLen : BitVec 32} (hlow : -0x800000 ≤ recvLen.toInt)
    (hhigh : recvLen.toInt < 0x800000) : dmadoneLength (dmadoneEvent recvLen) = recvLen.toInt := by
  have hshift : (recvLen <<< 8).toInt = recvLen.toInt * 256 := by
    have hbmod := Int.bmod_def ((recvLen.toNat * 2 ^ 8 : Nat) : Int) (2 ^ 32)
    have hlt := recvLen.isLt
    rw [BitVec.toInt_eq_toNat_cond] at hlow hhigh
    rw [BitVec.toInt_shiftLeft, Nat.shiftLeft_eq, BitVec.toInt_eq_toNat_cond]
    split at hlow <;> split at hbmod <;> split at hhigh <;> split <;> omega
  rw [dmadoneLength, dmadoneEvent_masked, BitVec.toInt_sshiftRight, hshift,
    Int.shiftRight_eq_div_pow]
  omega

/-! ## The handlers -/

/-- The counter of the channel, `dma.last_index`, whether the callback of the last round is still
to come, and the lengths that the handlers have worked out and not yet reported. Beside it, what is
not in the source: the lengths reported, the number of bytes stored, how many these were when the
last round was complete, and how many at the last event handled. -/
structure DmaUart where
  counter : Nat
  lastIndex : BitVec 32
  rxCplt : Bool
  idleLen : Option (BitVec 32)
  cpltLen : Option (BitVec 32)
  reported : List Int
  stored : Nat
  roundStored : Nat
  handled : Nat
deriving DecidableEq

/-- A byte is stored, a handler works out its length, or a handler reports it. -/
inductive DmaAction
  | byte
  | idle
  | idleReport
  | cplt
  | cpltReport
deriving Repr, DecidableEq

/-- `if (recv_len)`: what is left to report. -/
def recvReport (recvLen : BitVec 32) : Option (BitVec 32) :=
  if recvLen ≠ 0 then some recvLen else none

namespace DmaUart

variable (bufsz : Nat) (s : DmaUart)

/-- The channel stores a byte. Behind the last one of the buffer it begins again, and the callback
of the round before has run by then. -/
def byte : Option DmaUart :=
  if s.counter = 1 then
    if s.rxCplt then none
    else some { s with
      counter := bufsz
      rxCplt := true
      stored := s.stored + 1
      roundStored := s.stored + 1 }
  else some { s with counter := s.counter - 1, stored := s.stored + 1 }

/-- The branch of `uart_isr` for an idle line, up to its `rt_hw_interrupt_enable`. -/
def uartIsr : DmaUart :=
  let recvTotalIndex := BitVec.ofNat 32 bufsz - BitVec.ofNat 32 s.counter
  let recvLen := recvTotalIndex - s.lastIndex
  { s with lastIndex := recvTotalIndex, idleLen := recvReport recvLen, handled := s.stored }

/-- `HAL_UART_RxCpltCallback` likewise. The event it handles is the end of the round. -/
def rxCpltCallback : DmaUart :=
  let recvLen := BitVec.ofNat 32 bufsz - s.lastIndex
  { s with
    lastIndex := 0
    rxCplt := false
    cpltLen := recvReport recvLen
    handled := s.roundStored }

/-- One step. No handler interrupts itself, and the callback runs once for each round. -/
def step : DmaAction → Option DmaUart
  | .byte => s.byte bufsz
  | .idle => if s.idleLen.isSome then none else some (s.uartIsr bufsz)
  | .idleReport => s.idleLen.map fun recvLen =>
    { s with idleLen := none, reported := s.reported ++ [dmadoneLength (dmadoneEvent recvLen)] }
  | .cplt => if s.rxCplt ∧ s.cpltLen = none then some (s.rxCpltCallback bufsz) else none
  | .cpltReport => s.cpltLen.map fun recvLen =>
    { s with cpltLen := none, reported := s.reported ++ [dmadoneLength (dmadoneEvent recvLen)] }

end DmaUart

/-- A channel that has been started, and every order of bytes and handlers. -/
def dmaMachine (bufsz : Nat) : Machine DmaUart DmaAction where
  init :=
    { counter := bufsz, lastIndex := 0, rxCplt := false, idleLen := none, cpltLen := none,
      reported := [], stored := 0, roundStored := 0, handled := 0 }
  step := DmaUart.step bufsz

/-! ## The law -/

namespace DmaUart

/-- The lengths reported, with those that the handlers under way are going to report. -/
def lengths (s : DmaUart) : List Int :=
  s.reported ++ ((s.idleLen.toList ++ s.cpltLen.toList).map fun recvLen =>
    dmadoneLength (dmadoneEvent recvLen))

/-- Every length is one of bytes in the buffer, and together they are the bytes stored up to the
last event handled. With no handler under way these are the lengths reported. -/
structure Accounted (bufsz : Nat) (s : DmaUart) : Prop where
  bounds : ∀ len ∈ s.lengths, 1 ≤ len ∧ len ≤ bufsz
  total : s.lengths.sum = s.handled

end DmaUart

/-- The line does not fall idle between the end of a round and its callback. -/
def RoundTold (s : DmaUart) : DmaAction → Prop
  | .idle => s.rxCplt = false
  | _ => True

instance : DecidableRel RoundTold := fun s a => by
  cases a <;> unfold RoundTold <;> infer_instance

/-! ## One length more -/

section Lengths

variable {bufsz : Nat} {s t : DmaUart}

/-- The order of the lengths does not matter. -/
theorem DmaUart.Accounted.perm (h : s.Accounted bufsz) (hperm : t.lengths.Perm s.lengths)
    (hhandled : t.handled = s.handled) : t.Accounted bufsz :=
  ⟨fun len hlen => h.bounds len (hperm.subset hlen), by rw [hperm.sum_eq, h.total, hhandled]⟩

/-- What a handler that reports `recvLen` adds. -/
def recvLengths (recvLen : BitVec 32) : List Int :=
  (recvReport recvLen).toList.map fun recvLen => dmadoneLength (dmadoneEvent recvLen)

/-- The idle interrupt tells of what came since the last index. -/
theorem lengths_uartIsr (hidle : s.idleLen = none) :
    (s.uartIsr bufsz).lengths.Perm (s.lengths ++
      recvLengths (BitVec.ofNat 32 bufsz - BitVec.ofNat 32 s.counter - s.lastIndex)) := by
  unfold DmaUart.lengths DmaUart.uartIsr recvLengths
  rw [hidle, List.map_append, List.append_assoc]
  exact List.Perm.append_left _ List.perm_append_comm

/-- The callback tells of what the last index leaves of the buffer. -/
theorem lengths_rxCpltCallback (hcplt : s.cpltLen = none) :
    (s.rxCpltCallback bufsz).lengths =
      s.lengths ++ recvLengths (BitVec.ofNat 32 bufsz - s.lastIndex) := by
  unfold DmaUart.lengths DmaUart.rxCpltCallback recvLengths
  rw [hcplt, List.map_append, List.map_append, Option.toList_none, List.map_nil, List.append_nil,
    List.append_assoc]

/-- The sum of what it adds is the difference of the indices. -/
theorem sum_recvLengths {recvLen : BitVec 32} (hlow : -0x800000 ≤ recvLen.toInt)
    (hhigh : recvLen.toInt < 0x800000) : (recvLengths recvLen).sum = recvLen.toInt := by
  unfold recvLengths recvReport
  by_cases hzero : recvLen = 0
  · rw [if_neg fun h => h hzero, hzero]
    rfl
  · rw [if_pos hzero]
    simp [dmadoneLength_event hlow hhigh]

/-- A length told is the distance counted, and not zero. -/
theorem mem_recvLengths {recvLen : BitVec 32} {len : Int} (hlow : -0x800000 ≤ recvLen.toInt)
    (hhigh : recvLen.toInt < 0x800000) (h : len ∈ recvLengths recvLen) :
    len = recvLen.toInt ∧ recvLen ≠ 0 := by
  unfold recvLengths recvReport at h
  by_cases hzero : recvLen = 0
  · rw [if_neg fun h => h hzero] at h
    exact absurd h List.not_mem_nil
  · rw [if_pos hzero] at h
    simp only [Option.toList_some, List.map_cons, List.map_nil, List.mem_singleton] at h
    exact ⟨h.trans (dmadoneLength_event hlow hhigh), hzero⟩

/-- A handler that adds a length between 1 and `bufsz`, or none. -/
theorem DmaUart.Accounted.add (h : s.Accounted bufsz) {recvLen : BitVec 32} {len : Nat}
    (hrecv : recvLen.toInt = len) (hle : len ≤ bufsz) (hsmall : bufsz ≤ 0x7fff)
    (hperm : t.lengths.Perm (s.lengths ++ recvLengths recvLen))
    (hhandled : t.handled = s.handled + len) : t.Accounted bufsz := by
  have hlow : -0x800000 ≤ recvLen.toInt := by omega
  have hhigh : recvLen.toInt < 0x800000 := by omega
  constructor
  · intro x hx
    rcases List.mem_append.mp (hperm.subset hx) with hold | hnew
    · exact h.bounds x hold
    · obtain ⟨rfl, hne⟩ := mem_recvLengths hlow hhigh hnew
      have hpos : recvLen.toInt ≠ 0 := fun hzero =>
        hne (BitVec.eq_of_toInt_eq (hzero.trans BitVec.toInt_zero.symm))
      omega
  · rw [hperm.sum_eq, List.sum_append, h.total, sum_recvLengths hlow hhigh, hrecv, hhandled]
    exact (Int.natCast_add _ _).symm

end Lengths

/-! ## The invariant -/

/-- Where the index that was told last stands: in the round the channel is in, or in the one before
while its callback is still to come. -/
structure DmaUart.Counted (bufsz : Nat) (s : DmaUart) : Prop where
  counter_pos : 1 ≤ s.counter
  counter_le : s.counter ≤ bufsz
  stored_eq : s.stored + s.counter = s.roundStored + bufsz
  last_lt : s.lastIndex.toNat < bufsz
  current : s.rxCplt = false →
    s.lastIndex.toNat + s.counter ≤ bufsz ∧ s.handled = s.roundStored + s.lastIndex.toNat
  before : s.rxCplt = true → s.handled + bufsz = s.roundStored + s.lastIndex.toNat
  accounted : s.Accounted bufsz

section Steps

variable {bufsz : Nat} {s t : DmaUart}

/-- The difference of two indices, as a signed number. -/
theorem toInt_indices {index : Nat} {last : BitVec 32} (hindex : index ≤ 0x7fff)
    (hlast : last.toNat ≤ 0x7fff) : (BitVec.ofNat 32 index - last).toInt = index - last.toNat := by
  have hnat : (BitVec.ofNat 32 index).toNat = index := by
    rw [BitVec.toNat_ofNat]
    omega
  rw [BitVec.toInt_sub, BitVec.toInt_eq_toNat_of_lt (by omega),
    BitVec.toInt_eq_toNat_of_lt (by omega), hnat, Int.bmod_eq_of_le (by omega) (by omega)]

/-- `recv_total_index`: how far the channel is in the buffer. -/
theorem recvTotalIndex_eq {counter : Nat} (hle : counter ≤ bufsz) (hsmall : bufsz ≤ 0x7fff) :
    BitVec.ofNat 32 bufsz - BitVec.ofNat 32 counter = BitVec.ofNat 32 (bufsz - counter) := by
  apply BitVec.eq_of_toNat_eq
  rw [BitVec.toNat_sub, BitVec.toNat_ofNat, BitVec.toNat_ofNat, BitVec.toNat_ofNat]
  omega

theorem toNat_index {index : Nat} (h : index ≤ 0x7fff) : (BitVec.ofNat 32 index).toNat = index := by
  rw [BitVec.toNat_ofNat]
  omega

/-- The count is right before the first byte. -/
theorem counted_init (hpos : 1 ≤ bufsz) : (dmaMachine bufsz).init.Counted bufsz where
  counter_pos := hpos
  counter_le := Nat.le_refl _
  stored_eq := rfl
  last_lt := hpos
  current _ := ⟨Nat.le_of_eq (Nat.zero_add _), rfl⟩
  before h := Bool.noConfusion h
  accounted := ⟨List.forall_mem_nil _, rfl⟩

/-- A byte that comes in keeps it right. -/
theorem Counted.byte (h : s.Counted bufsz) (hpos : 1 ≤ bufsz) (hstep : s.byte bufsz = some t) :
    t.Counted bufsz := by
  have hcounter := h.counter_pos
  have hle := h.counter_le
  have hstored := h.stored_eq
  have hlast := h.last_lt
  unfold DmaUart.byte at hstep
  split at hstep
  case isTrue hend =>
    split at hstep
    case isTrue => cases hstep
    case isFalse hcplt =>
      obtain ⟨hlastLe, hhandled⟩ := h.current (Bool.eq_false_iff.mpr hcplt)
      cases hstep
      refine ⟨hpos, Nat.le_refl _, rfl, hlast, fun hc => Bool.noConfusion hc, fun _ => ?_,
        h.accounted.perm (List.Perm.refl _) rfl⟩
      dsimp only
      omega
  case isFalse hmid =>
    cases hstep
    refine ⟨?_, ?_, ?_, hlast, fun hc => ?_, h.before, h.accounted.perm (List.Perm.refl _) rfl⟩
    · dsimp only
      omega
    · dsimp only
      omega
    · dsimp only
      omega
    · obtain ⟨hlastLe, hhandled⟩ := h.current hc
      exact ⟨by dsimp only; omega, hhandled⟩

/-- The line falls idle, and the callbacks of all rounds have run: the bytes since the last index
are told. -/
theorem Counted.uartIsr (h : s.Counted bufsz) (hsmall : bufsz ≤ 0x7fff)
    (hidle : s.idleLen = none) (hcplt : s.rxCplt = false) : (s.uartIsr bufsz).Counted bufsz := by
  have hstored := h.stored_eq
  have hle := h.counter_le
  have hlast := h.last_lt
  have hcounter := h.counter_pos
  obtain ⟨hlastLe, hhandled⟩ := h.current hcplt
  have htotal := recvTotalIndex_eq hle hsmall
  have hindex : (s.uartIsr bufsz).lastIndex.toNat = bufsz - s.counter := by
    rw [DmaUart.uartIsr, htotal, toNat_index (by omega)]
  have hlen : (BitVec.ofNat 32 bufsz - BitVec.ofNat 32 s.counter - s.lastIndex).toInt =
      ((bufsz - s.counter - s.lastIndex.toNat : Nat) : Int) := by
    rw [htotal, toInt_indices (by omega) (by omega)]
    omega
  constructor
  case counter_pos => exact hcounter
  case counter_le => exact hle
  case stored_eq => exact hstored
  case last_lt => omega
  case current =>
    intro _
    rw [hindex]
    refine ⟨?_, ?_⟩
    · change bufsz - s.counter + s.counter ≤ bufsz
      omega
    · change s.stored = s.roundStored + (bufsz - s.counter)
      omega
  case before => exact fun hc => Bool.noConfusion (hcplt.symm.trans hc)
  case accounted =>
    refine h.accounted.add hlen (by omega) hsmall (lengths_uartIsr hidle) ?_
    change s.stored = _
    omega

/-- The callback tells what was left of the round. -/
theorem Counted.rxCpltCallback (h : s.Counted bufsz) (hsmall : bufsz ≤ 0x7fff)
    (hlen : s.cpltLen = none) (hcplt : s.rxCplt = true) :
    (s.rxCpltCallback bufsz).Counted bufsz := by
  have hstored := h.stored_eq
  have hle := h.counter_le
  have hlast := h.last_lt
  have hcounter := h.counter_pos
  have hhandled := h.before hcplt
  have hrecv : (BitVec.ofNat 32 bufsz - s.lastIndex).toInt =
      ((bufsz - s.lastIndex.toNat : Nat) : Int) := by
    rw [toInt_indices hsmall (by omega)]
    omega
  constructor
  case counter_pos => exact hcounter
  case counter_le => exact hle
  case stored_eq => exact hstored
  case last_lt =>
    change 0 < bufsz
    omega
  case current =>
    intro _
    refine ⟨?_, rfl⟩
    change 0 + s.counter ≤ bufsz
    omega
  case before => exact fun hc => Bool.noConfusion hc
  case accounted =>
    refine h.accounted.add hrecv (Nat.sub_le _ _) hsmall
      (List.Perm.of_eq (lengths_rxCpltCallback hlen)) ?_
    change s.roundStored = _
    omega

/-- A report changes neither the lengths nor what was handled. -/
theorem Counted.report (h : s.Counted bufsz) (hperm : t.lengths.Perm s.lengths)
    (hsame : { t with idleLen := s.idleLen, cpltLen := s.cpltLen, reported := s.reported } = s) :
    t.Counted bufsz := by
  obtain ⟨counter, lastIndex, rxCplt, idleLen, cpltLen, reported, stored, roundStored, handled⟩ := s
  obtain ⟨counter', lastIndex', rxCplt', idleLen', cpltLen', reported', stored', roundStored',
    handled'⟩ := t
  simp only [DmaUart.mk.injEq] at hsame
  obtain ⟨rfl, rfl, rfl, -, -, -, rfl, rfl, rfl⟩ := hsame
  exact ⟨h.counter_pos, h.counter_le, h.stored_eq, h.last_lt, h.current, h.before,
    h.accounted.perm hperm rfl⟩

theorem Counted.step (h : s.Counted bufsz) (hpos : 1 ≤ bufsz) (hsmall : bufsz ≤ 0x7fff)
    {a : DmaAction} (hok : RoundTold s a) (hstep : s.step bufsz a = some t) : t.Counted bufsz := by
  cases a with
  | byte => exact Counted.byte h hpos hstep
  | idle =>
    obtain ⟨hidle, ⟨⟩⟩ := Option.ite_none_left_eq_some.mp hstep
    exact Counted.uartIsr h hsmall (Option.not_isSome_iff_eq_none.mp hidle) hok
  | idleReport =>
    obtain ⟨recvLen, hlen, rfl⟩ := Option.map_eq_some_iff.mp hstep
    refine Counted.report h ?_ rfl
    unfold DmaUart.lengths
    rw [hlen, List.append_assoc]
    exact List.Perm.refl _
  | cplt =>
    obtain ⟨⟨hcplt, hlen⟩, ⟨⟩⟩ := Option.ite_none_right_eq_some.mp hstep
    exact Counted.rxCpltCallback h hsmall hlen hcplt
  | cpltReport =>
    obtain ⟨recvLen, hlen, rfl⟩ := Option.map_eq_some_iff.mp hstep
    refine Counted.report h ?_ rfl
    unfold DmaUart.lengths
    rw [hlen, Option.toList_none, List.append_nil, List.append_assoc, List.map_append]
    exact List.Perm.append_left _ List.perm_append_comm

/-- The line falls idle between the end of a round and its callback: a round is missing from what
is told. -/
theorem Counted.not_accounted_uartIsr (h : s.Counted bufsz) (hpos : 1 ≤ bufsz)
    (hsmall : bufsz ≤ 0x7fff) (hidle : s.idleLen = none) (hcplt : s.rxCplt = true) :
    ¬(s.uartIsr bufsz).Accounted bufsz := by
  intro hacc
  have hstored := h.stored_eq
  have hle := h.counter_le
  have hlast := h.last_lt
  have hbefore := h.before hcplt
  have hlen : (BitVec.ofNat 32 bufsz - BitVec.ofNat 32 s.counter - s.lastIndex).toInt =
      ((bufsz - s.counter : Nat) : Int) - s.lastIndex.toNat := by
    rw [recvTotalIndex_eq hle hsmall, toInt_indices (by omega) (by omega)]
  have htotal : (s.uartIsr bufsz).lengths.sum = s.stored := hacc.total
  rw [(lengths_uartIsr hidle).sum_eq, List.sum_append, h.accounted.total,
    sum_recvLengths (by omega) (by omega), hlen] at htotal
  omega

/-- A step keeps the count exactly if it does not fall between the end of a round and its
callback. -/
theorem Counted.step_iff (h : s.Counted bufsz) (hpos : 1 ≤ bufsz) (hsmall : bufsz ≤ 0x7fff)
    {a : DmaAction} (hstep : s.step bufsz a = some t) : t.Accounted bufsz ↔ RoundTold s a := by
  refine ⟨fun hacc => ?_, fun hok => (Counted.step h hpos hsmall hok hstep).accounted⟩
  cases a with
  | idle =>
    obtain ⟨hidle, ⟨⟩⟩ := Option.ite_none_left_eq_some.mp hstep
    refine Bool.eq_false_iff.mpr fun hcplt => ?_
    exact Counted.not_accounted_uartIsr h hpos hsmall (Option.not_isSome_iff_eq_none.mp hidle)
      hcplt hacc
  | byte | idleReport | cplt | cpltReport => trivial

end Steps

/-- **The count.** For every buffer of 1 to 32767 bytes and every run of bytes and handlers: all
along the run the lengths are between 1 and `bufsz` and add up to the bytes stored up to the last
event handled, exactly if the line never falls idle between the end of a round and its callback. -/
theorem dma_count_iff (bufsz : Nat) (hpos : 1 ≤ bufsz) (hsmall : bufsz ≤ 32767)
    (actions : List DmaAction) (s : DmaUart)
    (hrun : (dmaMachine bufsz).runFrom Machine.any (dmaMachine bufsz).init actions = some s) :
    (∀ before t, before <+: actions →
      (dmaMachine bufsz).runFrom Machine.any (dmaMachine bufsz).init before = some t →
        t.Accounted bufsz) ↔
      (dmaMachine bufsz).runFrom RoundTold (dmaMachine bufsz).init actions = some s :=
  Machine.forall_prefix_iff (I := (DmaUart.Counted bufsz ·)) (fun _ h => h.accounted)
    (fun _ _ _ h hstep => Counted.step_iff h hpos hsmall hstep)
    (fun _ _ _ h hok hstep => Counted.step h hpos hsmall hok hstep) (counted_init hpos) hrun

/-- Three bytes in a buffer of four, told when the line falls idle; the fourth, with which the
channel begins again, told by the callback; and two of the next round. -/
theorem dma_count_round :
    let actions : List DmaAction := [.byte, .byte, .byte, .idle, .idleReport, .byte, .cplt,
      .cpltReport, .byte, .byte, .idle, .idleReport]
    let behind : DmaUart := ⟨2, 2, false, none, none, [3, 1, 2], 6, 4, 6⟩
    (∀ before t, before <+: actions →
      (dmaMachine 4).runFrom Machine.any (dmaMachine 4).init before = some t → t.Accounted 4) ↔
      (dmaMachine 4).runFrom RoundTold (dmaMachine 4).init actions = some behind :=
  dma_count_iff 4 (by decide) (by decide) _ _ (by decide)

/-- Two more bytes, and the line falls idle again before the callback: the length is -2. -/
theorem dma_count_underflow :
    ∃ s, (dmaMachine 4).runFrom Machine.any (dmaMachine 4).init
        [.byte, .byte, .byte, .idle, .idleReport, .byte, .byte, .idle, .idleReport] = some s ∧
      s.idleLen = none ∧ s.cpltLen = none ∧ s.reported = [3, -2] ∧ ¬s.Accounted 4 := by
  refine ⟨⟨3, 1, true, none, none, [3, -2], 5, 4, 5⟩, by decide, rfl, rfl, rfl, fun h => ?_⟩
  exact absurd (h.bounds (-2) (by decide)).1 (by decide)

end RtVcom.Serial

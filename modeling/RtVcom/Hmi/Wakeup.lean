import RtVcom.Lib.Machine
import RtVcom.Serial.RxFifo
import RtVcom.Hmi.Receiver

/-!
# Tokens and bytes of the HMI receiver

The uart3 receive interrupt and `hmi_thread` as one machine. The interrupt drains the
characters the hardware holds into the serial receive FIFO and then calls `uart3_input`, which
releases `hmi_sem` once. The thread takes a token and reads one byte, in that order, so that a
byte is read only for a token or for an expired wait.

The two sides count in different units: a token is an interrupt, and a byte is a byte. The
measure is `Uart3.tokens`, the tokens counted in the semaphore and the one in the thread's
hand. While the unread bytes do not exceed it, a thread that waits leaves nothing unread. An
interrupt adds one token and any number of bytes, so it keeps that bound exactly when its
characters fit the tokens to spare (`Uart3.Fits`). `hmi_nothing_stranded` is the law under this
condition, and `hmi_strands_byte` an interrupt of two characters that breaks it. The reader of
the shell does not depend on the count: `finsh_getchar` reads until nothing is left before it
takes a token.
-/

namespace RtVcom.Hmi

open RtVcom.Lib RtVcom.Kernel RtVcom.Serial

/-! ## The system -/

/-- `RT_SERIAL_RB_BUFSZ`, the FIFO of uart3. -/
def rtSerialRbBufsz : Nat := 64

/-- `hmi_thread` as a thread, with its `HMI_THREAD_PRIORITY`. -/
def hmiTid : RtThread := { id := 0, currentPriority := 20 }

/-- Where `hmi_thread` is: about to call `rt_sem_take`, suspended in it, or behind it with
the value it returned. -/
inductive HmiPc
  | taking
  | blocked
  | reading (err : Int)
deriving Repr, DecidableEq

/-- The receive FIFO of uart3, `hmi_sem`, and the thread. -/
structure Uart3 where
  fifo : RxQueue rtSerialRbBufsz
  sem : RtSem
  pc : HmiPc
  hmi : HmiState

/-- The critical sections of the two parties, and the expiry of the thread's timer. -/
inductive Uart3Action
  | irq (chars : List UInt8)
  | take
  | timeout
  | read
deriving Repr, DecidableEq

/-- `uart3_input`: release the semaphore; a waiting thread goes on behind `rt_sem_take`. -/
def uart3Input (s : Uart3) : Uart3 :=
  match rtSemRelease s.sem with
  | (sem, some _) => { s with sem, pc := .reading rtEok }
  | (sem, none) => { s with sem }

/-- A receive interrupt: `rt_hw_serial_isr` with the characters `getc` hands out. -/
def uart3Isr (s : Uart3) (chars : List UInt8) : Uart3 :=
  let s := { s with fifo := s.fifo.drain chars }
  if rxLength rtSerialRbBufsz s.fifo.val ≠ 0 then uart3Input s else s

/-- `rt_sem_take(hmi_sem, ..)` with the waiting time of the loop. -/
def hmiTake (s : Uart3) : Uart3 :=
  match rtSemTake s.sem hmiTid s.hmi.loop.time with
  | (sem, .returns err) => { s with sem, pc := .reading err }
  | (sem, .suspends) => { s with sem, pc := .blocked }

/-- The waiting thread's timer expires. -/
def hmiTimeout (s : Uart3) : Uart3 :=
  { s with sem := rtSemTimeout s.sem hmiTid, pc := .reading (-rtEtimeout) }

/-- Whether the pass behind `rt_sem_take` calls `rt_device_read`. -/
def passReads : Loop → Int → Bool
  | .outer, _ => true
  | .inner, err => decide (err ≠ rtEtimeout)

/-- `rt_device_read(hmi_port, 0, .., 1)` on the FIFO: the byte read, if there is one. -/
def hmiReadByte (s : Uart3) (err : Int) : Option UInt8 × RxQueue rtSerialRbBufsz :=
  if passReads s.hmi.loop err then
    match s.fifo.get with
    | some (b, fifo) => (some b, fifo)
    | none => (none, s.fifo)
  else (none, s.fifo)

/-- The pass of the loop behind `rt_sem_take`. A pass that would leave `cmd_buff` has no
successor. -/
def hmiReadPass (s : Uart3) (err : Int) : Option Uart3 :=
  match hmiPass s.hmi err (hmiReadByte s err).1 with
  | .ok hmi => some { s with fifo := (hmiReadByte s err).2, pc := .taking, hmi }
  | .error _ => none

/-- One critical section. An interrupt has at least one character; only a wait with a time
limit expires. -/
def uart3Step (s : Uart3) : Uart3Action → Option Uart3
  | .irq chars => if chars = [] then none else some (uart3Isr s chars)
  | .take => if s.pc = .taking then some (hmiTake s) else none
  | .timeout => if s.pc = .blocked ∧ 0 ≤ s.hmi.loop.time then some (hmiTimeout s) else none
  | .read =>
    match s.pc with
    | .reading err => hmiReadPass s err
    | _ => none

/-- `hmi_create`: the semaphore has no token, and the thread is started. -/
def uart3System : Machine Uart3 Uart3Action where
  init :=
    { fifo := .empty rtSerialRbBufsz (by decide)
      sem := rtSemInit 0 .prio
      pc := .taking
      hmi := hmiInit }
  step := uart3Step

/-! ## Counting tokens -/

/-- The tokens that have not been spent on a read: those counted in the semaphore, and the one
the thread returned from `rt_sem_take` with. -/
def Uart3.tokens (s : Uart3) : Nat :=
  s.sem.value + if s.pc = .reading rtEok then 1 else 0

/-- An interrupt whose characters the tokens account for: with the one it releases there are
tokens for all unread bytes or for a full FIFO, and the 16-bit counter does not wrap. The other
steps are not restricted. -/
def Uart3.Fits (s : Uart3) : Uart3Action → Prop
  | .irq chars =>
    (s.fifo.unread.length + chars.length ≤ s.tokens + 1 ∨ rtSerialRbBufsz - 1 ≤ s.tokens + 1) ∧
      (s.pc = .blocked ∨ s.sem.value + 1 < rtSemValueMod)
  | _ => True

instance : DecidableRel Uart3.Fits
  | _, .irq _ => inferInstanceAs (Decidable (_ ∧ _))
  | _, .take | _, .timeout | _, .read => isTrue trivial

/-- The invariant: the thread is in the suspend list exactly while it waits, and no byte is
without a token. -/
structure Uart3.Covered (s : Uart3) : Prop where
  waiting : s.sem.suspendThread = if s.pc = .blocked then [hmiTid] else []
  bytes : s.fifo.unread.length ≤ s.tokens

/-- Every byte is covered at the beginning. -/
theorem covered_init : uart3System.init.Covered where
  waiting := rfl
  bytes := by
    simp only [uart3System, RxQueue.unread_empty, List.length_nil]
    omega

/-- What an interrupt leaves: some bytes, so that `uart3_input` is called. -/
theorem uart3Isr_eq (s : Uart3) {chars : List UInt8} (h : chars ≠ []) :
    uart3Isr s chars = uart3Input { s with fifo := s.fifo.drain chars } := by
  have hlen : rxLength rtSerialRbBufsz (s.fifo.drain chars).val =
      (s.fifo.drain chars).unread.length := (length_unread (s.fifo.drain chars).property).symm
  have hpos : 0 < chars.length := List.length_pos_iff.mpr h
  have hne : rxLength rtSerialRbBufsz (s.fifo.drain chars).val ≠ 0 := by
    rw [hlen, RxQueue.unread_drain, length_keepLast, List.length_append]
    simp only [rtSerialRbBufsz]
    omega
  simp only [uart3Isr, hne, ne_eq, not_false_eq_true, if_true]

/-- `uart3_input` adds one token, in the semaphore or in the hand of the waiting thread. -/
theorem uart3Input_adds (s : Uart3)
    (hw : s.sem.suspendThread = if s.pc = .blocked then [hmiTid] else [])
    (hv : s.pc = .blocked ∨ s.sem.value + 1 < rtSemValueMod) :
    (uart3Input s).fifo = s.fifo ∧ (uart3Input s).tokens = s.tokens + 1 ∧
      (uart3Input s).sem.suspendThread =
        if (uart3Input s).pc = .blocked then [hmiTid] else [] := by
  by_cases hb : s.pc = .blocked
  · rw [if_pos hb] at hw
    have hin : uart3Input s =
        { s with sem := { s.sem with suspendThread := [] }, pc := .reading rtEok } := by
      simp only [uart3Input, rtSemRelease, hw]
    rw [hin]
    refine ⟨rfl, ?_, rfl⟩
    simp only [Uart3.tokens, hb, if_true, reduceCtorEq, if_false, Nat.add_zero]
  · rw [if_neg hb] at hw
    have hlt : s.sem.value + 1 < rtSemValueMod := hv.resolve_left hb
    have hin : uart3Input s = { s with sem := { s.sem with value := s.sem.value + 1 } } := by
      simp only [uart3Input, rtSemRelease, hw, Nat.mod_eq_of_lt hlt]
    rw [hin]
    refine ⟨rfl, ?_, ?_⟩
    · simp only [Uart3.tokens]
      omega
    · simp only [hb, if_false, hw]

/-- A read takes one unread byte, if there is one, whenever the thread holds a token. -/
theorem length_hmiReadByte (s : Uart3) (err : Int) :
    (hmiReadByte s err).2.unread.length ≤
      s.fifo.unread.length - if err = rtEok then 1 else 0 := by
  unfold hmiReadByte
  split
  · split
    · next b fifo hget =>
      simp only [RxQueue.get_eq_some hget, List.length_cons]
      split <;> omega
    · next hget =>
      rw [(RxQueue.get_eq_none s.fifo).mp hget, List.length_nil]
      omega
  · next hread =>
    have hne : err ≠ rtEok := by
      intro he
      subst he
      cases hl : s.hmi.loop with
      | outer => exact hread (by rw [hl]; rfl)
      | inner => exact hread (by rw [hl]; rfl)
    simp only [hne, if_false, Nat.sub_zero, Nat.le_refl]

/-- An interrupt releases one token for all it drains, which the condition makes enough. -/
theorem covered_isr {s : Uart3} (h : s.Covered) {chars : List UInt8} (hne : chars ≠ [])
    (hok : s.Fits (.irq chars)) : (uart3Isr s chars).Covered := by
  have hbytes := h.bytes
  obtain ⟨hroom, hv⟩ := hok
  rw [uart3Isr_eq s hne]
  obtain ⟨hfifo, htok, hwait⟩ :=
    uart3Input_adds { s with fifo := s.fifo.drain chars } h.waiting hv
  refine ⟨hwait, ?_⟩
  rw [hfifo, htok, RxQueue.unread_drain, length_keepLast, List.length_append]
  change _ ≤ s.tokens + 1
  omega

/-- The thread takes a token, or suspends where there is none. -/
theorem covered_take {s : Uart3} (h : s.Covered) (hpc : s.pc = .taking) :
    (hmiTake s).Covered := by
  have hw := h.waiting
  have hbytes := h.bytes
  rw [if_neg (by rw [hpc]; exact HmiPc.noConfusion)] at hw
  simp only [Uart3.tokens, hpc, reduceCtorEq, if_false, Nat.add_zero] at hbytes
  have htime : s.hmi.loop.time ≠ 0 := by
    cases s.hmi.loop with
    | outer => decide
    | inner => decide
  by_cases hv : 0 < s.sem.value
  · have htake : hmiTake s = { s with
        sem := { s.sem with value := s.sem.value - 1 }, pc := .reading rtEok } := by
      simp only [hmiTake, rtSemTake, hv, if_true]
    rw [htake]
    refine ⟨hw, ?_⟩
    simp only [Uart3.tokens, if_true]
    omega
  · have htake : hmiTake s = { s with
        sem := { s.sem with suspendThread := [hmiTid] }, pc := .blocked } := by
      simp only [hmiTake, rtSemTake, hv, if_false, htime, hw, rtIpcListSuspend]
      cases s.sem.flag <;> rfl
    rw [htake]
    refine ⟨rfl, ?_⟩
    simp only [Uart3.tokens, reduceCtorEq, if_false]
    omega

/-- A wait that expires takes no token. -/
theorem covered_timeout {s : Uart3} (h : s.Covered) (hpc : s.pc = .blocked) :
    (hmiTimeout s).Covered := by
  have hw := h.waiting
  have hbytes := h.bytes
  rw [if_pos hpc] at hw
  simp only [Uart3.tokens, hpc, reduceCtorEq, if_false, Nat.add_zero] at hbytes
  refine ⟨?_, ?_⟩
  · simp only [hmiTimeout, rtSemTimeout, hw, reduceCtorEq, if_false]
    decide
  · simp only [hmiTimeout, rtSemTimeout, Uart3.tokens]
    omega

/-- The thread reads a byte for the token it came back with. -/
theorem covered_read {s t : Uart3} (h : s.Covered) {err : Int} (hpc : s.pc = .reading err)
    (hstep : hmiReadPass s err = some t) : t.Covered := by
  have hw := h.waiting
  have hbytes := h.bytes
  have hread := length_hmiReadByte s err
  rw [if_neg (by rw [hpc]; exact HmiPc.noConfusion)] at hw
  simp only [Uart3.tokens, hpc, HmiPc.reading.injEq] at hbytes
  simp only [hmiReadPass] at hstep
  split at hstep
  · cases hstep
    refine ⟨hw, ?_⟩
    simp only [Uart3.tokens, reduceCtorEq, if_false]
    split at hread <;> simp_all only [if_true, if_false] <;> omega
  · cases hstep

/-- One critical section keeps the invariant, interrupts under the condition. -/
theorem covered_step (s : Uart3) (a : Uart3Action) (t : Uart3) (h : s.Covered)
    (hok : s.Fits a) (hstep : uart3System.step s a = some t) : t.Covered := by
  simp only [uart3System] at hstep
  cases a with
  | irq chars =>
    simp only [uart3Step, Option.ite_none_left_eq_some, Option.some.injEq] at hstep
    obtain ⟨hne, rfl⟩ := hstep
    exact covered_isr h hne hok
  | take =>
    simp only [uart3Step, Option.ite_none_right_eq_some, Option.some.injEq] at hstep
    obtain ⟨hpc, rfl⟩ := hstep
    exact covered_take h hpc
  | timeout =>
    simp only [uart3Step, Option.ite_none_right_eq_some, Option.some.injEq] at hstep
    obtain ⟨⟨hpc, -⟩, rfl⟩ := hstep
    exact covered_timeout h hpc
  | read =>
    simp only [uart3Step] at hstep
    cases hpc : s.pc with
    | taking => rw [hpc] at hstep; cases hstep
    | blocked => rw [hpc] at hstep; cases hstep
    | reading err =>
      rw [hpc] at hstep
      exact covered_read h hpc hstep

/-- No received byte is stranded, over every run whose interrupts the tokens account for: when
the thread waits and the semaphore counts no token, the FIFO is empty. -/
theorem hmi_nothing_stranded {s : Uart3} (h : uart3System.Reach Uart3.Fits s)
    (hblocked : s.pc = .blocked) (hvalue : s.sem.value = 0) : s.fifo.unread = [] := by
  have hcov : s.Covered := h.invariant covered_init covered_step
  have hbytes := hcov.bytes
  simp only [Uart3.tokens, hblocked, hvalue, reduceCtorEq, if_false, Nat.add_zero,
    Nat.le_zero_eq] at hbytes
  exact List.length_eq_zero_iff.mp hbytes

/-- The thread reads a byte that arrived alone and waits again. -/
theorem hmi_nothing_stranded_one_byte :
    ∃ s, uart3System.Reach Uart3.Fits s ∧ s.pc = .blocked ∧ s.sem.value = 0 ∧
      s.fifo.unread = [] := by
  obtain ⟨s, hreach, hblocked, hvalue⟩ :=
    Machine.exists_reach_of_run uart3System Uart3.Fits [.take, .irq [0x41], .read, .take]
      (fun s => s.pc = .blocked ∧ s.sem.value = 0) (by decide +kernel)
  exact ⟨s, hreach, hblocked, hvalue, hmi_nothing_stranded hreach hblocked hvalue⟩

/-- An interrupt that drains two characters releases one token: the second byte stays unread
while the thread waits. -/
theorem hmi_strands_byte :
    ¬ ∀ s, uart3System.Reach Machine.any s → s.pc = .blocked → s.sem.value = 0 →
      s.fifo.unread = [] := by
  intro h
  obtain ⟨s, hreach, hblocked, hvalue, hne⟩ :=
    Machine.exists_reach_of_run uart3System Machine.any [.take, .irq [0x41, 0x42], .read, .take]
      (fun s => s.pc = .blocked ∧ s.sem.value = 0 ∧ s.fifo.unread = [0x42])
      (by decide +kernel)
  rw [h s hreach hblocked hvalue] at hne
  cases hne

end RtVcom.Hmi

import Mathlib.Data.List.Nodup
import RtVcom.Lib.Machine
import RtVcom.Lib.Circular
import RtVcom.Kernel.Waiting

/-!
# Mailboxes

A mailbox of `src/ipc.c` and any number of threads and interrupts that use it. The pool is a ring
of 32-bit mails. A sender waits where it is full and a receiver where it is empty, each in a list
of its own, and who is resumed looks again: somebody else may have been faster, or a reset came.

**The law** (`mailbox_fifo`): the mails leave the box in the order they were accepted in, each
once, and the offsets and the count agree with what is in it. Only a call that returns `RT_EOK`
and a reset touch the box. A reset empties it: the mails it finds leave too, but to nobody
(`mailbox_reset_discards`).
-/

namespace RtVcom.Kernel

open RtVcom.Lib

/-! ## The mailbox -/

/-- The values of the 16-bit fields. -/
def mbFieldMod : Nat := 0x10000

/-- What a caller is here for. -/
inductive MbRequest
  | send (value : BitVec 32)
  | recv
deriving Repr, DecidableEq

/-- A thread within `rt_mb_send_wait` or `rt_mb_recv`. -/
structure MbCall where
  wait : IpcWait
  request : MbRequest
deriving Repr, DecidableEq

def MbCall.thread (call : MbCall) : Nat := call.wait.thread

/-- `struct rt_mailbox`. -/
structure RtMailbox where
  msgPool : List (BitVec 32)
  size : Nat
  entry : Nat
  inOffset : Nat
  outOffset : Nat
  flag : IpcFlag
  suspendThread : List MbCall
  suspendSenderThread : List MbCall
deriving Repr, DecidableEq

/-- `rt_mb_init`. -/
def rtMbInit (msgpool : List (BitVec 32)) (size : Nat) (flag : IpcFlag) : RtMailbox where
  msgPool := msgpool
  size := size % mbFieldMod
  entry := 0
  inOffset := 0
  outOffset := 0
  flag := flag
  suspendThread := []
  suspendSenderThread := []

namespace RtMailbox

/-- The offset behind `offset`. -/
def next (mb : RtMailbox) (offset : Nat) : Nat :=
  let offset := (offset + 1) % mbFieldMod
  if mb.size ≤ offset then 0 else offset

/-- A mail is stored. -/
def put (mb : RtMailbox) (value : BitVec 32) : RtMailbox :=
  { mb with
      msgPool := mb.msgPool.set mb.inOffset value
      inOffset := mb.next mb.inOffset
      entry := (mb.entry + 1) % mbFieldMod }

/-- The mail that is taken next. -/
def mail (mb : RtMailbox) : BitVec 32 := mb.msgPool.getD mb.outOffset 0

/-- A mail is taken. -/
def get (mb : RtMailbox) : RtMailbox :=
  { mb with
      outOffset := mb.next mb.outOffset
      entry := (mb.entry - 1) % mbFieldMod }

/-- `rt_mb_control` with `RT_IPC_CMD_RESET`. -/
def reset (mb : RtMailbox) : RtMailbox :=
  { mb with
      entry := 0
      inOffset := 0
      outOffset := 0
      suspendThread := []
      suspendSenderThread := [] }

/-- The mails in the box, the next to be taken first. -/
def mails (mb : RtMailbox) : List (BitVec 32) := window mb.msgPool mb.outOffset mb.entry

/-- The box without the lists. -/
def box (mb : RtMailbox) : List (BitVec 32) × Nat × Nat × Nat :=
  (mb.msgPool, mb.entry, mb.inOffset, mb.outOffset)

end RtMailbox

/-- How a critical section of a call ends. -/
inductive MbOutcome
  | suspends
  | returns (err : Int) (resumed : Option MbCall)
deriving Repr, DecidableEq

/-- `rt_mb_send_wait`, one turn of its loop: up to where it returns or gives up the processor. -/
def rtMbSendWait (priority : Nat → Nat) (mb : RtMailbox) (call : MbCall) (value : BitVec 32) :
    RtMailbox × MbOutcome :=
  if mb.entry = mb.size then
    if call.wait.timeout = 0 then (mb, .returns (-rtEfull) none)
    else
      ({ mb with
          suspendSenderThread :=
            ipcSuspend priority MbCall.thread mb.suspendSenderThread call mb.flag },
        .suspends)
  else
    match mb.suspendThread with
    | [] => (mb.put value, .returns rtEok none)
    | receiver :: rest =>
      ({ mb.put value with suspendThread := rest }, .returns rtEok (some receiver))

/-- `rt_mb_recv`, one turn of its loop. What it receives is `mb.mail`. -/
def rtMbRecv (priority : Nat → Nat) (mb : RtMailbox) (call : MbCall) : RtMailbox × MbOutcome :=
  if mb.entry = 0 then
    if call.wait.timeout = 0 then (mb, .returns (-rtEtimeout) none)
    else
      ({ mb with
          suspendThread := ipcSuspend priority MbCall.thread mb.suspendThread call mb.flag },
        .suspends)
  else
    match mb.suspendSenderThread with
    | [] => (mb.get, .returns rtEok none)
    | sender :: rest =>
      ({ mb.get with suspendSenderThread := rest }, .returns rtEok (some sender))

/-! ## The system -/

/-- How a mail left the box. -/
inductive MbFate
  | delivered
  | discarded
deriving Repr, DecidableEq

/-- A call that returned. -/
structure MbReturn where
  thread : Nat
  request : MbRequest
  err : Int
deriving Repr, DecidableEq

/-- A mailbox, the tick and the priorities of the threads, the callers that were resumed with
their `thread->error`, and what happened: the mails that were accepted, those that left and how,
and the returns. -/
structure MbSystem where
  mb : RtMailbox
  tick : BitVec 32
  priority : Nat → Nat
  resumed : List (MbCall × Int)
  accepted : List (BitVec 32)
  departed : List (BitVec 32 × MbFate)
  returned : List MbReturn

/-- The calls, the expiry of a thread timer, a resumed thread that runs again, the tick, and a
change of a thread's priority from anywhere. -/
inductive MbAction
  | call (thread : Nat) (request : MbRequest) (timeout : BitVec 32)
  | control (cmd : Int)
  | timeout (thread : Nat)
  | run (thread : Nat)
  | tick
  | changePriority (thread priority : Nat)
deriving Repr, DecidableEq

namespace MbSystem

/-- The threads within a call. -/
def callers (s : MbSystem) : List Nat :=
  (s.mb.suspendThread ++ s.mb.suspendSenderThread ++ s.resumed.map Prod.fst).map MbCall.thread

/-- A call returns; it may have resumed somebody first. -/
def returns (s : MbSystem) (call : MbCall) (err : Int) (resumed : Option MbCall) : MbSystem :=
  { s with
      resumed := s.resumed ++ resumed.toList.map fun c => (c, rtEok)
      returned := s.returned ++ [{ thread := call.thread, request := call.request, err }] }

/-- One turn of the loop of a call. -/
def turn (s : MbSystem) (call : MbCall) : MbSystem :=
  let waiter := { call with wait := call.wait.started s.tick }
  match call.request with
  | .send value =>
    match rtMbSendWait s.priority s.mb waiter value with
    | (mb, .suspends) => { s with mb }
    | (mb, .returns err resumed) =>
      let accepted := if err = rtEok then s.accepted ++ [value] else s.accepted
      { s with mb, accepted }.returns call err resumed
  | .recv =>
    match rtMbRecv s.priority s.mb waiter with
    | (mb, .suspends) => { s with mb }
    | (mb, .returns err resumed) =>
      let departed :=
        if err = rtEok then s.departed ++ [(s.mb.mail, MbFate.delivered)] else s.departed
      { s with mb, departed }.returns call err resumed

/-- `rt_mb_control`. -/
def control (s : MbSystem) (cmd : Int) : MbSystem :=
  if cmd = rtIpcCmdReset then
    { s with
        mb := s.mb.reset
        resumed := s.resumed ++
          (s.mb.suspendThread ++ s.mb.suspendSenderThread).map fun c => (c, -rtError)
        departed := s.departed ++ s.mb.mails.map fun mail => (mail, .discarded) }
  else s

/-- `rt_thread_timeout`. -/
def timeout (s : MbSystem) (call : MbCall) : MbSystem :=
  { s with
      mb := { s.mb with
        suspendThread := s.mb.suspendThread.erase call
        suspendSenderThread := s.mb.suspendSenderThread.erase call }
      resumed := s.resumed ++ [(call, -rtEtimeout)] }

/-- A resumed thread returns its error, or looks again. -/
def run (s : MbSystem) (call : MbCall) (error : Int) : MbSystem :=
  let s := { s with resumed := s.resumed.erase (call, error) }
  if error ≠ rtEok then s.returns call error none
  else s.turn { call with wait := call.wait.recalculated s.tick }

end MbSystem

/-- The mailbox after `rt_mb_init`, and every interleaving of its users. A call that does not wait
may come from an interrupt, in whatever thread. -/
def mbMachine (msgpool : List (BitVec 32)) (flag : IpcFlag) (tick : BitVec 32)
    (priority : Nat → Nat) : Machine MbSystem MbAction where
  init :=
    { mb := rtMbInit msgpool msgpool.length flag
      tick
      priority
      resumed := []
      accepted := []
      departed := []
      returned := [] }
  step s
    | .call thread request timeout =>
      if timeout = 0 ∨ thread ∉ s.callers then
        some (s.turn { wait := ipcWait thread timeout, request })
      else none
    | .control cmd => some (s.control cmd)
    | .timeout thread =>
      ((s.mb.suspendThread ++ s.mb.suspendSenderThread).find? fun c =>
        c.thread == thread && decide c.wait.Timed).map s.timeout
    | .run thread =>
      (s.resumed.find? fun r => r.1.thread == thread).map fun r => s.run r.1 r.2
    | .tick => some { s with tick := s.tick + 1 }
    | .changePriority thread priority =>
      some { s with priority := fun t => if t = thread then priority else s.priority t }

/-! ## The law -/

namespace MbSystem

/-- The mails that were received. -/
def delivered (s : MbSystem) : List (BitVec 32) :=
  (s.departed.filter fun d => d.2 == .delivered).map Prod.fst

/-- The law of the box: what is in it is what was accepted and has not left. A resumed thread is in
no list any more. -/
structure Fifo (s : MbSystem) : Prop where
  bounded : s.mb.entry ≤ s.mb.size
  offsets : s.mb.inOffset = (s.mb.outOffset + s.mb.entry) % s.mb.size
  order : s.accepted = s.departed.map Prod.fst ++ s.mb.mails
  gone : ∀ r ∈ s.resumed, ∀ c ∈ s.mb.suspendThread ++ s.mb.suspendSenderThread,
    c.thread ≠ r.1.thread

/-- The law of a step: the box changes only by a call that succeeds and by a reset, and a call that
fails leaves all of it as it is. -/
structure FailsQuietly (s : MbSystem) (a : MbAction) (t : MbSystem) : Prop where
  touched : a ≠ .control rtIpcCmdReset → t.mb.box ≠ s.mb.box →
    ∃ r, r.err = rtEok ∧ t.returned = s.returned ++ [r]
  failed : ∀ r, r.err ≠ rtEok → t.returned = s.returned ++ [r] → t.mb = s.mb

end MbSystem

/-! ## The box -/

/-- The offsets of a mailbox that was initialised and used. -/
structure RtMailbox.Valid (mb : RtMailbox) : Prop where
  length : mb.msgPool.length = mb.size
  size : mb.size < mbFieldMod
  entry : mb.entry ≤ mb.size
  outOffset : mb.outOffset < mb.size
  inOffset : mb.inOffset = slot mb.size mb.outOffset mb.entry

namespace RtMailbox

variable {mb : RtMailbox}

theorem next_eq (h : mb.Valid) {offset : Nat} (hoffset : offset < mb.size) :
    mb.next offset = slot mb.size offset 1 := by
  have hsize := h.size
  unfold next slot
  rw [Nat.mod_eq_of_lt (by omega)]
  dsimp only
  split <;> split <;> omega

/-- A mail that is put keeps the mailbox valid. -/
theorem valid_put (h : mb.Valid) (hroom : mb.entry ≠ mb.size) (value : BitVec 32) :
    (mb.put value).Valid := by
  have hentry := h.entry
  have hsize := h.size
  have hcount : (mb.entry + 1) % mbFieldMod = mb.entry + 1 := Nat.mod_eq_of_lt (by omega)
  constructor
  case length => exact List.length_set.trans h.length
  case size => exact hsize
  case entry =>
    dsimp only [put]
    omega
  case outOffset => exact h.outOffset
  case inOffset =>
    have hin : mb.inOffset < mb.size := h.inOffset ▸ slot_lt h.outOffset hentry
    dsimp only [put]
    rw [hcount, next_eq h hin, h.inOffset, slot_slot h.outOffset (by omega)]

theorem mails_put (h : mb.Valid) (hroom : mb.entry ≠ mb.size) (value : BitVec 32) :
    (mb.put value).mails = mb.mails ++ [value] := by
  have hentry := h.entry
  have hsize := h.size
  have hlength := h.length
  have hcount : (mb.entry + 1) % mbFieldMod = mb.entry + 1 := Nat.mod_eq_of_lt (by omega)
  unfold mails
  dsimp only [put]
  rw [hcount, h.inOffset, ← hlength]
  exact window_push _ _ _ (hlength ▸ h.outOffset) (by omega) value

/-- A mail that is got keeps the mailbox valid. -/
theorem valid_get (h : mb.Valid) (hmail : mb.entry ≠ 0) : mb.get.Valid := by
  have hentry := h.entry
  have hsize := h.size
  have hcount : (mb.entry - 1) % mbFieldMod = mb.entry - 1 := Nat.mod_eq_of_lt (by omega)
  have hnext := next_eq h h.outOffset
  constructor
  case length => exact h.length
  case size => exact hsize
  case entry =>
    dsimp only [get]
    omega
  case outOffset =>
    dsimp only [get]
    rw [hnext]
    exact slot_lt h.outOffset (by omega)
  case inOffset =>
    dsimp only [get]
    rw [hcount, hnext, slot_slot h.outOffset (by omega), h.inOffset]
    congr 1
    omega

theorem mails_get (h : mb.Valid) (hmail : mb.entry ≠ 0) :
    mb.mails = mb.mail :: mb.get.mails := by
  have hentry := h.entry
  have hsize := h.size
  have hlength := h.length
  have hout : mb.outOffset < mb.msgPool.length := hlength ▸ h.outOffset
  obtain ⟨count, hcount⟩ : ∃ count, mb.entry = count + 1 := ⟨mb.entry - 1, by omega⟩
  have hless : (mb.entry - 1) % mbFieldMod = count := by
    rw [hcount, Nat.add_sub_cancel]
    exact Nat.mod_eq_of_lt (by omega)
  have hfirst : mb.mail = mb.msgPool[mb.outOffset] := by
    rw [mail, List.getD_eq_getElem?_getD, List.getElem?_eq_getElem hout]
    rfl
  unfold mails
  dsimp only [get]
  rw [hless, hcount, window_succ hout (by omega), next_eq h h.outOffset, hlength, hfirst]

theorem valid_reset (h : mb.Valid) : mb.reset.Valid := by
  have hout := h.outOffset
  constructor
  case length => exact h.length
  case size => exact h.size
  case entry => exact Nat.zero_le _
  case outOffset => exact Nat.zero_lt_of_lt hout
  case inOffset =>
    dsimp only [reset]
    rw [slot, if_pos (Nat.zero_lt_of_lt hout)]

theorem mails_reset (mb : RtMailbox) : mb.reset.mails = [] := window_zero _ _

/-- The place of the next mail, by the first one and the count. -/
theorem inOffset_eq_mod (h : mb.Valid) : mb.inOffset = (mb.outOffset + mb.entry) % mb.size := by
  have hout := h.outOffset
  have hentry := h.entry
  rw [h.inOffset]
  unfold slot
  split
  · next hlt => rw [Nat.mod_eq_of_lt hlt]
  · next hge =>
    rw [Nat.mod_eq_sub_mod (by omega), Nat.mod_eq_of_lt (by omega)]

/-- Whatever the lists are. -/
theorem Valid.lists (h : mb.Valid) (receivers senders : List MbCall) :
    { mb with suspendThread := receivers, suspendSenderThread := senders }.Valid :=
  ⟨h.length, h.size, h.entry, h.outOffset, h.inOffset⟩

end RtMailbox

/-! ## One turn of a call -/

namespace MbSystem

/-- What one turn of a call can come to. -/
inductive Turned (s : MbSystem) (call : MbCall) : MbSystem → Prop
  | failed {err : Int} (herr : err ≠ rtEok) : Turned s call (s.returns call err none)
  | suspended {waiter : MbCall} {receivers senders : List MbCall}
      (hwaits : call.wait.timeout ≠ 0) (hthread : waiter.thread = call.thread)
      (hlists : (receivers ++ senders).Perm
        (waiter :: (s.mb.suspendThread ++ s.mb.suspendSenderThread))) :
      Turned s call
        { s with mb := { s.mb with suspendThread := receivers, suspendSenderThread := senders } }
  | sent {value : BitVec 32} {receivers : List MbCall} {resumed : Option MbCall}
      (hroom : s.mb.entry ≠ s.mb.size)
      (hresumed : s.mb.suspendThread = resumed.toList ++ receivers) :
      Turned s call
        ({ s with
            mb := { s.mb.put value with suspendThread := receivers }
            accepted := s.accepted ++ [value] }.returns call rtEok resumed)
  | received {senders : List MbCall} {resumed : Option MbCall}
      (hmail : s.mb.entry ≠ 0)
      (hresumed : s.mb.suspendSenderThread = resumed.toList ++ senders) :
      Turned s call
        ({ s with
            mb := { s.mb.get with suspendSenderThread := senders }
            departed := s.departed ++ [(s.mb.mail, MbFate.delivered)] }.returns call rtEok resumed)

variable {s : MbSystem} {call : MbCall}

/-- A turn of a call is one of its transitions. -/
theorem turned_turn (s : MbSystem) (call : MbCall) : Turned s call (s.turn call) := by
  obtain ⟨wait, request⟩ := call
  have hthread : MbCall.thread { wait := wait.started s.tick, request } = wait.thread :=
    IpcWait.started_thread
  unfold turn
  cases request with
  | send value =>
    dsimp only
    unfold rtMbSendWait
    by_cases hfull : s.mb.entry = s.mb.size
    · rw [if_pos hfull]
      by_cases hzero : (wait.started s.tick).timeout = 0
      · rw [if_pos hzero]
        exact .failed (by decide)
      · rw [if_neg hzero]
        refine .suspended (IpcWait.started_timeout ▸ hzero) hthread ?_
        exact ((ipcSuspend_perm _ _ _ _ _).append_left _).trans List.perm_middle
    · rw [if_neg hfull]
      cases hlist : s.mb.suspendThread with
      | nil => exact .sent hfull rfl
      | cons receiver rest => exact .sent hfull hlist
  | recv =>
    dsimp only
    unfold rtMbRecv
    by_cases hempty : s.mb.entry = 0
    · rw [if_pos hempty]
      by_cases hzero : (wait.started s.tick).timeout = 0
      · rw [if_pos hzero]
        exact .failed (by decide)
      · rw [if_neg hzero]
        refine .suspended (IpcWait.started_timeout ▸ hzero) hthread ?_
        exact (ipcSuspend_perm _ _ _ _ _).append_right _
    · rw [if_neg hempty]
      cases hlist : s.mb.suspendSenderThread with
      | nil => exact .received hempty rfl
      | cons sender rest => exact .received hempty hlist

/-! ## The invariant -/

/-- The offsets are valid, the books of the mails are kept, and a thread is within one call. -/
structure Kept (s : MbSystem) : Prop where
  valid : s.mb.Valid
  order : s.accepted = s.departed.map Prod.fst ++ s.mb.mails
  callers : s.callers.Nodup

/-- Who is resumed by a call is within a call as before. -/
theorem nodup_of_perm {t : MbSystem} (hnodup : s.callers.Nodup)
    (hperm : (t.mb.suspendThread ++ t.mb.suspendSenderThread ++ t.resumed.map Prod.fst).Perm
      (s.mb.suspendThread ++ s.mb.suspendSenderThread ++ s.resumed.map Prod.fst)) :
    t.callers.Nodup :=
  (hperm.map MbCall.thread).nodup_iff.mpr hnodup

/-- The threads that are resumed, without their errors. -/
theorem map_resumed (resumed : List (MbCall × Int)) (woken : List MbCall) (error : Int) :
    (resumed ++ woken.map fun c => (c, error)).map Prod.fst = resumed.map Prod.fst ++ woken := by
  rw [List.map_append, List.map_map]
  exact congrArg _ (List.map_id' woken)

theorem kept_turned {t : MbSystem} (h : s.Kept) (hturn : Turned s call t)
    (hfree : call.wait.timeout = 0 ∨ call.thread ∉ s.callers) : t.Kept := by
  obtain ⟨hvalid, horder, hcallers⟩ := h
  cases hturn with
  | failed herr =>
    refine ⟨hvalid, horder, nodup_of_perm hcallers ?_⟩
    dsimp only [returns]
    rw [map_resumed, Option.toList_none, List.append_nil]
  | @suspended waiter receivers senders hwaits hthread hlists =>
    refine ⟨hvalid.lists receivers senders, horder, ?_⟩
    have hperm := (hlists.append_right (s.resumed.map Prod.fst)).map MbCall.thread
    refine hperm.nodup_iff.mpr (List.nodup_cons.mpr ⟨?_, hcallers⟩)
    rw [hthread]
    exact hfree.resolve_left hwaits
  | @sent value receivers resumed hroom hresumed =>
    have hput := (RtMailbox.valid_put hvalid hroom value).lists receivers s.mb.suspendSenderThread
    refine ⟨hput, ?_, nodup_of_perm hcallers ?_⟩
    · dsimp only [returns]
      rw [horder, List.append_assoc]
      congr 1
      exact (RtMailbox.mails_put hvalid hroom value).symm
    · dsimp only [returns, RtMailbox.put]
      rw [map_resumed, hresumed, List.perm_iff_count]
      intro c
      simp only [List.count_append]
      omega
  | @received senders resumed hmail hresumed =>
    have hget := (RtMailbox.valid_get hvalid hmail).lists s.mb.suspendThread senders
    refine ⟨hget, ?_, nodup_of_perm hcallers ?_⟩
    · dsimp only [returns]
      rw [horder, RtMailbox.mails_get hvalid hmail, List.map_append, List.append_assoc]
      rfl
    · dsimp only [returns, RtMailbox.get]
      rw [map_resumed, hresumed, List.perm_iff_count]
      intro c
      simp only [List.count_append]
      omega

theorem kept_control (h : s.Kept) (cmd : Int) : (s.control cmd).Kept := by
  unfold control
  split
  · refine ⟨RtMailbox.valid_reset h.valid, ?_, nodup_of_perm h.callers ?_⟩
    · -- what was in the box departs, and nothing is left
      rw [h.order, RtMailbox.mails_reset, List.append_nil, List.map_append, List.map_map]
      exact congrArg _ (List.map_id' _).symm
    · dsimp only [RtMailbox.reset]
      rw [map_resumed, List.append_nil, List.nil_append]
      exact List.perm_append_comm
  · exact h

theorem kept_timeout (h : s.Kept)
    (hmem : call ∈ s.mb.suspendThread ++ s.mb.suspendSenderThread) : (s.timeout call).Kept := by
  refine ⟨h.valid.lists _ _, h.order, nodup_of_perm h.callers ?_⟩
  have hone : (s.mb.suspendThread ++ s.mb.suspendSenderThread).Nodup :=
    ((List.Nodup.of_map _ h.callers).sublist (List.sublist_append_left _ _))
  have hcount := List.count_eq_one_of_mem hone hmem
  dsimp only [timeout]
  rw [List.map_append, List.perm_iff_count]
  intro c
  rw [List.count_append] at hcount
  simp only [List.count_append, List.count_erase, List.map_cons, List.map_nil,
    List.count_singleton]
  by_cases hc : call = c
  · subst hc
    simp only [BEq.rfl, if_true]
    omega
  · simp only [beq_eq_false_iff_ne.mpr hc, Bool.false_eq_true, if_false]
    omega

/-- A resumed thread that runs is in no list and not among the resumed. -/
theorem kept_run (h : s.Kept) {error : Int} (hmem : (call, error) ∈ s.resumed) :
    (s.run call error).Kept := by
  have hperm := (List.perm_cons_erase hmem).map Prod.fst
  have hall : s.callers.Perm (call.thread ::
      { s with resumed := s.resumed.erase (call, error) }.callers) := by
    have hmoved := hperm.append_left (s.mb.suspendThread ++ s.mb.suspendSenderThread)
    exact (hmoved.trans List.perm_middle).map MbCall.thread
  obtain ⟨hout, hnodup⟩ := List.nodup_cons.mp (hall.nodup_iff.mp h.callers)
  have hkept : Kept { s with resumed := s.resumed.erase (call, error) } :=
    ⟨h.valid, h.order, hnodup⟩
  unfold run
  dsimp only
  split
  · next herror => exact kept_turned hkept (.failed herror) (Or.inr hout)
  · refine kept_turned hkept (turned_turn _ _) (Or.inr ?_)
    unfold MbCall.thread at hout ⊢
    rw [IpcWait.recalculated_thread]
    exact hout

end MbSystem

variable {msgpool : List (BitVec 32)} {flag : IpcFlag} {tick : BitVec 32} {priority : Nat → Nat}

/-- Every step keeps the books. -/
theorem mbKept_step {s t : MbSystem} {a : MbAction} (h : s.Kept)
    (hstep : (mbMachine msgpool flag tick priority).step s a = some t) : t.Kept := by
  cases a with
  | call thread request timeout =>
    obtain ⟨hfree, ⟨⟩⟩ := Option.ite_none_right_eq_some.mp hstep
    exact MbSystem.kept_turned h (MbSystem.turned_turn _ _) hfree
  | control cmd =>
    cases hstep
    exact MbSystem.kept_control h cmd
  | timeout thread =>
    obtain ⟨call, hfind, rfl⟩ := Option.map_eq_some_iff.mp hstep
    exact MbSystem.kept_timeout h (List.mem_of_find?_eq_some hfind)
  | run thread =>
    obtain ⟨⟨call, error⟩, hfind, rfl⟩ := Option.map_eq_some_iff.mp hstep
    exact MbSystem.kept_run h (List.mem_of_find?_eq_some hfind)
  | tick =>
    cases hstep
    exact ⟨h.valid, h.order, h.callers⟩
  | changePriority thread priority =>
    cases hstep
    exact ⟨h.valid, h.order, h.callers⟩

theorem mbKept_of_reach (hsize : 1 ≤ msgpool.length ∧ msgpool.length < mbFieldMod) {s : MbSystem}
    (h : (mbMachine msgpool flag tick priority).Reach Machine.any s) : s.Kept := by
  refine h.invariant ?_ fun _ _ _ hs _ hstep => mbKept_step hs hstep
  have hfield : msgpool.length % mbFieldMod = msgpool.length := Nat.mod_eq_of_lt hsize.2
  constructor
  case valid =>
    constructor
    case length => exact hfield.symm
    case size => exact Nat.mod_lt _ (by decide)
    case entry => exact Nat.zero_le _
    case outOffset => exact Nat.lt_of_lt_of_eq hsize.1 hfield.symm
    case inOffset =>
      dsimp only [mbMachine, rtMbInit]
      rw [hfield, slot, if_pos (by omega)]
  case order => exact (window_zero msgpool 0).symm
  case callers => exact List.nodup_nil

/-! ## Calls that fail -/

namespace MbSystem

variable {s : MbSystem} {call : MbCall}

theorem Kept.fifo (h : s.Kept) : s.Fifo where
  bounded := h.valid.entry
  offsets := RtMailbox.inOffset_eq_mod h.valid
  order := h.order
  gone := by
    intro r hr c hc heq
    have hcallers : ((s.mb.suspendThread ++ s.mb.suspendSenderThread).map MbCall.thread ++
        (s.resumed.map Prod.fst).map MbCall.thread).Nodup := by
      rw [← List.map_append]
      exact h.callers
    have hdisjoint := List.disjoint_of_nodup_append hcallers
    apply hdisjoint (List.mem_map_of_mem hc)
    rw [heq]
    exact List.mem_map_of_mem (List.mem_map_of_mem hr)

/-- One turn: the box changes only where the call succeeds. -/
theorem turned_quietly {r t : MbSystem} {a : MbAction} (hturn : Turned r call t)
    (hmb : r.mb = s.mb) (hreturned : r.returned = s.returned) : FailsQuietly s a t := by
  have hsucceeded {t : MbSystem} {ret : MbReturn} (hret : t.returned = r.returned ++ [ret])
      (herr : ret.err = rtEok) : FailsQuietly s a t := by
    rw [hreturned] at hret
    refine ⟨fun _ _ => ⟨ret, herr, hret⟩, ?_⟩
    intro ret' herr' hret'
    cases List.append_cancel_left (hret.symm.trans hret')
    exact absurd herr herr'
  cases hturn with
  | failed herr => exact ⟨fun _ hbox => absurd (congrArg RtMailbox.box hmb) hbox, fun _ _ _ => hmb⟩
  | suspended hwaits hthread hlists =>
    refine ⟨fun _ hbox => absurd (congrArg RtMailbox.box hmb) hbox, ?_⟩
    intro ret _ hret
    have hlength := congrArg List.length (hreturned.symm.trans hret).symm
    rw [List.length_append, List.length_singleton] at hlength
    omega
  | sent hroom hresumed => exact hsucceeded rfl rfl
  | received hmail hresumed => exact hsucceeded rfl rfl

end MbSystem

/-- Every step meets the law of a step. -/
theorem mbQuiet_step {s t : MbSystem} {a : MbAction}
    (hstep : (mbMachine msgpool flag tick priority).step s a = some t) :
    MbSystem.FailsQuietly s a t := by
  have hsilent {t : MbSystem} (hmb : t.mb.box = s.mb.box)
      (hreturned : t.returned = s.returned) : MbSystem.FailsQuietly s a t := by
    refine ⟨fun _ hbox => absurd hmb hbox, ?_⟩
    intro ret _ hret
    have hlength := congrArg List.length (hreturned.symm.trans hret)
    rw [List.length_append, List.length_singleton] at hlength
    omega
  cases a with
  | call thread request timeout =>
    obtain ⟨-, ⟨⟩⟩ := Option.ite_none_right_eq_some.mp hstep
    exact MbSystem.turned_quietly (MbSystem.turned_turn _ _) rfl rfl
  | control cmd =>
    cases hstep
    unfold MbSystem.control
    split
    · next hreset =>
      subst hreset
      refine ⟨fun hne => absurd rfl hne, ?_⟩
      intro ret _ hret
      have hlength := congrArg List.length hret
      rw [List.length_append, List.length_singleton] at hlength
      dsimp only at hlength
      omega
    · exact hsilent rfl rfl
  | timeout thread =>
    obtain ⟨call, -, rfl⟩ := Option.map_eq_some_iff.mp hstep
    exact hsilent rfl rfl
  | run thread =>
    obtain ⟨⟨call, error⟩, -, rfl⟩ := Option.map_eq_some_iff.mp hstep
    unfold MbSystem.run
    dsimp only
    split
    · next herror => exact MbSystem.turned_quietly (.failed herror) rfl rfl
    · exact MbSystem.turned_quietly (MbSystem.turned_turn _ _) rfl rfl
  | tick =>
    cases hstep
    exact hsilent rfl rfl
  | changePriority thread priority =>
    cases hstep
    exact hsilent rfl rfl

/-- **A mailbox is a bounded queue.** For every size, in every run: the count is at most the size,
the offsets agree with it, and the mails leave in the order they were accepted in, each once. And a
call that fails changes nothing in the box. -/
theorem mailbox_fifo (msgpool : List (BitVec 32)) (flag : IpcFlag) (tick : BitVec 32)
    (priority : Nat → Nat) (hsize : 1 ≤ msgpool.length ∧ msgpool.length < mbFieldMod)
    (s : MbSystem) (h : (mbMachine msgpool flag tick priority).Reach Machine.any s) :
    s.Fifo ∧ ∀ a t, (mbMachine msgpool flag tick priority).step s a = some t →
      MbSystem.FailsQuietly s a t :=
  ⟨(mbKept_of_reach hsize h).fifo, fun _ _ hstep => mbQuiet_step hstep⟩

/-- A sender that waits for room in a box of one, overtaken by another one, and served at last. -/
theorem mailbox_fifo_overtaken :
    ∃ s, (mbMachine [0] .prio 0xffffffff fun t => t).Reach Machine.any s ∧
      (s.delivered = [1, 3] ∧ s.mb.mails = [2]) ∧ s.Fifo := by
  obtain ⟨s, hreach, hs⟩ := Machine.exists_reach_of_run
    (mbMachine [0] .prio 0xffffffff fun t => t) Machine.any
    [.call 1 (.send 1) 0, .call 2 (.send 2) 5, .call 3 .recv 0, .tick, .call 4 (.send 3) 0, .run 2,
      .call 3 .recv 0, .run 2]
    (fun s => s.delivered = [1, 3] ∧ s.mb.mails = [2]) (by decide)
  exact ⟨s, hreach, hs, (mailbox_fifo [0] .prio 0xffffffff (fun t => t) (by decide) s hreach).1⟩

/-- A mail that was accepted and is in the box when a reset comes is never delivered. -/
theorem mailbox_reset_discards :
    ¬ ∀ msgpool flag tick priority, 1 ≤ msgpool.length ∧ msgpool.length < mbFieldMod →
      ∀ s, (mbMachine msgpool flag tick priority).Reach Machine.any s →
        s.accepted = s.delivered ++ s.mb.mails := by
  intro hall
  obtain ⟨s, hreach, haccepted, hdelivered, hmails⟩ := Machine.exists_reach_of_run
    (mbMachine [0] .fifo 0 fun _ => 10) Machine.any
    [.call 1 (.send 7) 0, .control rtIpcCmdReset]
    (fun s => s.accepted = [7] ∧ s.delivered = [] ∧ s.mb.mails = []) (by decide)
  have hlost := hall [0] .fifo 0 (fun _ => 10) (by decide) s hreach
  rw [haccepted, hdelivered, hmails] at hlost
  cases hlost

end RtVcom.Kernel

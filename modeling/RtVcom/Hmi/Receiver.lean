import RtVcom.Kernel.Ipc

/-!
# The HMI frame receiver

`hmi_thread` of `applications/hmi.c` reads a byte stream from uart3, one byte for one
return of `rt_sem_take(hmi_sem, ..)`. A frame is the start byte `0xFE`, a payload and the
end byte `0xFF`. The outer loop looks for the start byte in `cmd_buff[0]`; the inner loop
stores the payload from `cmd_buff[0]` on, dispatches it to `hmi_cmd_analysis` and clears the
buffer.

The thread is a step function over the returns of `rt_sem_take`: each `Take` says how the
wait ended and what `rt_device_read` then found, at most one byte. Every access to `cmd_buff`
goes through `cmdBuffLoad` and `cmdBuffStore`, which answer an error with the index when it
lies outside the array; a run that answers no error accesses the buffer only inside.
`char` is unsigned on this target, so the two marker bytes compare as written.

The inner loop compares the result of `rt_sem_take` with `RT_ETIMEOUT`, while `rt_sem_take`
answers `-RT_ETIMEOUT`. The branch that abandons a frame is therefore never taken, and a
timeout advances the index like a byte does. Two laws say what follows from it: the thread
stays inside its buffer exactly when no frame is longer than the buffer
(`hmiThread_in_bounds_iff`), and a frame broken off by a timeout is never abandoned
(`hmiThread_never_resynchronises`). Without timeouts the framing is a decoder
(`hmiThread_decodes`).
-/

namespace RtVcom.Hmi

open RtVcom.Kernel

/-! ## The thread -/

/-- `HMI_CMD_LEN`. -/
def hmiCmdLen : Nat := 30

/-- Which of the two loops the thread is in, at its call of `rt_sem_take`. -/
inductive Loop
  | outer
  | inner
deriving Repr, DecidableEq

/-- The waiting time each loop passes to `rt_sem_take`. -/
def Loop.time : Loop → Int
  | .outer => rtWaitingForever
  | .inner => 100

/-- The thread's locals, and the buffers it has passed to `hmi_cmd_analysis`. The index
`i` is 32 bits wide; a run leaves the buffer long before it could wrap. -/
structure HmiState where
  loop : Loop
  cmdBuff : List UInt8
  i : Nat
  calls : List (List UInt8)
deriving Repr, DecidableEq

/-- One return of `rt_sem_take`: how the wait ended, and the byte that is then in the
receive FIFO, if there is one. -/
structure Take where
  wakeup : Wakeup
  rx : Option UInt8
deriving Repr, DecidableEq

/-- Reading `cmd_buff[idx]`. -/
def cmdBuffLoad (buff : List UInt8) (idx : Nat) : Except Nat UInt8 :=
  match buff[idx]? with
  | some b => .ok b
  | none => .error idx

/-- Writing `cmd_buff[idx]`. -/
def cmdBuffStore (buff : List UInt8) (idx : Nat) (b : UInt8) : Except Nat (List UInt8) :=
  if idx < buff.length then .ok (buff.set idx b) else .error idx

/-- `rt_device_read(hmi_port, 0, cmd_buff + idx, 1)`: stores the byte there is. -/
def rtDeviceRead (buff : List UInt8) (idx : Nat) : Option UInt8 → Except Nat (List UInt8)
  | some b => cmdBuffStore buff idx b
  | none => .ok buff

/-- The clearing loop `for (i = 0; i < HMI_CMD_LEN; i++) cmd_buff[i] = 0`. -/
def clearCmdBuff (buff : List UInt8) : List UInt8 :=
  (List.range hmiCmdLen).foldl (fun b k => b.set k 0) buff

/-- Behind the inner loop: dispatch if something was received, clear, start over. -/
def finishFrame (t : HmiState) : HmiState :=
  { loop := .outer
    cmdBuff := clearCmdBuff t.cmdBuff
    i := 0
    calls := if t.i ≠ 0 then t.calls ++ [t.cmdBuff] else t.calls }

/-- The outer loop's pass behind `rt_sem_take`. -/
def outerPass (t : HmiState) (rx : Option UInt8) : Except Nat HmiState := do
  let buff ← rtDeviceRead t.cmdBuff 0 rx
  let c ← cmdBuffLoad buff 0
  return { t with cmdBuff := buff, loop := if c = 0xFE then .inner else .outer }

/-- The inner loop's pass behind `rt_sem_take`, which returned `err`. -/
def innerPass (t : HmiState) (err : Int) (rx : Option UInt8) : Except Nat HmiState := do
  if err ≠ rtEtimeout then
    let buff ← rtDeviceRead t.cmdBuff t.i rx
    let c ← cmdBuffLoad buff t.i
    if c = 0xFF then
      let buff ← cmdBuffStore buff t.i 0
      return finishFrame { t with cmdBuff := buff }
    else
      return { t with cmdBuff := buff, i := t.i + 1 }
  else
    return finishFrame { t with i := 0 }

/-- The pass behind a call of `rt_sem_take` that returned `err`. -/
def hmiPass (t : HmiState) (err : Int) (rx : Option UInt8) : Except Nat HmiState :=
  match t.loop with
  | .outer => outerPass t rx
  | .inner => innerPass t err rx

/-- One return of `rt_sem_take` and the pass behind it. A wait that cannot time out
does not return on a timeout: the thread stays where it is. -/
def hmiStep (t : HmiState) (take : Take) : Except Nat HmiState :=
  if take.wakeup.possible t.loop.time then hmiPass t take.wakeup.error take.rx else .ok t

/-- The locals as `hmi_thread` initialises them. -/
def hmiInit : HmiState :=
  { loop := .outer, cmdBuff := List.replicate hmiCmdLen 0, i := 0, calls := [] }

/-- The thread from a given state over a sequence of returns. -/
def hmiRun : HmiState → List Take → Except Nat HmiState
  | t, [] => .ok t
  | t, take :: takes => (hmiStep t take).bind fun t' => hmiRun t' takes

/-- `hmi_thread`. -/
def hmiThread (takes : List Take) : Except Nat HmiState := hmiRun hmiInit takes

/-- A run is a run and then another. -/
theorem hmiRun_append (t : HmiState) (xs ys : List Take) :
    hmiRun t (xs ++ ys) = (hmiRun t xs).bind fun t' => hmiRun t' ys := by
  induction xs generalizing t with
  | nil => rfl
  | cons x xs ih =>
    simp only [List.cons_append, hmiRun]
    cases hmiStep t x with
    | error e => rfl
    | ok t' => exact ih t'

/-! ## The two shapes of a state

Between frames only `cmd_buff[0]` can be other than zero: the outer loop reads into it.
Inside a frame the first `i` bytes are the payload so far; before the first of them the
start byte still stands in `cmd_buff[0]`. -/

/-- A payload in the command buffer, zeros behind it. -/
def padded (p : List UInt8) : List UInt8 := p ++ List.replicate (hmiCmdLen - p.length) 0

/-- Between frames, `noise` being the last byte read by the outer loop. -/
def idle (noise : UInt8) (calls : List (List UInt8)) : HmiState :=
  { loop := .outer, cmdBuff := padded [noise], i := 0, calls := calls }

/-- The buffer inside a frame of which `filled` was stored. -/
def frameBuff : List UInt8 → List UInt8
  | [] => padded [0xFE]
  | b :: bs => padded (b :: bs)

/-- Inside a frame. -/
def inFrame (filled : List UInt8) (calls : List (List UInt8)) : HmiState :=
  { loop := .inner, cmdBuff := frameBuff filled, i := filled.length, calls := calls }

/-- What stands in `cmd_buff[i]` behind a read: the byte read, or what was there before. -/
def fillByte (i : Nat) (rx : Option UInt8) : UInt8 := rx.getD (if i = 0 then 0xFE else 0)

theorem hmiInit_eq_idle : hmiInit = idle 0 [] := rfl

theorem length_padded {p : List UInt8} (h : p.length ≤ hmiCmdLen) :
    (padded p).length = hmiCmdLen := by
  simp only [padded, List.length_append, List.length_replicate]
  omega

theorem length_frameBuff {filled : List UInt8} (h : filled.length ≤ hmiCmdLen) :
    (frameBuff filled).length = hmiCmdLen := by
  cases filled with
  | nil => rfl
  | cons b bs => exact length_padded h

/-- The free cells behind a payload: one, and the rest. -/
theorem replicate_free {p : List UInt8} (h : p.length < hmiCmdLen) (b : UInt8) :
    List.replicate (hmiCmdLen - p.length) (0 : UInt8) =
      0 :: List.replicate (hmiCmdLen - (p ++ [b]).length) 0 := by
  rw [← List.replicate_succ]
  congr 1
  simp only [List.length_append, List.length_singleton]
  omega

/-- Storing behind the filled part extends it. -/
theorem padded_set {p : List UInt8} (h : p.length < hmiCmdLen) (b : UInt8) :
    (padded p).set p.length b = padded (p ++ [b]) := by
  simp only [padded, replicate_free h b, List.set_append_right _ _ (Nat.le_refl _), Nat.sub_self,
    List.set_cons_zero, List.append_assoc, List.singleton_append]

/-- A zero stored behind the filled part is not seen. -/
theorem padded_append_zero {p : List UInt8} (h : p.length < hmiCmdLen) :
    padded (p ++ [0]) = padded p := by
  simp only [padded, replicate_free h 0, List.append_assoc, List.singleton_append]

/-- The loop over `cmd_buff` leaves NULs only. -/
theorem clearCmdBuff_eq {buff : List UInt8} (h : buff.length = hmiCmdLen) :
    clearCmdBuff buff = padded [0] := by
  have hall : ∀ n, n ≤ hmiCmdLen →
      (List.range n).foldl (fun b k => b.set k 0) buff = List.replicate n 0 ++ buff.drop n := by
    intro n
    induction n with
    | zero => intro _; rfl
    | succ n ih =>
      intro hn
      have hlt : n < buff.length := by omega
      rw [List.range_succ, List.foldl_append, ih (by omega), List.foldl_cons, List.foldl_nil,
        List.set_append_right _ _ (by simp only [List.length_replicate, Nat.le_refl]),
        List.length_replicate, Nat.sub_self, List.drop_eq_getElem_cons hlt, List.set_cons_zero,
        List.replicate_succ', List.append_assoc, List.singleton_append]
  rw [clearCmdBuff, hall hmiCmdLen (Nat.le_refl _), List.drop_eq_nil_of_le (by omega)]
  rfl

/-! ## One step from each shape -/

theorem hmiStep_idle_timeout (noise : UInt8) (calls : List (List UInt8)) (rx : Option UInt8) :
    hmiStep (idle noise calls) ⟨.timeout, rx⟩ = .ok (idle noise calls) := rfl

/-- The outer loop reads a byte: the start byte opens a frame, every other one is noise. -/
theorem hmiStep_idle_byte (noise b : UInt8) (calls : List (List UInt8)) :
    hmiStep (idle noise calls) ⟨.token, some b⟩ =
      .ok (if b = 0xFE then inFrame [] calls else idle b calls) := by
  have hpass : hmiStep (idle noise calls) ⟨.token, some b⟩ =
      .ok { idle b calls with loop := if b = 0xFE then .inner else .outer } := rfl
  rw [hpass]
  by_cases h : b = 0xFE
  · subst h
    rfl
  · simp only [h, if_false]
    rfl

/-- A token without a byte leaves the last noise byte to be looked at again. -/
theorem hmiStep_idle_none {noise : UInt8} (h : noise ≠ 0xFE) (calls : List (List UInt8)) :
    hmiStep (idle noise calls) ⟨.token, none⟩ = .ok (idle noise calls) := by
  have hpass : hmiStep (idle noise calls) ⟨.token, none⟩ =
      .ok { idle noise calls with loop := if noise = 0xFE then .inner else .outer } := rfl
  rw [hpass]
  simp only [h, if_false]
  rfl

/-- Inside a frame every wait returns, and none of them with `RT_ETIMEOUT`: the pass is
the same whoever ended the wait. -/
theorem hmiStep_inFrame (filled : List UInt8) (calls : List (List UInt8)) (take : Take) :
    hmiStep (inFrame filled calls) take =
      (rtDeviceRead (frameBuff filled) filled.length take.rx).bind fun buff =>
      (cmdBuffLoad buff filled.length).bind fun c =>
      if c = 0xFF then
        (cmdBuffStore buff filled.length 0).bind fun buff =>
          .ok (finishFrame { inFrame filled calls with cmdBuff := buff })
      else .ok { inFrame filled calls with cmdBuff := buff, i := filled.length + 1 } := by
  obtain ⟨w, rx⟩ := take
  cases w <;> rfl

/-- The read leaves the buffer of the frame extended by one byte. -/
theorem rtDeviceRead_frameBuff {filled : List UInt8} (h : filled.length < hmiCmdLen)
    (rx : Option UInt8) :
    rtDeviceRead (frameBuff filled) filled.length rx =
      .ok (padded (filled ++ [fillByte filled.length rx])) := by
  cases filled with
  | nil =>
    cases rx with
    | none => rfl
    | some b => rfl
  | cons x xs =>
    cases rx with
    | none =>
      have hfill : fillByte (x :: xs).length none = 0 := rfl
      rw [hfill, padded_append_zero h]
      rfl
    | some b =>
      have hlen := length_padded (Nat.le_of_lt h)
      simp only [rtDeviceRead, frameBuff, cmdBuffStore, hlen, h, if_true, padded_set h]
      rfl

/-- A byte stored is in the place behind the others. -/
theorem padded_snoc_getElem? (filled : List UInt8) (b : UInt8) :
    (padded (filled ++ [b]))[filled.length]? = some b := by
  simp only [padded, List.append_assoc, List.getElem?_append_right (Nat.le_refl _), Nat.sub_self,
    List.singleton_append, List.getElem?_cons_zero]

theorem frameBuff_snoc (filled : List UInt8) (b : UInt8) :
    frameBuff (filled ++ [b]) = padded (filled ++ [b]) := by
  cases filled <;> rfl

/-- The start byte left in `cmd_buff[0]` and the zeros behind are not end bytes: only a
byte that is read ends a frame. -/
theorem fillByte_eq_end {i : Nat} {rx : Option UInt8} :
    fillByte i rx = 0xFF ↔ rx = some 0xFF := by
  cases rx with
  | none =>
    simp only [fillByte, Option.getD_none, reduceCtorEq, iff_false]
    split <;> decide
  | some b => simp only [fillByte, Option.getD_some, Option.some.injEq]

/-- A pass that reads no end byte extends the frame by one, timeout or not. -/
theorem hmiStep_inFrame_more {filled : List UInt8} (h : filled.length < hmiCmdLen)
    (calls : List (List UInt8)) {take : Take} (hrx : take.rx ≠ some 0xFF) :
    hmiStep (inFrame filled calls) take =
      .ok (inFrame (filled ++ [fillByte filled.length take.rx]) calls) := by
  have hne : fillByte filled.length take.rx ≠ 0xFF := fun he => hrx (fillByte_eq_end.mp he)
  rw [hmiStep_inFrame, rtDeviceRead_frameBuff h]
  simp only [Except.bind, cmdBuffLoad, padded_snoc_getElem?, hne, if_false, inFrame,
    frameBuff_snoc, List.length_append, List.length_singleton]

/-- The end byte dispatches what was received, if anything was. -/
theorem hmiStep_inFrame_end {filled : List UInt8} (h : filled.length < hmiCmdLen)
    (calls : List (List UInt8)) (w : Wakeup) :
    hmiStep (inFrame filled calls) ⟨w, some 0xFF⟩ =
      .ok (idle 0 (if filled = [] then calls else calls ++ [padded filled])) := by
  have hfill : fillByte filled.length (some 0xFF) = 0xFF := rfl
  have hlen : (padded (filled ++ [0xFF])).length = hmiCmdLen :=
    length_padded (by simp only [List.length_append, List.length_singleton]; omega)
  have hstore : (padded (filled ++ [0xFF])).set filled.length 0 = padded filled := by
    rw [← padded_set h, List.set_set, padded_set h, padded_append_zero h]
  rw [hmiStep_inFrame, rtDeviceRead_frameBuff h, hfill]
  simp only [Except.bind, cmdBuffLoad, padded_snoc_getElem?, if_true, cmdBuffStore, hlen, h,
    hstore, finishFrame, clearCmdBuff_eq (length_padded (Nat.le_of_lt h)), idle, inFrame]
  congr 2
  cases filled with
  | nil => rfl
  | cons b bs => rfl

/-- With the buffer full, the next return is an access behind its end. -/
theorem hmiStep_inFrame_full {filled : List UInt8} (h : filled.length = hmiCmdLen)
    (calls : List (List UInt8)) (take : Take) :
    hmiStep (inFrame filled calls) take = .error hmiCmdLen := by
  have hlen : (frameBuff filled).length = hmiCmdLen := length_frameBuff (Nat.le_of_eq h)
  rw [hmiStep_inFrame, h]
  cases take.rx with
  | none =>
    have hnone : (frameBuff filled)[hmiCmdLen]? = none :=
      List.getElem?_eq_none (Nat.le_of_eq hlen)
    simp only [rtDeviceRead, Except.bind, cmdBuffLoad, hnone]
  | some b =>
    simp only [rtDeviceRead, cmdBuffStore, hlen, Nat.lt_irrefl, if_false, Except.bind]

/-! ## The buffer bound -/

/-- The lengths of the frames in a sequence of returns, read off the sequence alone: a frame
begins behind a start byte read while no frame is open, counts every return, and ends with
the return that reads an end byte; the last one may still be open. The first argument is
the length of the frame that is open, if one is. -/
def frameLens : Option Nat → List Take → List Nat
  | none, [] => []
  | some n, [] => [n]
  | none, take :: takes =>
    if take = ⟨.token, some 0xFE⟩ then frameLens (some 0) takes else frameLens none takes
  | some n, take :: takes =>
    if take.rx = some 0xFF then (n + 1) :: frameLens none takes else frameLens (some (n + 1)) takes

/-- An open frame only gets longer. -/
theorem exists_frameLen_ge (takes : List Take) (n : Nat) :
    ∃ k ∈ frameLens (some n) takes, n ≤ k := by
  induction takes generalizing n with
  | nil => exact ⟨n, List.mem_singleton_self n, Nat.le_refl n⟩
  | cons take takes ih =>
    unfold frameLens
    split
    · exact ⟨n + 1, List.mem_cons_self, Nat.le_succ n⟩
    · obtain ⟨k, hk, hle⟩ := ih (n + 1)
      exact ⟨k, hk, Nat.le_of_succ_le hle⟩

/-- The bound from either shape, by induction on the returns: the length of the open frame
is the number of bytes the thread has filled. -/
theorem hmiRun_in_bounds (takes : List Take) :
    (∀ noise calls, noise ≠ 0xFE →
      ((∃ t, hmiRun (idle noise calls) takes = .ok t) ↔
        ∀ n ∈ frameLens none takes, n ≤ hmiCmdLen)) ∧
    (∀ filled calls, filled.length ≤ hmiCmdLen →
      ((∃ t, hmiRun (inFrame filled calls) takes = .ok t) ↔
        ∀ n ∈ frameLens (some filled.length) takes, n ≤ hmiCmdLen)) := by
  induction takes with
  | nil =>
    refine ⟨fun noise calls _ => ?_, fun filled calls hle => ?_⟩
    · simp only [hmiRun, Except.ok.injEq, exists_eq', frameLens, List.not_mem_nil, false_implies,
        implies_true]
    · simp only [hmiRun, Except.ok.injEq, exists_eq', frameLens, List.mem_singleton, forall_eq,
        hle]
  | cons take takes ih =>
    obtain ⟨ihIdle, ihFrame⟩ := ih
    refine ⟨fun noise calls hn => ?_, fun filled calls hle => ?_⟩
    · obtain ⟨w, rx⟩ := take
      cases w with
      | timeout =>
        rw [hmiRun, hmiStep_idle_timeout]
        exact ihIdle noise calls hn
      | token =>
        cases rx with
        | none =>
          rw [hmiRun, hmiStep_idle_none hn]
          exact ihIdle noise calls hn
        | some b =>
          rw [hmiRun, hmiStep_idle_byte]
          by_cases hb : b = 0xFE
          · subst hb
            exact ihFrame [] calls (Nat.zero_le _)
          · have hscan : frameLens none (⟨.token, some b⟩ :: takes) = frameLens none takes := by
              rw [frameLens, if_neg]
              simp only [Take.mk.injEq, Option.some.injEq, hb, and_false, not_false_eq_true]
            simp only [hb, if_false, hscan]
            exact ihIdle b calls hb
    · rcases Nat.lt_or_eq_of_le hle with hlt | hfull
      · by_cases hrx : take.rx = some 0xFF
        · obtain ⟨w, rx⟩ := take
          cases hrx
          rw [hmiRun, hmiStep_inFrame_end hlt]
          have hscan : frameLens (some filled.length) (⟨w, some 0xFF⟩ :: takes) =
              (filled.length + 1) :: frameLens none takes := rfl
          simp only [hscan, List.mem_cons, forall_eq_or_imp, Nat.succ_le_of_lt hlt, true_and]
          exact ihIdle 0 _ (by decide)
        · rw [hmiRun, hmiStep_inFrame_more hlt calls hrx]
          have hnext := ihFrame (filled ++ [fillByte filled.length take.rx]) calls
            (by simp only [List.length_append, List.length_singleton]; omega)
          simpa only [Except.bind, frameLens, hrx, if_false, List.length_append,
            List.length_singleton] using hnext
      · -- the frame is as long as the buffer and goes on: both sides fail
        rw [hmiRun, hmiStep_inFrame_full hfull]
        constructor
        · rintro ⟨t, ht⟩
          cases ht
        · intro hall
          have hover : ∃ k ∈ frameLens (some filled.length) (take :: takes), hmiCmdLen < k := by
            unfold frameLens
            split
            · exact ⟨filled.length + 1, List.mem_cons_self, by omega⟩
            · obtain ⟨k, hk, hge⟩ := exists_frameLen_ge takes (filled.length + 1)
              exact ⟨k, hk, by omega⟩
          obtain ⟨k, hk, hlt⟩ := hover
          exact absurd (hall k hk) (by omega)

/-- The thread accesses `cmd_buff` inside its bounds exactly on the sequences of returns in
which no frame takes more than `HMI_CMD_LEN` of them: up to 29 payload bytes and the end
byte, a timeout counting as a byte. -/
theorem hmiThread_in_bounds_iff (takes : List Take) :
    (∃ t, hmiThread takes = .ok t) ↔ ∀ n ∈ frameLens none takes, n ≤ hmiCmdLen :=
  (hmiRun_in_bounds takes).1 0 [] (by decide)

/-- A start byte and 31 bytes without an end byte are written past the buffer. -/
theorem hmiThread_overruns :
    ¬ ∀ takes : List Take, ∃ t, hmiThread takes = .ok t := by
  intro h
  obtain ⟨t, ht⟩ :=
    h (⟨.token, some 0xFE⟩ :: List.replicate 31 ⟨.token, some 0x41⟩)
  have hrun : hmiThread (⟨.token, some 0xFE⟩ :: List.replicate 31 ⟨.token, some 0x41⟩) =
      .error hmiCmdLen := rfl
  rw [hrun] at ht
  cases ht

/-! ## Decoding -/

/-- Bytes between frames: anything but the start byte. -/
structure Noise where
  bytes : List UInt8
  quiet : 0xFE ∉ bytes

/-- A payload the panel sends: 1 to 29 bytes, none of them the end byte. -/
structure Payload where
  bytes : List UInt8
  nonempty : bytes ≠ []
  fits : bytes.length < hmiCmdLen
  unended : 0xFF ∉ bytes

/-- A frame on the line, behind the noise that precedes it. -/
structure PanelFrame where
  noise : Noise
  payload : Payload

/-- The bytes of a frame: noise, start byte, payload, end byte. -/
def PanelFrame.bytes (f : PanelFrame) : List UInt8 :=
  f.noise.bytes ++ 0xFE :: (f.payload.bytes ++ [0xFF])

/-- Bytes that arrive with one semaphore token each and no timeout. -/
def arriving (bytes : List UInt8) : List Take := bytes.map fun b => ⟨.token, some b⟩

/-- The bytes of a text arrive one behind the other. -/
theorem arriving_append (xs ys : List UInt8) :
    arriving (xs ++ ys) = arriving xs ++ arriving ys := List.map_append

/-- Noise only moves through `cmd_buff[0]`. -/
theorem hmiRun_noise (bytes : List UInt8) (h : 0xFE ∉ bytes) (noise : UInt8)
    (calls : List (List UInt8)) :
    hmiRun (idle noise calls) (arriving bytes) = .ok (idle (bytes.getLastD noise) calls) := by
  induction bytes generalizing noise with
  | nil => rfl
  | cons b bytes ih =>
    have hb : b ≠ 0xFE := fun he => h (he ▸ List.mem_cons_self)
    have hrest : 0xFE ∉ bytes := fun hm => h (List.mem_cons_of_mem _ hm)
    have hstep := hmiStep_idle_byte noise b calls
    simp only [hb, if_false] at hstep
    simp only [arriving, List.map_cons, hmiRun, hstep, List.getLastD_cons]
    exact ih hrest b

/-- What a frame holds behind returns that read no end byte. -/
def fillFrom : List UInt8 → List Take → List UInt8
  | filled, [] => filled
  | filled, take :: takes => fillFrom (filled ++ [fillByte filled.length take.rx]) takes

/-- Returns that read no end byte extend the open frame, as long as they fit. -/
theorem hmiRun_more (takes : List Take) (h : ∀ take ∈ takes, take.rx ≠ some 0xFF)
    (filled : List UInt8) (hle : filled.length ≤ hmiCmdLen) (calls : List (List UInt8)) :
    hmiRun (inFrame filled calls) takes =
      if filled.length + takes.length ≤ hmiCmdLen then .ok (inFrame (fillFrom filled takes) calls)
      else .error hmiCmdLen := by
  induction takes generalizing filled with
  | nil => simp only [hmiRun, List.length_nil, Nat.add_zero, hle, if_true, fillFrom]
  | cons take takes ih =>
    rcases Nat.lt_or_eq_of_le hle with hlt | hfull
    · have hstep := hmiStep_inFrame_more hlt calls (h take List.mem_cons_self)
      have hih := ih (fun t ht => h t (List.mem_cons_of_mem _ ht))
        (filled ++ [fillByte filled.length take.rx])
        (by simp only [List.length_append, List.length_singleton]; omega)
      simp only [hmiRun, hstep, Except.bind, hih, fillFrom, List.length_append, List.length_cons,
        List.length_nil, Nat.add_assoc, Nat.add_comm 1]
    · rw [hmiRun, hmiStep_inFrame_full hfull, if_neg]
      · rfl
      · simp only [List.length_cons]
        omega

/-- A body without the end mark brings none. -/
theorem arriving_unended {body : List UInt8} (h : 0xFF ∉ body) :
    ∀ take ∈ arriving body, take.rx ≠ some 0xFF := by
  intro take hmem he
  obtain ⟨b, hb, rfl⟩ := List.mem_map.mp hmem
  cases he
  exact h hb

/-- The bytes that arrive fill the frame. -/
theorem fillFrom_arriving (body filled : List UInt8) :
    fillFrom filled (arriving body) = filled ++ body := by
  induction body generalizing filled with
  | nil => simp only [arriving, List.map_nil, fillFrom, List.append_nil]
  | cons b body ih =>
    have hih := ih (filled ++ [b])
    rw [List.append_assoc, List.singleton_append] at hih
    exact hih

theorem length_fillFrom (takes : List Take) (filled : List UInt8) :
    (fillFrom filled takes).length = filled.length + takes.length := by
  induction takes generalizing filled with
  | nil => rfl
  | cons take takes ih =>
    rw [fillFrom, ih]
    simp only [List.length_append, List.length_cons, List.length_nil]
    omega

/-- Of two parts the second one fills the frame behind the first. -/
theorem fillFrom_append (filled : List UInt8) (xs ys : List Take) :
    fillFrom filled (xs ++ ys) = fillFrom (fillFrom filled xs) ys := by
  induction xs generalizing filled with
  | nil => rfl
  | cons x xs ih => exact ih _

/-- One frame is one dispatch of its payload. -/
theorem hmiRun_frame (f : PanelFrame) (noise : UInt8) (calls : List (List UInt8)) :
    hmiRun (idle noise calls) (arriving f.bytes) =
      .ok (idle 0 (calls ++ [padded f.payload.bytes])) := by
  have hstart : hmiStep (idle (f.noise.bytes.getLastD noise) calls) ⟨.token, some 0xFE⟩ =
      .ok (inFrame [] calls) := hmiStep_idle_byte _ _ _
  have hbody := hmiRun_more (arriving f.payload.bytes) (arriving_unended f.payload.unended) []
    (Nat.zero_le _) calls
  rw [fillFrom_arriving, if_pos (by
    simp only [arriving, List.length_map, List.length_nil, Nat.zero_add]
    exact Nat.le_of_lt f.payload.fits)] at hbody
  have hend := hmiStep_inFrame_end f.payload.fits calls .token
  rw [if_neg f.payload.nonempty] at hend
  rw [PanelFrame.bytes, arriving_append, hmiRun_append, hmiRun_noise _ f.noise.quiet]
  simp only [arriving, List.map_cons, List.map_append, List.map_nil, Except.bind, hmiRun, hstart]
  rw [hmiRun_append]
  simp only [arriving] at hbody
  simp only [hbody, List.nil_append, Except.bind, hmiRun, hend]

/-- The framing decodes what the panel encodes: over any frames and any noise behind them,
with one token a byte, the thread is between frames, has dispatched exactly the payloads in
order, each with zeros behind it, and its buffer is zero but for the last noise byte read
since the last frame, which stands in `cmd_buff[0]`. -/
theorem hmiThread_decodes (frames : List PanelFrame) (trail : Noise) :
    hmiThread (arriving (frames.flatMap PanelFrame.bytes ++ trail.bytes)) =
      .ok { loop := .outer
            cmdBuff := trail.bytes.getLastD 0 :: List.replicate (hmiCmdLen - 1) 0
            i := 0
            calls := frames.map fun f => padded f.payload.bytes } := by
  have hframes : ∀ (fs : List PanelFrame) (calls : List (List UInt8)),
      hmiRun (idle 0 calls) (arriving (fs.flatMap PanelFrame.bytes)) =
        .ok (idle 0 (calls ++ fs.map fun f => padded f.payload.bytes)) := by
    intro fs
    induction fs with
    | nil => intro calls; simp only [List.flatMap_nil, arriving, List.map_nil, hmiRun,
        List.append_nil]
    | cons f fs ih =>
      intro calls
      rw [List.flatMap_cons, arriving_append, hmiRun_append, hmiRun_frame]
      simp only [Except.bind, ih, List.map_cons, List.append_assoc, List.singleton_append]
  rw [hmiThread, hmiInit_eq_idle, arriving_append, hmiRun_append, hframes]
  simp only [Except.bind, List.nil_append]
  rw [hmiRun_noise _ trail.quiet]
  rfl

/-- Between two frames the buffer need not be zero: a noise byte stands in `cmd_buff[0]`. -/
theorem hmiThread_noise_in_buffer :
    ¬ ∀ (frames : List PanelFrame) (trail : Noise),
      ∃ t, hmiThread (arriving (frames.flatMap PanelFrame.bytes ++ trail.bytes)) = .ok t ∧
        t.calls = frames.map (fun f => padded f.payload.bytes) ∧
        t.cmdBuff = List.replicate hmiCmdLen 0 := by
  intro h
  obtain ⟨t, ht, -, hzero⟩ := h [⟨⟨[], by decide⟩, ⟨[0x66, 0x30], by decide, by decide, by decide⟩⟩]
    ⟨[0x41], by decide⟩
  cases ht
  exact absurd hzero (by decide)

/-! ## Broken frames -/

/-- The states of a run that stays in bounds have one of the two shapes. -/
theorem hmiRun_shape (takes : List Take) :
    (∀ noise calls t, noise ≠ 0xFE → hmiRun (idle noise calls) takes = .ok t →
      (∃ n c, n ≠ 0xFE ∧ t = idle n c) ∨ ∃ f c, t = inFrame f c) ∧
    (∀ filled calls t, filled.length ≤ hmiCmdLen → hmiRun (inFrame filled calls) takes = .ok t →
      (∃ n c, n ≠ 0xFE ∧ t = idle n c) ∨ ∃ f c, t = inFrame f c) := by
  induction takes with
  | nil =>
    refine ⟨fun noise calls t hn h => ?_, fun filled calls t _ h => ?_⟩
    · cases h
      exact .inl ⟨noise, calls, hn, rfl⟩
    · cases h
      exact .inr ⟨filled, calls, rfl⟩
  | cons take takes ih =>
    obtain ⟨ihIdle, ihFrame⟩ := ih
    refine ⟨fun noise calls t hn h => ?_, fun filled calls t hle h => ?_⟩
    · obtain ⟨w, rx⟩ := take
      cases w with
      | timeout => exact ihIdle noise calls t hn h
      | token =>
        cases rx with
        | none =>
          rw [hmiRun, hmiStep_idle_none hn] at h
          exact ihIdle noise calls t hn h
        | some b =>
          rw [hmiRun, hmiStep_idle_byte] at h
          by_cases hb : b = 0xFE
          · rw [if_pos hb] at h
            exact ihFrame [] calls t (Nat.zero_le _) h
          · rw [if_neg hb] at h
            exact ihIdle b calls t hb h
    · rcases Nat.lt_or_eq_of_le hle with hlt | hfull
      · by_cases hrx : take.rx = some 0xFF
        · obtain ⟨w, rx⟩ := take
          cases hrx
          rw [hmiRun, hmiStep_inFrame_end hlt] at h
          exact ihIdle 0 _ t (by decide) h
        · rw [hmiRun, hmiStep_inFrame_more hlt calls hrx] at h
          exact ihFrame _ calls t
            (by simp only [List.length_append, List.length_singleton]; omega) h
      · rw [hmiRun, hmiStep_inFrame_full hfull] at h
        cases h

/-- The bytes other than zero in the command buffer are those of the payload. -/
theorem countP_padded (p : List UInt8) :
    (padded p).countP (· != 0) = p.countP (· != 0) := by
  simp only [padded, List.countP_append, List.countP_replicate, bne_self_eq_false,
    Bool.false_eq_true, if_false, Nat.add_zero]

/-- A frame broken off by `n + 1` timeouts, and the complete frame behind it. -/
def brokenThenFrame (q : List UInt8) (n : Nat) (p : List UInt8) : List Take :=
  arriving (0xFE :: q) ++ List.replicate (n + 1) ⟨.timeout, none⟩ ++
    arriving (0xFE :: (p ++ [0xFF]))

/-- The timeouts do not end the frame: from a state between frames the run either leaves the
buffer or dispatches one command, the broken frame with the complete one appended to it. -/
theorem hmiRun_brokenThenFrame (noise : UInt8) (calls : List (List UInt8)) {q p : List UInt8}
    (hq : 0xFF ∉ q) (hp : 0xFF ∉ p) (n : Nat) :
    (∃ e, hmiRun (idle noise calls) (brokenThenFrame q n p) = .error e) ∨
      ∃ stale, hmiRun (idle noise calls) (brokenThenFrame q n p) =
        .ok (idle 0 (calls ++ [padded (q ++ stale ++ 0xFE :: p)])) := by
  -- everything between the two markers that the thread sees
  let body := arriving q ++ List.replicate (n + 1) (⟨.timeout, none⟩ : Take) ++ arriving (0xFE :: p)
  have hsplit : brokenThenFrame q n p = ⟨.token, some 0xFE⟩ :: (body ++ [⟨.token, some 0xFF⟩]) := by
    simp only [brokenThenFrame, body, arriving, List.map_cons, List.map_append, List.map_nil,
      List.cons_append, List.append_assoc]
  have hbody : ∀ take ∈ body, take.rx ≠ some 0xFF := by
    intro take hmem
    simp only [body, List.mem_append] at hmem
    rcases hmem with (hmem | hmem) | hmem
    · exact arriving_unended hq take hmem
    · rw [List.eq_of_mem_replicate hmem]
      simp only [ne_eq, reduceCtorEq, not_false_eq_true]
    · refine arriving_unended (fun hm => ?_) take hmem
      rcases List.mem_cons.mp hm with he | hm
      · exact absurd he (by decide)
      · exact hp hm
  obtain ⟨stale, hfill⟩ : ∃ stale, fillFrom [] body = q ++ stale ++ 0xFE :: p := by
    have hstale : ∀ (m : Nat) (filled : List UInt8), ∃ stale,
        fillFrom filled (List.replicate m (⟨.timeout, none⟩ : Take)) = filled ++ stale := by
      intro m
      induction m with
      | zero => intro filled; exact ⟨[], (List.append_nil filled).symm⟩
      | succ m ih =>
        intro filled
        obtain ⟨rest, hrest⟩ := ih (filled ++ [fillByte filled.length none])
        exact ⟨fillByte filled.length none :: rest, by
          rw [List.replicate_succ, fillFrom, hrest, List.append_assoc, List.singleton_append]⟩
    obtain ⟨stale, hs⟩ := hstale (n + 1) q
    exact ⟨stale, by rw [fillFrom_append, fillFrom_append, fillFrom_arriving q, List.nil_append, hs,
      fillFrom_arriving]⟩
  have hmore := hmiRun_more body hbody [] (Nat.zero_le _) calls
  rw [hsplit, hmiRun, hmiStep_idle_byte, if_pos rfl]
  simp only [Except.bind]
  rw [hmiRun_append, hmore]
  by_cases hfit : ([] : List UInt8).length + body.length ≤ hmiCmdLen
  · rw [if_pos hfit]
    simp only [Except.bind]
    have hlen : (fillFrom [] body).length ≤ hmiCmdLen := by
      rw [length_fillFrom]
      exact hfit
    rcases Nat.lt_or_eq_of_le hlen with hlt | hfull
    · right
      have hne : fillFrom [] body ≠ [] := by
        rw [hfill]
        simp only [ne_eq, List.append_eq_nil_iff, reduceCtorEq, and_false, not_false_eq_true]
      refine ⟨stale, ?_⟩
      rw [hmiRun, hmiStep_inFrame_end hlt, if_neg hne, hfill]
      rfl
    · left
      exact ⟨hmiCmdLen, by rw [hmiRun, hmiStep_inFrame_full hfull]; rfl⟩
  · left
    exact ⟨hmiCmdLen, by rw [if_neg hfit]; rfl⟩

/-- No broken frame is ever abandoned. From every state between frames, for every start
`0xFE, q` that one or more timeouts break off and every complete frame `0xFE, p, 0xFF` behind
it, the thread does not dispatch exactly `p`: the timeouts are not recognised, so the
second frame is appended to the first. -/
theorem hmiThread_never_resynchronises {takes : List Take} {t : HmiState}
    (hrun : hmiThread takes = .ok t) (hidle : t.loop = .outer) {q p : List UInt8}
    (hq : 0xFF ∉ q) (hp : 0xFF ∉ p) (n : Nat) :
    ¬ ∃ t', hmiRun t (brokenThenFrame q n p) = .ok t' ∧ t'.calls = t.calls ++ [padded p] := by
  have hshape := (hmiRun_shape takes).1 0 [] t (by decide) hrun
  obtain ⟨noise, calls, -, rfl⟩ | ⟨f, c, rfl⟩ := hshape
  · rintro ⟨t', ht', hcalls⟩
    rcases hmiRun_brokenThenFrame noise calls hq hp n with ⟨e, he⟩ | ⟨stale, hs⟩
    · rw [he] at ht'
      cases ht'
    · rw [hs] at ht'
      cases ht'
      have hsame : padded (q ++ stale ++ 0xFE :: p) = padded p := by
        simpa only [idle, List.append_cancel_left_eq, List.cons.injEq, and_true] using hcalls
      -- the start byte of the second frame is one byte other than zero too many
      have hcount := congrArg (List.countP (· != 0)) hsame
      rw [countP_padded, countP_padded, List.countP_append, List.countP_cons] at hcount
      have hstart : ((0xFE : UInt8) != 0) = true := by decide
      rw [if_pos hstart] at hcount
      omega
  · cases hidle

/-- After `0xFE 0x41` and a timeout, the frame `0xFE 0x42 0xFF` is not dispatched as `0x42`. -/
theorem hmiThread_never_resynchronises_from_boot :
    hmiThread [] = .ok hmiInit ∧
      ¬ ∃ t', hmiRun hmiInit (brokenThenFrame [0x41] 0 [0x42]) = .ok t' ∧
        t'.calls = hmiInit.calls ++ [padded [0x42]] :=
  ⟨rfl, @hmiThread_never_resynchronises [] hmiInit rfl rfl [0x41] [0x42] (by decide) (by decide) 0⟩

/-- What is dispatched there instead: the broken frame, the byte the timeout left at zero, and
the second frame with its start byte. -/
theorem hmiThread_dispatches_broken_frame :
    ¬ ∀ (q p : List UInt8), 0xFF ∉ q → q.length < hmiCmdLen → 0xFF ∉ p → p.length < hmiCmdLen →
      p ≠ [] → ∃ t', hmiThread (brokenThenFrame q 0 p) = .ok t' ∧ t'.calls = [padded p] := by
  intro h
  obtain ⟨t', ht', hcalls⟩ := h [0x41] [0x42] (by decide) (by decide) (by decide) (by decide)
    (by decide)
  have hrun : hmiThread (brokenThenFrame [0x41] 0 [0x42]) =
      .ok (idle 0 [padded [0x41, 0x00, 0xFE, 0x42]]) := rfl
  rw [hrun] at ht'
  cases ht'
  exact absurd hcalls (by decide)

end RtVcom.Hmi

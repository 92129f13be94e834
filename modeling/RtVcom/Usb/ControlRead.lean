import RtVcom.Lib.Machine
import RtVcom.Usb.ControlIn

/-!
# A control read, from both ends

The host asks for at most `wLength` bytes and the core replies with `n` of them. The controller
holds one packet at a time: a token of the host takes it, and the interrupt behind it calls
`rt_usbd_ep0_in_handler`, which hands over the next one. The host leaves the data stage when a
packet was short or when `wLength` bytes are there. Its status packet is accepted once the
controller is prepared for it.

**The law** (`control_read_iff`): the host never has anything but a beginning of the reply, and the
whole reply when it leaves the data stage; and it can always come to the end of the transfer
exactly if the reply is not as long as the host asked for and a multiple of the packet size. Then
the core waits for the host to take a zero-length packet, and the host for the core to be ready for
the status packet.
-/

namespace RtVcom.Usb

open RtVcom.Lib

/-! ## The transfer -/

/-- Where the host is in the transfer. -/
inductive HostStage
  | data
  | status
  | done
deriving Repr, DecidableEq

/-- The core with the number of its calls that the host has seen to, whether a packet went out whose
interrupt is still to come, and the host with the bytes that it received. -/
structure ControlRead where
  dcd : Udcd
  served : Nat
  wentOut : Bool
  host : HostStage
  received : List UInt8
deriving Repr, DecidableEq

/-- A token of the host for data, the interrupt behind a packet, and the status packet. -/
inductive ControlEvent
  | inToken
  | inInterrupt
  | statusOut
deriving Repr, DecidableEq

/-- One event, where packets have at most `m` bytes. -/
def ControlRead.step (mem : List UInt8) (m wLength : Nat) (s : ControlRead) :
    ControlEvent → Option ControlRead
  | .inToken =>
    if s.host = .data ∧ s.wentOut = false then
      match s.dcd.calls[s.served]? with
      | some (.epWrite _ buffer size) =>
        let packet := region mem buffer size
        let received := s.received ++ packet
        some { s with
          served := s.served + 1
          wentOut := true
          host := if packet.length < m ∨ wLength ≤ received.length then .status else .data
          received }
      | _ => none
    else none
  | .inInterrupt =>
    if s.wentOut then some { s with dcd := rtUsbdEp0InHandler s.dcd, wentOut := false } else none
  | .statusOut =>
    if s.host = .status ∧ s.dcd.calls[s.served]? = some (.epReadPrepare ep0OutAddr none 0) then
      some { s with served := s.served + 1, host := .done }
    else none

/-- The transfer from `rt_usbd_ep0_write` on. -/
def controlRead (mem : List UInt8) (dcd : Udcd) (buffer : Option Nat) (n wLength : Nat) :
    Machine ControlRead ControlEvent where
  init :=
    { dcd := rtUsbdEp0Write dcd buffer n
      served := dcd.calls.length
      wentOut := false
      host := .data
      received := [] }
  step := ControlRead.step mem dcd.maxpacket wLength

/-! ## Its phases -/

/-- Where a transfer is: the packet behind `k` bytes of the reply is there or was taken; the same of
the zero-length packet; the controller is prepared for the status packet; the transfer is over. -/
inductive ControlRead.Phase (mem : List UInt8) (m n wLength : Nat) (buffer : Option Nat)
    (s : ControlRead) : Prop
  | offered (k : Nat) (hk : k < n) (sending : s.dcd.Sending m n (n - k) (buffer.map (· + k)))
      (call : s.dcd.calls[s.served]? =
        some (.epWrite ep0InAddr (buffer.map (· + k)) (min m (n - k))))
      (last : s.served + 1 = s.dcd.calls.length) (wentOut : s.wentOut = false)
      (host : s.host = .data) (received : s.received = (region mem buffer n).take k)
      (full : m ∣ k)
  | taken (k : Nat) (hk : k < n) (sending : s.dcd.Sending m n (n - k) (buffer.map (· + k)))
      (last : s.served = s.dcd.calls.length) (wentOut : s.wentOut = true)
      (host : s.host = if n < k + m ∨ wLength ≤ min (k + m) n then .status else .data)
      (received : s.received = (region mem buffer n).take (k + m)) (full : m ∣ k)
  | zlpOffered (sending : ∃ b, s.dcd.Sending m 0 0 b)
      (call : s.dcd.calls[s.served]? = some (.epWrite ep0InAddr none 0))
      (last : s.served + 1 = s.dcd.calls.length) (wentOut : s.wentOut = false)
      (host : s.host = if wLength ≤ n then .status else .data)
      (received : s.received = region mem buffer n) (full : m ∣ n)
  | zlpTaken (sending : ∃ b, s.dcd.Sending m 0 0 b) (last : s.served = s.dcd.calls.length)
      (wentOut : s.wentOut = true) (host : s.host = .status)
      (received : s.received = region mem buffer n) (short : n < wLength)
  | prepared (call : s.dcd.calls[s.served]? = some (.epReadPrepare ep0OutAddr none 0))
      (wentOut : s.wentOut = false) (host : s.host = .status)
      (received : s.received = region mem buffer n) (short : ¬(m ∣ n ∧ n = wLength))
  | done (wentOut : s.wentOut = false) (host : s.host = .done)
      (received : s.received = region mem buffer n) (short : ¬(m ∣ n ∧ n = wLength))

variable {mem : List UInt8} {dcd : Udcd} {buffer : Option Nat} {m n wLength size remain : Nat}

/-- A callback with less than nothing left prepares the status stage. -/
theorem Udcd.Sending.calls_status (h : dcd.Sending m size remain buffer)
    (hneg : toInt32 (rtSizeSub remain m) < 0) :
    (rtUsbdEp0InHandler dcd).calls = dcd.calls ++ [.epReadPrepare ep0OutAddr none 0] := by
  have hnext : ¬0 < toInt32 (rtSizeSub remain m) := by omega
  have hzlp : ¬(toInt32 (rtSizeSub remain m) = 0 ∧ 0 < size) := by omega
  simp only [rtUsbdEp0InHandler, h.stage, h.maxpacket, h.remain, h.size, ne_eq,
    not_true_eq_false, if_false, hnext, hzlp]

/-- Two steps of a pointer are one. -/
theorem map_add_map_add (k m : Nat) :
    (buffer.map (· + k)).map (· + m) = buffer.map (· + (k + m)) := by
  cases buffer with
  | none => rfl
  | some a => rw [Option.map_some, Option.map_some, Option.map_some, Nat.add_assoc]

/-- The packet behind `k` bytes is the next piece of the reply. -/
theorem region_packet (hbuffer : (region mem buffer n).length = n) (k : Nat) :
    region mem (buffer.map (· + k)) (min m (n - k)) = ((region mem buffer n).drop k).take m := by
  have hlen : ((region mem buffer n).drop k).length = n - k := by rw [List.length_drop, hbuffer]
  rw [region_take mem _ (Nat.min_le_right m (n - k)), region_advance, ← hlen,
    ← List.take_eq_take_min]

/-! ## What one event leads to -/

namespace ControlRead

variable {s t : ControlRead}

/-- The host takes the packet behind `k` bytes. -/
theorem inToken_offered (hm : 1 ≤ m) (hbuffer : (region mem buffer n).length = n) {k : Nat}
    (call : s.dcd.calls[s.served]? =
      some (.epWrite ep0InAddr (buffer.map (· + k)) (min m (n - k))))
    (wentOut : s.wentOut = false) (host : s.host = .data)
    (received : s.received = (region mem buffer n).take k) :
    s.step mem m wLength .inToken = some { s with
      served := s.served + 1
      wentOut := true
      host := if n < k + m ∨ wLength ≤ min (k + m) n then .status else .data
      received := (region mem buffer n).take (k + m) } := by
  have hpacket := @region_packet mem buffer m n hbuffer k
  have hlen : (((region mem buffer n).drop k).take m).length = min m (n - k) := by
    rw [List.length_take, List.length_drop, hbuffer]
  have hshort : min m (n - k) < m ↔ n < k + m := by omega
  simp only [step, host, wentOut, and_self, if_true, call, hpacket, hlen, received,
    ← List.take_add, List.length_take, hbuffer, hshort]

/-- The host takes the zero-length packet. -/
theorem inToken_zlp (hm : 1 ≤ m)
    (call : s.dcd.calls[s.served]? = some (.epWrite ep0InAddr none 0))
    (wentOut : s.wentOut = false) (host : s.host = .data) :
    s.step mem m wLength .inToken = some { s with
      served := s.served + 1
      wentOut := true
      host := .status } := by
  have hempty : region mem none 0 = [] := rfl
  have hshort : 0 < m ∨ wLength ≤ s.received.length := Or.inl hm
  simp only [step, host, wentOut, and_self, if_true, call, hempty, List.append_nil, List.length_nil,
    hshort]

/-- No IN token behind the data stage, nor one before the interrupt of the last. -/
theorem inToken_eq_none (h : s.host ≠ .data ∨ s.wentOut = true) :
    s.step mem m wLength .inToken = none := by
  have hnot : ¬(s.host = .data ∧ s.wentOut = false) := by
    rintro ⟨hhost, hwent⟩
    rcases h with h | h
    · exact h hhost
    · rw [hwent] at h
      exact Bool.noConfusion h
  rw [step, if_neg hnot]

theorem inInterrupt_eq_none (h : s.wentOut = false) : s.step mem m wLength .inInterrupt = none := by
  rw [step, h]
  rfl

/-- An interrupt calls the handler. -/
theorem inInterrupt_eq (h : s.wentOut = true) :
    s.step mem m wLength .inInterrupt =
      some { s with dcd := rtUsbdEp0InHandler s.dcd, wentOut := false } := by
  rw [step, if_pos h]

/-- The status packet ends the transfer where the device is ready for it. -/
theorem statusOut_eq (hhost : s.host = .status)
    (hcall : s.dcd.calls[s.served]? = some (.epReadPrepare ep0OutAddr none 0)) :
    s.step mem m wLength .statusOut = some { s with served := s.served + 1, host := .done } := by
  rw [step, if_pos ⟨hhost, hcall⟩]

theorem statusOut_eq_none
    (h : s.host ≠ .status ∨ s.dcd.calls[s.served]? ≠ some (.epReadPrepare ep0OutAddr none 0)) :
    s.step mem m wLength .statusOut = none := by
  have hnot : ¬(s.host = .status ∧
      s.dcd.calls[s.served]? = some (.epReadPrepare ep0OutAddr none 0)) := by
    rintro ⟨hhost, hcall⟩
    exact h.elim (fun h => h hhost) fun h => h hcall
  rw [step, if_neg hnot]

/-- The interrupt behind the packet that began at `k` bytes. -/
theorem phase_interrupt (hm : 1 ≤ m) (h16 : m < 0x10000) (hn : n ≤ wLength)
    (hw : wLength < 0x10000) (hbuffer : (region mem buffer n).length = n) {k : Nat} (hk : k < n)
    (sending : s.dcd.Sending m n (n - k) (buffer.map (· + k)))
    (last : s.served = s.dcd.calls.length)
    (host : s.host = if n < k + m ∨ wLength ≤ min (k + m) n then .status else .data)
    (received : s.received = (region mem buffer n).take (k + m)) (full : m ∣ k) :
    Phase mem m n wLength buffer
      { s with dcd := rtUsbdEp0InHandler s.dcd, wentOut := false } := by
  have hat : ∀ call, (s.dcd.calls ++ [call])[s.served]? = some call := by
    intro call
    rw [last, List.getElem?_concat_length]
  rcases Nat.lt_trichotomy (n - k) m with hlt | heq | hgt
  · -- a short packet: the controller is prepared for the status packet
    have hcalls := sending.calls_status (toInt32_sub_neg h16 hlt)
    have hshort : n < k + m := by omega
    rw [if_pos (Or.inl hshort)] at host
    rw [List.take_of_length_le (by omega)] at received
    refine .prepared ?_ rfl host received fun hstuck => ?_
    · rw [hcalls]
      exact hat _
    · have hdvd : m ∣ n - k := (Nat.dvd_sub_iff_left (Nat.le_of_lt hk) full).mpr hstuck.1
      exact Nat.not_dvd_of_pos_of_lt (by omega) hlt hdvd
  · -- the last packet was full: the zero-length packet follows
    obtain ⟨hint, -⟩ := @toInt32_sub m (n - k) (by omega) (by omega)
    rw [heq, Nat.sub_self] at hint
    rw [heq] at sending
    obtain ⟨hsent, hcalls⟩ := sending.zlp (by omega) hint
    have hzero : rtSizeSub m m = 0 := by
      rw [(toInt32_sub (Nat.le_refl m) (by omega)).2, Nat.sub_self]
    rw [hzero] at hsent
    have hnot : ¬n < k + m := by omega
    have hmin : min (k + m) n = n := by omega
    rw [hmin] at host
    simp only [hnot, false_or] at host
    rw [List.take_of_length_le (by omega)] at received
    refine .zlpOffered ⟨_, hsent⟩ ?_ ?_ rfl host received ?_
    · rw [hcalls]
      exact hat _
    · rw [hcalls, List.length_append, last]
      rfl
    · have hsum : n = k + m := by omega
      rw [hsum]
      exact Nat.dvd_add full (Nat.dvd_refl m)
  · -- more to come: the next packet
    obtain ⟨hint, hsub⟩ := @toInt32_sub m (n - k) (by omega) (by omega)
    obtain ⟨hnext, hcalls⟩ := sending.next hint (by omega)
    have hrest : n - k - m = n - (k + m) := Nat.sub_sub n k m
    rw [hsub, map_add_map_add, hrest] at hnext
    rw [map_add_map_add, hrest] at hcalls
    have hnot : ¬(n < k + m ∨ wLength ≤ min (k + m) n) := by omega
    rw [if_neg hnot] at host
    refine .offered (k + m) (by omega) hnext ?_ ?_ rfl host received ?_
    · rw [hcalls]
      exact hat _
    · rw [hcalls, List.length_append, last]
      rfl
    · exact Nat.dvd_add full (Nat.dvd_refl m)

/-- The interrupt behind the zero-length packet. -/
theorem phase_interrupt_zlp (hm : 1 ≤ m) (h16 : m < 0x10000)
    (sending : ∃ b, s.dcd.Sending m 0 0 b) (last : s.served = s.dcd.calls.length)
    (host : s.host = .status) (received : s.received = region mem buffer n) (short : n < wLength) :
    Phase mem m n wLength buffer
      { s with dcd := rtUsbdEp0InHandler s.dcd, wentOut := false } := by
  obtain ⟨b, sending⟩ := sending
  have hcalls := sending.calls_status (toInt32_sub_neg h16 hm)
  refine .prepared ?_ rfl host received fun hstuck => (Nat.ne_of_lt short) hstuck.2
  rw [hcalls, last]
  exact List.getElem?_concat_length

/-- Every event leads from one phase to another. -/
theorem Phase.step (hm : 1 ≤ m) (h16 : m < 0x10000) (hn : n ≤ wLength)
    (hw : wLength < 0x10000) (hbuffer : (region mem buffer n).length = n)
    (h : s.Phase mem m n wLength buffer) {event : ControlEvent}
    (hstep : s.step mem m wLength event = some t) : t.Phase mem m n wLength buffer := by
  cases h with
  | offered k hk sending call last wentOut host received full =>
    cases event with
    | inToken =>
      rw [inToken_offered hm hbuffer call wentOut host received] at hstep
      cases hstep
      exact .taken k hk sending last rfl rfl rfl full
    | inInterrupt => rw [inInterrupt_eq_none wentOut] at hstep; cases hstep
    | statusOut =>
      rw [statusOut_eq_none (Or.inl (by rw [host]; decide))] at hstep
      cases hstep
  | taken k hk sending last wentOut host received full =>
    cases event with
    | inToken => rw [inToken_eq_none (Or.inr wentOut)] at hstep; cases hstep
    | inInterrupt =>
      rw [inInterrupt_eq wentOut] at hstep
      cases hstep
      exact phase_interrupt hm h16 hn hw hbuffer hk sending last host received full
    | statusOut =>
      rw [statusOut_eq_none (Or.inr (by rw [List.getElem?_eq_none (by omega)]; simp))] at hstep
      cases hstep
  | zlpOffered sending call last wentOut host received full =>
    cases event with
    | inToken =>
      by_cases hshort : wLength ≤ n
      · rw [if_pos hshort] at host
        rw [inToken_eq_none (Or.inl (by rw [host]; decide))] at hstep
        cases hstep
      · rw [if_neg hshort] at host
        rw [inToken_zlp hm call wentOut host] at hstep
        cases hstep
        exact .zlpTaken sending last rfl rfl received (by omega)
    | inInterrupt => rw [inInterrupt_eq_none wentOut] at hstep; cases hstep
    | statusOut =>
      rw [statusOut_eq_none (Or.inr (by rw [call]; simp))] at hstep
      cases hstep
  | zlpTaken sending last wentOut host received short =>
    cases event with
    | inToken => rw [inToken_eq_none (Or.inr wentOut)] at hstep; cases hstep
    | inInterrupt =>
      rw [inInterrupt_eq wentOut] at hstep
      cases hstep
      exact phase_interrupt_zlp hm h16 sending last host received short
    | statusOut =>
      rw [statusOut_eq_none (Or.inr (by rw [List.getElem?_eq_none (by omega)]; simp))] at hstep
      cases hstep
  | prepared call wentOut host received short =>
    cases event with
    | inToken =>
      rw [inToken_eq_none (Or.inl (by rw [host]; decide))] at hstep
      cases hstep
    | inInterrupt => rw [inInterrupt_eq_none wentOut] at hstep; cases hstep
    | statusOut =>
      rw [statusOut_eq host call] at hstep
      cases hstep
      exact .done wentOut rfl received short
  | done wentOut host received short =>
    cases event with
    | inToken =>
      rw [inToken_eq_none (Or.inl (by rw [host]; decide))] at hstep
      cases hstep
    | inInterrupt => rw [inInterrupt_eq_none wentOut] at hstep; cases hstep
    | statusOut =>
      rw [statusOut_eq_none (Or.inl (by rw [host]; decide))] at hstep
      cases hstep

/-! ## The run -/

/-- What the transfer has still before it. -/
def rank (n : Nat) (s : ControlRead) : Nat :=
  5 * (n - s.received.length) +
    match s.host with
    | .data => if s.wentOut then 4 else 3
    | .status => if s.wentOut then 2 else 1
    | .done => 0

/-- Where the transfer does not come to a halt, some event takes it on. -/
theorem Phase.goesOn (hm : 1 ≤ m) (hbuffer : (region mem buffer n).length = n)
    (hends : ¬(m ∣ n ∧ n = wLength)) (hn : n ≤ wLength) (h : s.Phase mem m n wLength buffer) :
    s.host = .done ∨
      ∃ event t, s.step mem m wLength event = some t ∧ rank n t < rank n s := by
  cases h with
  | offered k hk sending call last wentOut host received full =>
    refine .inr ⟨.inToken, _, inToken_offered hm hbuffer call wentOut host received, ?_⟩
    simp only [rank, received, host, wentOut, List.length_take, hbuffer, if_true]
    split <;> simp <;> omega
  | taken k hk sending last wentOut host received full =>
    refine .inr ⟨.inInterrupt, _, inInterrupt_eq wentOut, ?_⟩
    simp only [rank, wentOut, if_true]
    split at host <;> simp [host]
  | zlpOffered sending call last wentOut host received full =>
    have hshort : ¬wLength ≤ n := fun hle => hends ⟨full, Nat.le_antisymm hn hle⟩
    rw [if_neg hshort] at host
    refine .inr ⟨.inToken, _, inToken_zlp hm call wentOut host, ?_⟩
    simp [rank, host, wentOut]
  | zlpTaken sending last wentOut host received short =>
    refine .inr ⟨.inInterrupt, _, inInterrupt_eq wentOut, ?_⟩
    simp [rank, host, wentOut]
  | prepared call wentOut host received short =>
    refine .inr ⟨.statusOut, _, statusOut_eq host call, ?_⟩
    simp [rank, host, wentOut]
  | done wentOut host received short => exact .inl host

/-- The host has a beginning of the reply, and all of it behind the data stage. -/
theorem Phase.received (hbuffer : (region mem buffer n).length = n)
    (h : s.Phase mem m n wLength buffer) (hn : n ≤ wLength) :
    s.received <+: region mem buffer n ∧ (s.host ≠ .data → s.received = region mem buffer n) := by
  cases h with
  | offered k hk sending call last wentOut host received full =>
    rw [received]
    exact ⟨List.take_prefix _ _, fun hnot => absurd host hnot⟩
  | taken k hk sending last wentOut host received full =>
    rw [received]
    refine ⟨List.take_prefix _ _, fun hnot => List.take_of_length_le ?_⟩
    rw [host] at hnot
    split at hnot
    · omega
    · exact absurd rfl hnot
  | zlpOffered _ _ _ _ _ received _ | zlpTaken _ _ _ _ received _ | prepared _ _ _ received _
  | done _ _ received _ =>
    rw [received]
    exact ⟨List.prefix_rfl, fun _ => rfl⟩

/-- A reply of as many bytes as the host asked for, and a multiple of the packet size, never
ends. -/
theorem Phase.not_done (hdvd : m ∣ n) (heq : n = wLength) (h : s.Phase mem m n wLength buffer) :
    s.host ≠ .done := by
  cases h with
  | offered k hk sending call last wentOut host received full => rw [host]; decide
  | taken k hk sending last wentOut host received full =>
    rw [host]
    split <;> decide
  | zlpOffered sending call last wentOut host received full =>
    rw [host]
    split <;> decide
  | zlpTaken sending last wentOut host received short => rw [host]; decide
  | prepared call wentOut host received short => rw [host]; decide
  | done wentOut host received short => exact absurd ⟨hdvd, heq⟩ short

theorem phase_init (hn : 1 ≤ n) (hmax : dcd.maxpacket = m) :
    (controlRead mem dcd buffer n wLength).init.Phase mem m n wLength buffer := by
  obtain ⟨hsent, hcalls⟩ := @rtUsbdEp0Write_sending dcd m buffer n hmax
  have hbuffer : buffer.map (· + 0) = buffer := Option.map_id'
  refine .offered 0 hn ?_ ?_ ?_ rfl rfl rfl (Nat.dvd_zero m)
  · rw [hbuffer]
    exact hsent
  · rw [controlRead, hbuffer, hcalls, List.getElem?_concat_length]
    rfl
  · rw [controlRead, hcalls, List.length_append]
    rfl

theorem phase_of_reach (hm : 1 ≤ m) (h16 : m < 0x10000) (hn : 1 ≤ n) (hle : n ≤ wLength)
    (hw : wLength < 0x10000) (hbuffer : (region mem buffer n).length = n)
    (hmax : dcd.maxpacket = m)
    (h : (controlRead mem dcd buffer n wLength).Reach Machine.any s) :
    s.Phase mem m n wLength buffer := by
  refine h.invariant (phase_init hn hmax) fun s event t hphase _ hstep => ?_
  rw [controlRead, hmax] at hstep
  exact hphase.step hm h16 hle hw hbuffer hstep

end ControlRead

/-- A control read, for every reply that is no longer than what the host asked for: in every state
that it comes to, the host has a beginning of the reply, and all of it behind the data stage; and
from every such state the transfer can be brought to its end, unless the reply is exactly as long as
the host asked for and a multiple of the packet size. -/
theorem control_read_iff (mem : List UInt8) (dcd : Udcd) (buffer : Option Nat) (m n wLength : Nat)
    (hmax : dcd.maxpacket = m) (hm : 1 ≤ m) (h16 : m < 0x10000) (hn : 1 ≤ n) (hle : n ≤ wLength)
    (hw : wLength < 0x10000) (hbuffer : (region mem buffer n).length = n) :
    (∀ s, (controlRead mem dcd buffer n wLength).Reach Machine.any s →
      s.received <+: region mem buffer n ∧
        (s.host ≠ .data → s.received = region mem buffer n)) ∧
    ((∀ s, (controlRead mem dcd buffer n wLength).Reach Machine.any s →
      ∃ events t, (controlRead mem dcd buffer n wLength).runFrom Machine.any s events = some t ∧
        t.host = .done) ↔
      ¬(m ∣ n ∧ n = wLength)) := by
  have hphase : ∀ s, (controlRead mem dcd buffer n wLength).Reach Machine.any s →
      s.Phase mem m n wLength buffer :=
    fun s h => ControlRead.phase_of_reach hm h16 hn hle hw hbuffer hmax h
  refine ⟨fun s h => (hphase s h).received hbuffer hle, fun hall hstuck => ?_, fun hends s h => ?_⟩
  · obtain ⟨events, t, hrun, hdone⟩ := hall _ .init
    exact (hphase t (.runFrom .init hrun)).not_done hstuck.1 hstuck.2 hdone
  · refine Machine.exists_run_of_rank (ControlRead.rank n) (fun s hs => ?_) (hphase s h)
    rcases hs.goesOn hm hbuffer hends hle with hdone | ⟨event, t, hstep, hrank⟩
    · exact .inl hdone
    · have hstep' : (controlRead mem dcd buffer n wLength).step s event = some t := by
        rw [controlRead, hmax]
        exact hstep
      exact .inr ⟨event, t, trivial, hstep', hs.step hm h16 hle hw hbuffer hstep, hrank⟩

/-- Three bytes of the four that the host has room for, in packets of two, come to their end. -/
theorem control_read_iff_three :
    ∃ events t, (controlRead [7, 8, 9] ⟨.idle, 2, ⟨.write, none, 0, 0⟩, []⟩ (some 0) 3 4).runFrom
      Machine.any (controlRead [7, 8, 9] ⟨.idle, 2, ⟨.write, none, 0, 0⟩, []⟩ (some 0) 3 4).init
      events = some t ∧ t.host = .done :=
  (control_read_iff [7, 8, 9] ⟨.idle, 2, ⟨.write, none, 0, 0⟩, []⟩ (some 0) 2 3 4 rfl (by decide)
    (by decide) (by decide) (by decide) (by decide) rfl).2.mpr (by decide) _ .init

end RtVcom.Usb

import RtVcom.Usb.Core

/-!
# The data stage of endpoint 0, towards the host

`rt_usbd_ep0_write` starts a reply and `rt_usbd_ep0_in_handler`, called for every packet that went
out, continues it: one packet after the other, a zero-length packet when the last one was full, and
then the status stage. `remain_size` is an unsigned number of 32 bits that is decremented past zero
and read back as a signed one.

**The law** (`ep0_data_stage_iff`): the reply goes out as it should exactly if what remains behind
its first packet is not read back as a negative number.
-/

namespace RtVcom.Usb

/-! ## The model -/

/-- `uep0_stage_t`. -/
inductive Uep0Stage
  | idle
  | setup
  | statusIn
  | statusOut
  | din
  | dout
deriving Repr, DecidableEq

/-- `struct udcd`, as the data stage uses it, with the calls of the controller in order. -/
structure Udcd where
  stage : Uep0Stage
  maxpacket : Nat
  request : UioRequest
  calls : List DcdCall
deriving Repr, DecidableEq

/-- `EP0_IN_ADDR` and `EP0_OUT_ADDR`. -/
def ep0InAddr : BitVec 8 := 0x80
def ep0OutAddr : BitVec 8 := 0x00

/-- The conversion of an `rt_size_t` to `rt_int32_t`. -/
def toInt32 (x : Nat) : Int := if x < 0x80000000 then x else (x : Int) - 0x100000000

/-- `dcd_ep_write` on endpoint 0. -/
def Udcd.write (dcd : Udcd) (buffer : Option Nat) (size : Nat) : Udcd :=
  { dcd with calls := dcd.calls ++ [.epWrite ep0InAddr buffer size] }

/-- `rt_usbd_ep0_write`. -/
def rtUsbdEp0Write (dcd : Udcd) (buffer : Option Nat) (size : Nat) : Udcd :=
  let request := { dcd.request with size, buffer, remainSize := size }
  let sentSize := if dcd.maxpacket ≤ size then dcd.maxpacket else size
  Udcd.write { dcd with request, stage := .din } buffer sentSize

/-- `rt_usbd_ep0_in_handler`. -/
def rtUsbdEp0InHandler (dcd : Udcd) : Udcd :=
  if dcd.stage ≠ .din then dcd
  else
    let mps : Int := dcd.maxpacket
    let request : UioRequest := { dcd.request with
      remainSize := rtSizeSub dcd.request.remainSize dcd.maxpacket }
    let remain : Int := toInt32 request.remainSize
    if 0 < remain then
      let sent := if mps ≤ remain then mps else remain
      let request := { request with buffer := request.buffer.map (· + dcd.maxpacket) }
      Udcd.write { dcd with request } request.buffer sent.toNat
    else if remain = 0 ∧ 0 < request.size then
      -- last packet is MPS multiple, so send ZLP packet
      Udcd.write { dcd with request := { request with size := 0 } } none 0
    else
      -- receive status
      { dcd with
        request
        stage := .statusOut
        calls := dcd.calls ++ [.epReadPrepare ep0OutAddr none 0] }

/-- So many packets that went out. -/
def ep0InCallbacks : Nat → Udcd → Udcd
  | 0, dcd => dcd
  | count + 1, dcd => ep0InCallbacks count (rtUsbdEp0InHandler dcd)

/-- The packet that a call hands to the controller, if it does. -/
def packetOf (mem : List UInt8) : DcdCall → Option (List UInt8)
  | .epWrite _ buffer size => some (region mem buffer size)
  | _ => none

/-- The calls of a data stage as it should be: the reply in packets of `m` bytes, the last of which
may be shorter, a zero-length packet exactly when `m` divides its length, and one status stage. -/
def Replied (mem : List UInt8) (m : Nat) (reply : List UInt8) (calls : List DcdCall) : Prop :=
  ∃ writes own, calls = writes ++ [.epReadPrepare ep0OutAddr none 0] ∧
    (∀ call ∈ writes, ∃ buffer size, call = .epWrite ep0InAddr buffer size) ∧
    writes.filterMap (packetOf mem) = own ++ (if m ∣ reply.length then [[]] else []) ∧
    own.flatten = reply ∧ (∀ p ∈ own, p ≠ [] ∧ p.length ≤ m) ∧ ∀ p ∈ own.dropLast, p.length = m

/-- After some callbacks the controller is in the status stage and has been asked for `calls`, and
further callbacks change neither. -/
def Udcd.EndsWith (dcd : Udcd) (calls : List DcdCall) : Prop :=
  ∃ count, ∀ more, (ep0InCallbacks (count + more) dcd).stage = .statusOut ∧
    (ep0InCallbacks (count + more) dcd).calls = calls

/-- The data stage of a reply, from `rt_usbd_ep0_write` on. -/
def Udcd.Replies (dcd : Udcd) (mem : List UInt8) (buffer : Option Nat) (n : Nat) : Prop :=
  ∃ made, Replied mem dcd.maxpacket (region mem buffer n) made ∧
    (rtUsbdEp0Write dcd buffer n).EndsWith (dcd.calls ++ made)

/-! ## The callbacks -/

/-- The data stage is on, with a packet of its reply on the way. -/
structure Udcd.Sending (dcd : Udcd) (m size remain : Nat) (buffer : Option Nat) : Prop where
  stage : dcd.stage = .din
  maxpacket : dcd.maxpacket = m
  size : dcd.request.size = size
  remain : dcd.request.remainSize = remain
  buffer : dcd.request.buffer = buffer

variable {mem : List UInt8} {dcd : Udcd} {m size remain : Nat} {buffer : Option Nat}

theorem ep0InCallbacks_add (a b : Nat) (dcd : Udcd) :
    ep0InCallbacks (a + b) dcd = ep0InCallbacks b (ep0InCallbacks a dcd) := by
  induction a generalizing dcd with
  | zero => rw [Nat.zero_add, ep0InCallbacks]
  | succ a ih =>
    rw [Nat.add_right_comm]
    exact ih _

/-- Outside the data stage a callback does nothing. -/
theorem ep0InCallbacks_of_stage (h : dcd.stage ≠ .din) (count : Nat) :
    ep0InCallbacks count dcd = dcd := by
  induction count with
  | zero => rfl
  | succ count ih => rw [ep0InCallbacks, rtUsbdEp0InHandler, if_pos h, ih]

/-- A callback with bytes left sends the next packet of them. -/
theorem Udcd.Sending.next (h : dcd.Sending m size remain buffer) {rest : Nat}
    (hrest : toInt32 (rtSizeSub remain m) = rest) (hpos : 0 < rest) :
    (rtUsbdEp0InHandler dcd).Sending m size (rtSizeSub remain m) (buffer.map (· + m)) ∧
      (rtUsbdEp0InHandler dcd).calls =
        dcd.calls ++ [.epWrite ep0InAddr (buffer.map (· + m)) (min m rest)] := by
  have hnext : (0 : Int) < rest := by omega
  have hsent : (if (m : Int) ≤ rest then (m : Int) else rest).toNat = min m rest := by
    split <;> omega
  have hhandler : rtUsbdEp0InHandler dcd = Udcd.write { dcd with
      request := { dcd.request with
        remainSize := rtSizeSub remain m
        buffer := buffer.map (· + m) } } (buffer.map (· + m)) (min m rest) := by
    simp only [rtUsbdEp0InHandler, h.stage, h.maxpacket, h.remain, h.buffer, ne_eq,
      not_true_eq_false, if_false, hrest, hnext, if_true, hsent]
  rw [hhandler]
  exact ⟨⟨h.stage, h.maxpacket, h.size, rfl, rfl⟩, rfl⟩

/-- A callback after a full last packet sends the zero-length packet. -/
theorem Udcd.Sending.zlp (h : dcd.Sending m size remain buffer) (hsize : 0 < size)
    (hzero : toInt32 (rtSizeSub remain m) = 0) :
    (rtUsbdEp0InHandler dcd).Sending m 0 (rtSizeSub remain m) buffer ∧
      (rtUsbdEp0InHandler dcd).calls = dcd.calls ++ [.epWrite ep0InAddr none 0] := by
  have hnext : ¬(0 : Int) < 0 := by omega
  have hhandler : rtUsbdEp0InHandler dcd = Udcd.write { dcd with
      request := { dcd.request with
        remainSize := rtSizeSub remain m
        size := 0 } } none 0 := by
    simp only [rtUsbdEp0InHandler, h.stage, h.maxpacket, h.remain, h.size, ne_eq,
      not_true_eq_false, if_false, hzero, hnext, hsize, and_self, if_true]
  rw [hhandler]
  exact ⟨⟨h.stage, h.maxpacket, rfl, rfl, h.buffer⟩, rfl⟩

/-- A callback with less than nothing left starts the status stage, for good. -/
theorem Udcd.Sending.status (h : dcd.Sending m size remain buffer)
    (hneg : toInt32 (rtSizeSub remain m) < 0) :
    dcd.EndsWith (dcd.calls ++ [.epReadPrepare ep0OutAddr none 0]) := by
  have hnext : ¬0 < toInt32 (rtSizeSub remain m) := by omega
  have hzlp : ¬(toInt32 (rtSizeSub remain m) = 0 ∧ 0 < size) := by omega
  have hhandler : (rtUsbdEp0InHandler dcd).stage = .statusOut ∧
      (rtUsbdEp0InHandler dcd).calls = dcd.calls ++ [.epReadPrepare ep0OutAddr none 0] := by
    simp only [rtUsbdEp0InHandler, h.stage, h.maxpacket, h.remain, h.size, ne_eq,
      not_true_eq_false, if_false, hnext, hzlp, and_self]
  refine ⟨1, fun more => ?_⟩
  rw [ep0InCallbacks_add, ep0InCallbacks, ep0InCallbacks,
    ep0InCallbacks_of_stage (by rw [hhandler.1]; decide)]
  exact hhandler

/-- What ends with the right calls behind an interrupt does so before it. -/
theorem Udcd.EndsWith.step {calls : List DcdCall}
    (h : (rtUsbdEp0InHandler dcd).EndsWith calls) : dcd.EndsWith calls := by
  obtain ⟨count, hall⟩ := h
  refine ⟨count + 1, fun more => ?_⟩
  rw [Nat.add_right_comm, ep0InCallbacks]
  exact hall more

/-- A data stage ends with one log of calls only. -/
theorem Udcd.EndsWith.unique {calls calls' : List DcdCall} (h : dcd.EndsWith calls)
    (h' : dcd.EndsWith calls') : calls = calls' := by
  obtain ⟨count, hall⟩ := h
  obtain ⟨count', hall'⟩ := h'
  rw [← (hall count').2, ← (hall' count).2, Nat.add_comm]

/-! ## The packets of a reply -/

/-- What is left of the last packet is negative. -/
theorem toInt32_sub_neg (h16 : m < 0x10000) (h : remain < m) :
    toInt32 (rtSizeSub remain m) < 0 := by
  rw [toInt32, rtSizeSub]
  split <;> omega

theorem toInt32_sub (hle : m ≤ remain) (h : remain < m + 0x80000000) :
    toInt32 (rtSizeSub remain m) = (remain - m : Nat) ∧ rtSizeSub remain m = remain - m := by
  rw [toInt32, rtSizeSub]
  split <;> omega

/-- A difference of at least `2 ^ 31` is read back as a negative number. -/
theorem toInt32_sub_of_le (h32 : remain < 0x100000000) (h : m + 0x80000000 ≤ remain) :
    toInt32 (rtSizeSub remain m) < 0 := by
  rw [toInt32, rtSizeSub]
  split <;> omega

/-- No packet of a string is longer than a packet may be. -/
theorem length_le_of_mem_packets (hm : 0 < m) (l : List UInt8) :
    ∀ p ∈ packets m l, p.length ≤ m := by
  induction l using packets_induction hm with
  | hnil => rw [packets_nil]; exact fun p hp => absurd hp List.not_mem_nil
  | hcons l hl ih =>
    intro p hp
    rw [packets_of_ne_nil hm hl] at hp
    rcases List.mem_cons.mp hp with rfl | hp
    · exact List.length_take_le m l
    · exact ih p hp

/-- The rest of a data stage whose current packet is on its way, by induction on the packets. -/
theorem Udcd.Sending.endsWith_rest (hm : 1 ≤ m) (h16 : m < 0x10000) (hsize : 0 < size)
    (rest : List UInt8) (hrest : rest ≠ []) (hlen : rest.length < m + 0x80000000)
    (hbuffer : region mem buffer rest.length = rest)
    (h : dcd.Sending m size rest.length buffer) :
    ∃ writes, dcd.EndsWith (dcd.calls ++ (writes ++ [.epReadPrepare ep0OutAddr none 0])) ∧
      (∀ call ∈ writes, ∃ buffer size, call = .epWrite ep0InAddr buffer size) ∧
      writes.filterMap (packetOf mem) =
        (packets m rest).tail ++ (if m ∣ rest.length then [[]] else []) := by
  induction rest using packets_induction hm generalizing dcd buffer with
  | hnil => exact absurd rfl hrest
  | hcons rest _ ih =>
    have hpos := List.length_pos_iff.mpr hrest
    rw [packets_of_ne_nil hm hrest, List.tail_cons]
    rcases Nat.lt_trichotomy rest.length m with hlt | heq | hgt
    · refine ⟨[], h.status (toInt32_sub_neg h16 hlt), fun call h => absurd h List.not_mem_nil, ?_⟩
      have hdvd : ¬m ∣ rest.length := Nat.not_dvd_of_pos_of_lt hpos hlt
      rw [List.drop_eq_nil_of_le (by omega), packets_nil, if_neg hdvd]
      rfl
    · obtain ⟨hint, hsub⟩ := toInt32_sub (m := m) (by omega) hlen
      rw [heq, Nat.sub_self] at hint hsub
      rw [heq] at h
      obtain ⟨hsent, hcalls⟩ := h.zlp hsize hint
      rw [hsub] at hsent
      have hends := (hsent.status (toInt32_sub_neg h16 (by omega))).step
      rw [hcalls, List.append_assoc] at hends
      refine ⟨[.epWrite ep0InAddr none 0], hends, ?_, ?_⟩
      · exact fun call hcall => ⟨none, 0, List.mem_singleton.mp hcall⟩
      · rw [List.drop_eq_nil_of_le (by omega), packets_nil, heq, if_pos (Nat.dvd_refl m)]
        rfl
    · obtain ⟨hint, hsub⟩ := toInt32_sub (m := m) (by omega) hlen
      obtain ⟨hnext, hcalls⟩ := h.next hint (by omega)
      have hdrop : rest.drop m ≠ [] := by
        rw [← List.length_pos_iff, List.length_drop]; omega
      have hadvance := region_advance mem buffer m rest.length
      rw [hbuffer, ← List.length_drop] at hadvance
      rw [hsub, ← List.length_drop] at hnext
      obtain ⟨writes, hends, hwrites, hpackets⟩ :=
        ih hdrop (by rw [List.length_drop]; omega) hadvance hnext
      rw [hcalls, List.append_assoc, List.singleton_append] at hends
      refine ⟨_ :: writes, hends.step, ?_, ?_⟩
      · intro call hcall
        rcases List.mem_cons.mp hcall with rfl | hcall
        · exact ⟨_, _, rfl⟩
        · exact hwrites call hcall
      · have hfirst : region mem (buffer.map (· + m)) (min m (rest.length - m)) =
            (rest.drop m).take m := by
          rw [← List.length_drop, region_take mem _ (Nat.min_le_right _ _), hadvance,
            ← List.take_eq_take_min]
        have hdvd : m ∣ (rest.drop m).length ↔ m ∣ rest.length := by
          rw [List.length_drop]
          exact Nat.dvd_sub_iff_left (by omega) (Nat.dvd_refl m)
        rw [List.filterMap_cons_some (by rfl), hpackets, hfirst, packets_of_ne_nil hm hdrop]
        simp only [hdvd, List.tail_cons, List.cons_append]

/-! ## The reply -/

variable {n : Nat}

/-- `rt_usbd_ep0_write` puts the first packet on its way. -/
theorem rtUsbdEp0Write_sending (hmax : dcd.maxpacket = m) :
    (rtUsbdEp0Write dcd buffer n).Sending m n n buffer ∧
      (rtUsbdEp0Write dcd buffer n).calls = dcd.calls ++ [.epWrite ep0InAddr buffer (min m n)] := by
  refine ⟨⟨rfl, hmax, rfl, rfl, rfl⟩, ?_⟩
  have hsent : (if m ≤ n then m else n) = min m n := by split <;> omega
  rw [rtUsbdEp0Write, Udcd.write, hmax, hsent]

/-- A region has no more bytes than it is long. -/
theorem region_length_le : (region mem buffer n).length ≤ n := by
  cases buffer with
  | none => exact Nat.zero_le n
  | some a => exact List.length_take_le n _

/-- A reply whose rest behind the first packet is no negative number goes out as it should. -/
theorem rtUsbdEp0Write_replies (hm : 1 ≤ m) (h16 : m < 0x10000) (hn : 1 ≤ n)
    (hbuffer : (region mem buffer n).length = n) (hmax : dcd.maxpacket = m)
    (hsmall : n < m + 0x80000000) :
    ∃ made, (rtUsbdEp0Write dcd buffer n).EndsWith (dcd.calls ++ made) ∧
      Replied mem m (region mem buffer n) made := by
  obtain ⟨hsent, hcalls⟩ := @rtUsbdEp0Write_sending dcd m buffer n hmax
  have hne : region mem buffer n ≠ [] := by rw [← List.length_pos_iff, hbuffer]; omega
  have hsent' : (rtUsbdEp0Write dcd buffer n).Sending m n (region mem buffer n).length buffer := by
    rw [hbuffer]; exact hsent
  obtain ⟨writes, hends, hwrites, hpackets⟩ :=
    hsent'.endsWith_rest hm h16 hn (region mem buffer n) hne (by rw [hbuffer]; exact hsmall)
      (by rw [hbuffer])
  rw [hcalls, List.append_assoc] at hends
  refine ⟨_, hends, .epWrite ep0InAddr buffer (min m n) :: writes,
    packets m (region mem buffer n), rfl, ?_, ?_, flatten_packets hm _, ?_,
    length_of_mem_dropLast_packets hm _⟩
  · intro call hcall
    rcases List.mem_cons.mp hcall with rfl | hcall
    · exact ⟨_, _, rfl⟩
    · exact hwrites call hcall
  · have hfirst : region mem buffer (min m n) = (region mem buffer n).take m := by
      rw [region_take mem _ (Nat.min_le_right _ _), @List.take_eq_take_min _ _ m, hbuffer]
    rw [List.filterMap_cons_some (by rfl), hpackets, hfirst, packets_of_ne_nil hm hne]
    rfl
  · intro p hp
    exact ⟨nonempty_of_mem_packets hm _ p hp, length_le_of_mem_packets hm _ p hp⟩

/-- A reply without bytes is one empty packet. -/
theorem rtUsbdEp0Write_replies_empty (hm : 1 ≤ m) (h16 : m < 0x10000) (hmax : dcd.maxpacket = m) :
    ∃ made, (rtUsbdEp0Write dcd buffer 0).EndsWith (dcd.calls ++ made) ∧ Replied mem m [] made := by
  obtain ⟨hsent, hcalls⟩ := @rtUsbdEp0Write_sending dcd m buffer 0 hmax
  have hends := hsent.status (toInt32_sub_neg h16 hm)
  rw [hcalls, List.append_assoc, Nat.min_zero] at hends
  refine ⟨_, hends, [.epWrite ep0InAddr buffer 0], [], rfl, ?_, ?_, rfl, ?_, ?_⟩
  · exact fun call hcall => ⟨buffer, 0, List.mem_singleton.mp hcall⟩
  · have hempty : region mem buffer 0 = [] :=
      List.length_eq_zero_iff.mp (Nat.le_zero.mp region_length_le)
    rw [List.filterMap_cons_some (by rfl), hempty, List.length_nil, if_pos (Nat.dvd_zero m)]
    rfl
  · exact fun p hp => absurd hp List.not_mem_nil
  · exact fun p hp => absurd hp List.not_mem_nil

/-- A longer one breaks off after its first packet. -/
theorem rtUsbdEp0Write_breaksOff (h32 : n < 0x100000000) (hmax : dcd.maxpacket = m)
    (hlarge : m + 0x80000000 ≤ n) :
    (rtUsbdEp0Write dcd buffer n).EndsWith
      (dcd.calls ++ [.epWrite ep0InAddr buffer m, .epReadPrepare ep0OutAddr none 0]) := by
  obtain ⟨hsent, hcalls⟩ := @rtUsbdEp0Write_sending dcd m buffer n hmax
  have hends := hsent.status (toInt32_sub_of_le h32 hlarge)
  rw [hcalls, Nat.min_eq_left (by omega), List.append_assoc] at hends
  exact hends

/-- One packet is not a longer reply. -/
theorem not_replied_of_lt {reply : List UInt8} (h : m < reply.length) :
    ¬Replied mem m reply [.epWrite ep0InAddr buffer m, .epReadPrepare ep0OutAddr none 0] := by
  rintro ⟨writes, own, hmade, -, hpackets, hflat, -⟩
  replace hmade : [.epWrite ep0InAddr buffer m] ++ [.epReadPrepare ep0OutAddr none 0] =
    writes ++ [.epReadPrepare ep0OutAddr none 0] := hmade
  rw [← List.append_cancel_right hmade] at hpackets
  have hlength := congrArg (fun l => l.flatten.length) hpackets
  have hle := @region_length_le mem buffer m
  simp only [List.filterMap_cons, packetOf, List.filterMap_nil, List.flatten_cons,
    List.flatten_nil, List.append_nil, List.flatten_append, List.length_append, hflat] at hlength
  omega

/-- A reply of half the range and more ends too early. -/
theorem not_replies_of_le (h32 : n < 0x100000000)
    (hbuffer : (region mem buffer n).length = n) (hmax : dcd.maxpacket = m)
    (hlarge : m + 0x80000000 ≤ n) : ¬dcd.Replies mem buffer n := by
  rintro ⟨made, hreplied, hends⟩
  have hbreak := @rtUsbdEp0Write_breaksOff dcd m buffer n h32 hmax hlarge
  rw [List.append_cancel_left (hends.unique hbreak), hmax] at hreplied
  exact not_replied_of_lt (by rw [hbuffer]; omega) hreplied

/-- The data stage of a reply goes as it should exactly when what remains behind the first packet
is less than `2 ^ 31`. -/
theorem ep0_data_stage_iff (mem : List UInt8) (dcd : Udcd) (buffer : Option Nat) (m n : Nat)
    (hmax : dcd.maxpacket = m) (hm : 1 ≤ m) (h16 : m < 0x10000) (hn : 1 ≤ n)
    (h32 : n < 0x100000000) (hbuffer : (region mem buffer n).length = n) :
    dcd.Replies mem buffer n ↔ n - m < 0x80000000 := by
  constructor
  · intro hreplies
    refine Decidable.byContradiction fun hlarge => ?_
    exact not_replies_of_le h32 hbuffer hmax (by omega) hreplies
  · intro hsmall
    obtain ⟨made, hends, hreplied⟩ :=
      rtUsbdEp0Write_replies hm h16 hn hbuffer hmax (by omega)
    rw [← hmax] at hreplied
    exact ⟨made, hreplied, hends⟩

/-- Two full packets and the empty one. -/
theorem ep0_data_stage_iff_two :
    (⟨.idle, 2, ⟨.write, none, 0, 0⟩, []⟩ : Udcd).Replies [7, 8, 9, 10, 11] (some 1) 4 :=
  (ep0_data_stage_iff [7, 8, 9, 10, 11] ⟨.idle, 2, ⟨.write, none, 0, 0⟩, []⟩ (some 1) 2 4 rfl
    (by decide) (by decide) (by decide) (by decide) (by decide)).mpr (by decide)

/-- A reply of `2 ^ 31 + 64` bytes in packets of 64 breaks off after the first. -/
theorem ep0_data_stage_breaksOff :
    ¬(⟨.idle, 64, ⟨.write, none, 0, 0⟩, []⟩ : Udcd).Replies
      (List.replicate 0x80000040 0) (some 0) 0x80000040 :=
  not_replies_of_le (by decide)
    (by rw [region, List.drop_zero, List.length_take, List.length_replicate, Nat.min_self])
    rfl (Nat.le_of_eq rfl)

end RtVcom.Usb

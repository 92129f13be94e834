import RtVcom.Driver.RingBlockQueue
import RtVcom.Lib.Machine

/-!
# Runs of the ring block buffer

All calls of `ringblk_buf.c` in any order, as a machine. A call whose assertion fails is not made:
sizes are below 2^24, `rt_rbb_blk_put` gets a block that was allocated and `rt_rbb_blk_free` one
that is in use. Beside the ring stand the number of the allocation each block comes from, and the
queues that were obtained and not freed, with their limit and the blocks they took.

Two conditions on the calls lead to two laws. Without queues and with sizes that the buffer has, the
blocks in use are apart and listed in the order of their allocation. With allocations that meet
`Rbb.AllocFits`, every block that is handed out lies in the buffer.
-/

namespace RtVcom.Driver

open RtVcom.Lib

/-! ## The machine -/

/-- A queue in use, with the limit it was asked for and the blocks it took. -/
structure BlkQueueUse where
  queue : RtRbbBlkQueue
  limit : Nat
  members : List Nat
deriving Repr, DecidableEq

/-- The ring, the queues in use, and the allocations so far. -/
structure RbbSystem where
  rbb : Rbb
  live : List BlkQueueUse
  allocation : Nat → Nat
  allocations : Nat

/-- The calls. -/
inductive RbbCall
  | alloc (blkSize : Nat)
  | put (block : Nat)
  | get
  | free (block : Nat)
  | queueGet (queueDataLen : Nat)
  | queueFree (use : BlkQueueUse)
deriving Repr, DecidableEq

/-- The system behind an allocation. -/
def RbbSystem.allocated (s : RbbSystem) (result : Rbb × Option Nat) : RbbSystem :=
  match result.2 with
  | some new =>
    { s with
      rbb := result.1
      allocation := Function.update s.allocation new s.allocations
      allocations := s.allocations + 1 }
  | none => { s with rbb := result.1 }

/-- The system behind `rt_rbb_blk_queue_get`; its blocks are those that left the list. -/
def RbbSystem.queued (s : RbbSystem) (limit : Nat)
    (result : Rbb × Option RtRbbBlkQueue × Nat) : RbbSystem :=
  match result.2.1 with
  | some queue =>
    { s with
      rbb := result.1
      live := s.live ++ [{ queue, limit, members := s.rbb.blkList.diff result.1.blkList }] }
  | none => { s with rbb := result.1 }

/-- A call whose assertions hold, and which stays inside the array of descriptors. -/
def rbbStep (s : RbbSystem) : RbbCall → Option RbbSystem
  | .alloc blkSize =>
    if blkSize < 0x1000000 then some (s.allocated (rtRbbBlkAlloc s.rbb blkSize)) else none
  | .put block =>
    if block < s.rbb.blkMaxNum ∧ (s.rbb.blkSet block).status = .inited then
      some { s with rbb := rtRbbBlkPut s.rbb block }
    else none
  | .get => if rtRbbIsEmpty s.rbb then some s else some { s with rbb := (rtRbbBlkGet s.rbb).1 }
  | .free block =>
    if block < s.rbb.blkMaxNum ∧ (s.rbb.blkSet block).status ≠ .unused then
      some { s with rbb := rtRbbBlkFree s.rbb block }
    else none
  | .queueGet queueDataLen => some (s.queued queueDataLen (rtRbbBlkQueueGet s.rbb queueDataLen))
  | .queueFree use =>
    if use ∈ s.live ∧ use.queue.blocks + use.queue.blkNum ≤ s.rbb.blkMaxNum then
      some { s with rbb := rtRbbBlkQueueFree s.rbb use.queue, live := s.live.erase use }
    else none

/-- A ring over a buffer and a set of descriptors, from `rt_rbb_init` on. -/
def rbbMachine (buf bufSize : Nat) (blockSet : Nat → RbbBlk) (blkMaxNum : Nat) :
    Machine RbbSystem RbbCall where
  init :=
    { rbb := rtRbbInit buf bufSize blockSet blkMaxNum
      live := []
      allocation := fun _ => 0
      allocations := 0 }
  step := rbbStep

/-- What the calls do. -/
inductive RbbEffect (s : RbbSystem) : RbbCall → RbbSystem → Prop
  | refused {blkSize : Nat} : RbbEffect s (.alloc blkSize) s
  | placed {blkSize new buf : Nat} : s.rbb.findEmptyBlkInSet = some new →
      s.rbb.place blkSize = some buf → RbbEffect s (.alloc blkSize)
        { s with
          rbb := s.rbb.append new buf blkSize
          allocation := Function.update s.allocation new s.allocations
          allocations := s.allocations + 1 }
  | put {block : Nat} : block < s.rbb.blkMaxNum → (s.rbb.blkSet block).status = .inited →
      RbbEffect s (.put block) { s with rbb := s.rbb.setStatus block .put }
  | gotNone : RbbEffect s .get s
  | got {block : Nat} : block ∈ s.rbb.blkList →
      RbbEffect s .get { s with rbb := s.rbb.setStatus block .get }
  | freed {block : Nat} : block < s.rbb.blkMaxNum → (s.rbb.blkSet block).status ≠ .unused →
      RbbEffect s (.free block) { s with rbb := rtRbbBlkFree s.rbb block }
  | queued {queueDataLen : Nat} : RbbEffect s (.queueGet queueDataLen)
      (s.queued queueDataLen (rtRbbBlkQueueGet s.rbb queueDataLen))
  | queueFreed {use : BlkQueueUse} : use ∈ s.live → RbbEffect s (.queueFree use)
      { s with rbb := rtRbbBlkQueueFree s.rbb use.queue, live := s.live.erase use }

/-- A step has one of its effects. -/
theorem rbbStep_effect {s t : RbbSystem} {call : RbbCall} (h : rbbStep s call = some t) :
    RbbEffect s call t := by
  cases call with
  | alloc blkSize =>
    obtain ⟨-, hsome⟩ := Option.ite_none_right_eq_some.mp h
    cases hsome
    rcases Rbb.alloc_cases s.rbb blkSize with hnone | ⟨new, buf, hnew, hplace, halloc⟩
    · rw [RbbSystem.allocated, hnone]
      exact .refused
    · rw [RbbSystem.allocated, halloc]
      exact .placed hnew hplace
  | put block =>
    obtain ⟨⟨hlt, hinited⟩, hsome⟩ := Option.ite_none_right_eq_some.mp h
    cases hsome
    exact .put hlt hinited
  | get =>
    change (if rtRbbIsEmpty s.rbb then some s else
      some { s with rbb := (rtRbbBlkGet s.rbb).1 }) = some t at h
    split at h
    · cases h
      exact .gotNone
    · cases h
      rcases Rbb.get_cases s.rbb with ⟨hget, -⟩ | ⟨block, hblock, -, hget⟩
      · rw [hget]
        exact .gotNone
      · rw [hget]
        exact .got hblock
  | free block =>
    obtain ⟨⟨hlt, hused⟩, hsome⟩ := Option.ite_none_right_eq_some.mp h
    cases hsome
    exact .freed hlt hused
  | queueGet queueDataLen =>
    cases h
    exact .queued
  | queueFree use =>
    obtain ⟨⟨hlive, -⟩, hsome⟩ := Option.ite_none_right_eq_some.mp h
    cases hsome
    exact .queueFreed hlive

namespace RbbSystem

variable {s t : RbbSystem} {call : RbbCall}

/-- What `rt_rbb_blk_queue_get` leaves, whether it writes a queue or not. -/
theorem rbb_queued (hnodup : s.rbb.blkList.Nodup) (limit : Nat) :
    (s.queued limit (rtRbbBlkQueueGet s.rbb limit)).rbb =
      (s.rbb.taken limit).foldl (Rbb.leave .get) s.rbb := by
  rw [Rbb.queueGet_eq hnodup]
  unfold queued
  split <;> rfl

/-- `rt_rbb_blk_queue_free` lets the blocks of the queue leave one after the other. -/
theorem rbb_queueFreed (rbb : Rbb) (queue : RtRbbBlkQueue) :
    rtRbbBlkQueueFree rbb queue =
      (List.range' queue.blocks queue.blkNum).foldl (Rbb.leave .unused) rbb := rfl

/-- No call moves the buffer or the set of descriptors. -/
theorem effect_fixed (h : RbbEffect s call t) (hnodup : s.rbb.blkList.Nodup) :
    t.rbb.buf = s.rbb.buf ∧ t.rbb.bufSize = s.rbb.bufSize ∧ t.rbb.blkMaxNum = s.rbb.blkMaxNum := by
  cases h with
  | refused => exact ⟨rfl, rfl, rfl⟩
  | placed _ _ => exact ⟨rfl, rfl, rfl⟩
  | put _ _ => exact ⟨rfl, rfl, rfl⟩
  | gotNone => exact ⟨rfl, rfl, rfl⟩
  | got _ => exact ⟨rfl, rfl, rfl⟩
  | freed _ _ => exact ⟨rfl, rfl, rfl⟩
  | queued =>
    rw [rbb_queued hnodup]
    exact (Rbb.foldl_leave _ _ _).2.2
  | queueFreed _ => exact (Rbb.foldl_leave _ _ _).2.2

end RbbSystem

/-! ## Blocks without queues -/

/-- Calls without queues, and sizes from 1 to that of the buffer. -/
def PlainCall (s : RbbSystem) : RbbCall → Prop
  | .alloc blkSize => 1 ≤ blkSize ∧ blkSize ≤ s.rbb.bufSize
  | .put _ => True
  | .get => True
  | .free _ => True
  | .queueGet _ => False
  | .queueFree _ => False

instance : DecidableRel PlainCall := fun s call =>
  match call with
  | .alloc blkSize => inferInstanceAs (Decidable (1 ≤ blkSize ∧ blkSize ≤ s.rbb.bufSize))
  | .put _ => isTrue trivial
  | .get => isTrue trivial
  | .free _ => isTrue trivial
  | .queueGet _ => isFalse not_false
  | .queueFree _ => isFalse not_false

/-- The blocks of the list in the order of their allocations, all of them in the past. -/
structure RbbSystem.InTurn (s : RbbSystem) : Prop where
  sorted : (s.rbb.blkList.map s.allocation).Pairwise (· < ·)
  past : ∀ b ∈ s.rbb.blkList, s.allocation b < s.allocations

namespace RbbSystem

variable {s t : RbbSystem} {call : RbbCall}

/-- Blocks that leave do not disturb the turn of the rest. -/
theorem InTurn.sublist (h : s.InTurn) {rbb : Rbb} (hsub : rbb.blkList.Sublist s.rbb.blkList) :
    { s with rbb : RbbSystem }.InTurn where
  sorted := h.sorted.sublist (hsub.map _)
  past b hb := h.past b (hsub.subset hb)

/-- A new block comes behind all others. -/
theorem InTurn.append (h : s.InTurn) {new buf blkSize : Nat} (hnew : new ∉ s.rbb.blkList) :
    { s with
      rbb := s.rbb.append new buf blkSize
      allocation := Function.update s.allocation new s.allocations
      allocations := s.allocations + 1 : RbbSystem }.InTurn := by
  have hold {b : Nat} (hb : b ∈ s.rbb.blkList) :
      Function.update s.allocation new s.allocations b = s.allocation b :=
    Function.update_of_ne (fun he : b = new => hnew (he ▸ hb)) ..
  constructor
  · change ((s.rbb.blkList ++ [new]).map (Function.update s.allocation new s.allocations)).Pairwise
      (· < ·)
    rw [List.map_append, List.map_congr_left fun b hb => hold hb]
    refine List.pairwise_append.mpr ⟨h.sorted, List.pairwise_singleton _ _, ?_⟩
    intro x hx y hy
    obtain ⟨b, hb, rfl⟩ := List.mem_map.mp hx
    rw [List.map_singleton, Function.update_self, List.mem_singleton] at hy
    rw [hy]
    exact h.past b hb
  · intro b hb
    change b ∈ s.rbb.blkList ++ [new] at hb
    change Function.update s.allocation new s.allocations b < s.allocations + 1
    rcases List.mem_append.mp hb with hb | hb
    · rw [hold hb]
      exact Nat.lt_succ_of_lt (h.past b hb)
    · rw [List.mem_singleton.mp hb, Function.update_self]
      exact Nat.lt_succ_self _

/-- One call without queues keeps the blocks apart and in turn. -/
theorem plain_step (h : s.rbb.Sound ∧ s.InTurn) (hok : PlainCall s call)
    (heffect : RbbEffect s call t) : t.rbb.Sound ∧ t.InTurn := by
  obtain ⟨hsound, hturn⟩ := h
  cases heffect with
  | refused => exact ⟨hsound, hturn⟩
  | placed hnew hplace =>
    exact ⟨hsound.append hnew hplace hok.1 hok.2, hturn.append (hsound.found hnew).2.2⟩
  | put hlt hinited =>
    have hmem := (hsound.listed _).mpr ⟨hlt, by rw [hinited]; decide⟩
    exact ⟨hsound.setStatus hmem (by decide), hturn.sublist (List.Sublist.refl _)⟩
  | gotNone => exact ⟨hsound, hturn⟩
  | got hmem => exact ⟨hsound.setStatus hmem (by decide), hturn.sublist (List.Sublist.refl _)⟩
  | freed _ _ => exact ⟨hsound.free _, hturn.sublist List.erase_sublist⟩
  | queued => exact absurd hok not_false
  | queueFreed _ => exact absurd hok not_false

end RbbSystem

/-- In every run without queues, the blocks in use are those of the list, lie in the buffer, are
apart, and stand in the list in the order of their allocation and, up to one wrap, of their
addresses. -/
theorem rbb_blocks_apart {buf bufSize : Nat} (blockSet : Nat → RbbBlk) (blkMaxNum : Nat)
    (hmemory : buf + bufSize < 0x100000000) {s : RbbSystem}
    (h : (rbbMachine buf bufSize blockSet blkMaxNum).Reach PlainCall s) :
    (∀ b, b ∈ s.rbb.blkList ↔ b < blkMaxNum ∧ (s.rbb.blkSet b).status ≠ .unused) ∧
      (∀ b ∈ s.rbb.blkList, (s.rbb.blkSet b).Inside buf bufSize) ∧
      (∀ a ∈ s.rbb.blkList, ∀ b ∈ s.rbb.blkList, a ≠ b →
        (s.rbb.blkSet a).buf + (s.rbb.blkSet a).size ≤ (s.rbb.blkSet b).buf ∨
          (s.rbb.blkSet b).buf + (s.rbb.blkSet b).size ≤ (s.rbb.blkSet a).buf) ∧
      (s.rbb.blkList.map s.allocation).Pairwise (· < ·) ∧
      Rotated (fun a b => (s.rbb.blkSet a).Before (s.rbb.blkSet b)) s.rbb.blkList := by
  have hinv : (s.rbb.Sound ∧ s.InTurn) ∧
      s.rbb.buf = buf ∧ s.rbb.bufSize = bufSize ∧ s.rbb.blkMaxNum = blkMaxNum := by
    refine h.invariant (P := fun s => (s.rbb.Sound ∧ s.InTurn) ∧
      s.rbb.buf = buf ∧ s.rbb.bufSize = bufSize ∧ s.rbb.blkMaxNum = blkMaxNum) ?_ ?_
    · exact ⟨⟨Rbb.sound_init blockSet blkMaxNum hmemory, .nil, fun b hb => by cases hb⟩,
        rfl, rfl, rfl⟩
    · rintro s call t ⟨hs, hbuf, hbufSize, hmax⟩ hok hstep
      have heffect := rbbStep_effect hstep
      obtain ⟨hb, hs', hm⟩ := RbbSystem.effect_fixed heffect hs.1.nodup
      exact ⟨RbbSystem.plain_step hs hok heffect, hb.trans hbuf, hs'.trans hbufSize,
        hm.trans hmax⟩
  obtain ⟨⟨hsound, hturn⟩, rfl, rfl, rfl⟩ := hinv
  exact ⟨hsound.listed, hsound.inside, fun a ha b hb hne => hsound.apart ha hb hne, hturn.sorted,
    hsound.rotated⟩

/-- A buffer of 16 bytes with four descriptors. -/
def smallRing : Machine RbbSystem RbbCall :=
  rbbMachine 0x20000000 16 (fun _ => ⟨.unused, 0, 0⟩) 4

/-- Three blocks, the first one freed and a fourth one at its place. -/
theorem rbb_blocks_apart_wrapped :
    ∃ s, smallRing.Reach PlainCall s ∧ s.rbb.blkList = [1, 2, 0] ∧
      (s.rbb.blkList.map s.allocation).Pairwise (· < ·) ∧
      Rotated (fun a b => (s.rbb.blkSet a).Before (s.rbb.blkSet b)) s.rbb.blkList := by
  obtain ⟨s, hreach, hlist⟩ := Machine.exists_reach_of_run smallRing PlainCall
    [.alloc 4, .alloc 6, .alloc 6, .put 1, .get, .free 0, .alloc 4]
    (fun s => s.rbb.blkList = [1, 2, 0]) (by decide +kernel)
  obtain ⟨-, -, -, hturn, hrotated⟩ := rbb_blocks_apart (fun _ => ⟨.unused, 0, 0⟩) 4
    (by decide) hreach
  exact ⟨s, hreach, hlist, hturn, hrotated⟩

/-! ## Blocks in the buffer -/

/-- Allocations that meet `Rbb.AllocFits`; everything else is allowed. -/
def FittingCall (s : RbbSystem) : RbbCall → Prop
  | .alloc blkSize => s.rbb.AllocFits blkSize
  | .put _ => True
  | .get => True
  | .free _ => True
  | .queueGet _ => True
  | .queueFree _ => True

instance : DecidableRel FittingCall := fun s call =>
  match call with
  | .alloc blkSize => inferInstanceAs (Decidable (s.rbb.AllocFits blkSize))
  | .put _ => isTrue trivial
  | .get => isTrue trivial
  | .free _ => isTrue trivial
  | .queueGet _ => isTrue trivial
  | .queueFree _ => isTrue trivial

/-- One call keeps the list linked. -/
theorem RbbSystem.linked_step {s t : RbbSystem} {call : RbbCall} (h : s.rbb.Linked)
    (hok : FittingCall s call) (heffect : RbbEffect s call t) : t.rbb.Linked := by
  cases heffect with
  | refused => exact h
  | placed hnew hplace => exact h.append hnew hplace hok
  | put _ _ => exact h.setStatus _ (by decide)
  | gotNone => exact h
  | got _ => exact h.setStatus _ (by decide)
  | freed _ _ => exact h.leave .unused [_]
  | queued =>
    rw [RbbSystem.rbb_queued h.nodup]
    exact h.leave .get _
  | queueFreed _ => exact h.leave .unused _

/-- What a linked list and the buffer it is about say in every run whose allocations fit. -/
theorem linked_of_reach {buf bufSize blkMaxNum : Nat} {blockSet : Nat → RbbBlk}
    (hmemory : buf + bufSize < 0x100000000) {s : RbbSystem}
    (h : (rbbMachine buf bufSize blockSet blkMaxNum).Reach FittingCall s) :
    s.rbb.Linked ∧ s.rbb.buf = buf ∧ s.rbb.bufSize = bufSize ∧ s.rbb.blkMaxNum = blkMaxNum := by
  refine h.invariant (P := fun s => s.rbb.Linked ∧ s.rbb.buf = buf ∧ s.rbb.bufSize = bufSize ∧
    s.rbb.blkMaxNum = blkMaxNum) ?_ ?_
  · exact ⟨Rbb.linked_init blockSet blkMaxNum hmemory, rfl, rfl, rfl⟩
  · rintro s call t ⟨hs, hbuf, hbufSize, hmax⟩ hok hstep
    have heffect := rbbStep_effect hstep
    obtain ⟨hb, hs', hm⟩ := RbbSystem.effect_fixed heffect hs.nodup
    exact ⟨RbbSystem.linked_step hs hok heffect, hb.trans hbuf, hs'.trans hbufSize, hm.trans hmax⟩

/-- In every run whose allocations fit, whatever is asked for next: a block that is handed out lies
in the buffer, and no block leaves everything as it was, exactly if an empty list is not asked for
more than the buffer has. -/
theorem rbb_alloc_within {buf bufSize : Nat} (blockSet : Nat → RbbBlk) (blkMaxNum : Nat)
    (hmemory : buf + bufSize < 0x100000000) {s : RbbSystem}
    (h : (rbbMachine buf bufSize blockSet blkMaxNum).Reach FittingCall s) (blkSize : Nat) :
    ((∀ block, (rtRbbBlkAlloc s.rbb blkSize).2 = some block →
        buf ≤ ((rtRbbBlkAlloc s.rbb blkSize).1.blkSet block).buf ∧
          ((rtRbbBlkAlloc s.rbb blkSize).1.blkSet block).size = blkSize ∧
          ((rtRbbBlkAlloc s.rbb blkSize).1.blkSet block).buf + blkSize ≤ buf + bufSize) ∧
      ((rtRbbBlkAlloc s.rbb blkSize).2 = none → (rtRbbBlkAlloc s.rbb blkSize).1 = s.rbb)) ↔
    (s.rbb.blkList = [] → s.rbb.findEmptyBlkInSet = none ∨ blkSize ≤ bufSize) := by
  obtain ⟨hlinked, rfl, rfl, rfl⟩ := linked_of_reach hmemory h
  rcases Rbb.alloc_cases s.rbb blkSize with hnone | ⟨new, place, hnew, hplace, hsome⟩
  · rw [hnone]
    refine iff_of_true ⟨fun block hblock => (by cases hblock), fun _ => rfl⟩ ?_
    intro hempty
    -- an empty list refuses only when no descriptor is left
    left
    cases hnew : s.rbb.findEmptyBlkInSet with
    | none => rfl
    | some new =>
      have hlt := (hlinked.found hnew).1
      have hroom : s.rbb.blkList.length < s.rbb.blkMaxNum := by
        rw [hempty, List.length_nil]
        omega
      have hplace : s.rbb.place blkSize = some s.rbb.buf := by
        simp only [Rbb.place, hempty, List.head?_nil, List.getLast?_nil]
      simp only [rtRbbBlkAlloc, hnew, hroom, if_true, hplace, Prod.mk.injEq, reduceCtorEq,
        and_false] at hnone
  · rw [hsome]
    have hself : (s.rbb.append new place blkSize).blkSet new = ⟨.inited, blkSize, place⟩ :=
      Rbb.append_blkSet_self
    have hplaced := hlinked.placed hplace
    constructor
    · rintro ⟨hin, -⟩ hempty
      right
      obtain ⟨-, -, hend⟩ := hin new rfl
      rw [hself] at hend
      have halone : s.rbb.place blkSize = some s.rbb.buf := by
        simp only [Rbb.place, hempty, List.head?_nil, List.getLast?_nil]
      rw [halone, Option.some.injEq] at hplace
      dsimp only at hend
      omega
    · intro hfits
      refine ⟨?_, fun hnone => (by cases hnone)⟩
      intro block hblock
      cases hblock
      obtain ⟨hbegin, hend⟩ := hplaced.within hlinked hnew hfits
      rw [hself]
      exact ⟨hbegin, rfl, hend⟩

/-- An empty block among others, and then a request that fills the buffer. -/
theorem rbb_alloc_within_full :
    ∃ s, smallRing.Reach FittingCall s ∧ s.rbb.blkList = [1, 2] ∧
      (((∀ block, (rtRbbBlkAlloc s.rbb 10).2 = some block →
          0x20000000 ≤ ((rtRbbBlkAlloc s.rbb 10).1.blkSet block).buf ∧
            ((rtRbbBlkAlloc s.rbb 10).1.blkSet block).size = 10 ∧
            ((rtRbbBlkAlloc s.rbb 10).1.blkSet block).buf + 10 ≤ 0x20000000 + 16) ∧
        ((rtRbbBlkAlloc s.rbb 10).2 = none → (rtRbbBlkAlloc s.rbb 10).1 = s.rbb)) ↔
      (s.rbb.blkList = [] → s.rbb.findEmptyBlkInSet = none ∨ 10 ≤ 16)) := by
  obtain ⟨s, hreach, hlist⟩ := Machine.exists_reach_of_run smallRing FittingCall
    [.alloc 4, .alloc 0, .alloc 2, .free 0] (fun s => s.rbb.blkList = [1, 2]) (by decide +kernel)
  exact ⟨s, hreach, hlist, rbb_alloc_within (fun _ => ⟨.unused, 0, 0⟩) 4 (by decide) hreach 10⟩

/-- A block of 17 bytes out of a buffer of 16. -/
theorem rbb_alloc_exceeds :
    (rtRbbBlkAlloc smallRing.init.rbb 17).2 = some 0 ∧
      ¬(((rtRbbBlkAlloc smallRing.init.rbb 17).1.blkSet 0).buf +
        ((rtRbbBlkAlloc smallRing.init.rbb 17).1.blkSet 0).size ≤ 0x20000000 + 16) := by
  decide +kernel

end RtVcom.Driver

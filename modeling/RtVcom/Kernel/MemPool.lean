import RtVcom.Lib.Linked
import RtVcom.Kernel.Ipc
import RtVcom.Kernel.Mem

/-!
# Memory pools

`src/mempool.c`: blocks of one size, the free ones linked through the word in front of each, and
the threads that wait for one. The word of a block that is handed out holds the pool, for
`rt_mp_free`. A pointer is an address, `none` for `RT_NULL`.

The pool counts its waiters in `suspend_thread_count`, beside their list. A thread whose waiting
time expires leaves the list and is not taken from the count, so that a later `rt_mp_free` may take
the head of the empty list for a thread. What this one does to the memory around the head is not
modelled: a run ends there.
-/

namespace RtVcom.Kernel

open RtVcom.Lib

/-! ## The pool -/

/-- The variables of `rt_mp_alloc`. -/
structure MpCall where
  thread : Nat
  time : BitVec 32
  beforeSleep : BitVec 32
deriving Repr, DecidableEq

/-- `struct rt_mempool`. -/
structure RtMempool where
  startAddress : Nat
  size : Nat
  blockSize : Nat
  blockList : Option Nat
  blockTotalCount : Nat
  blockFreeCount : Nat
  suspendThread : List MpCall
  suspendThreadCount : Nat
deriving Repr, DecidableEq

/-- The words in front of the blocks, by their addresses. -/
abbrev MpWords := Nat → Option Nat

/-- `sizeof(rt_uint8_t *)`. -/
def mpWordSize : Nat := 4

/-- The bytes from one block to the next, for blocks of `blockSize` bytes. -/
def mpStride (blockSize : Nat) : Nat := add32 blockSize mpWordSize

/-- The loop of `rt_mp_init`: each block is linked to the next. -/
def mpLink (start stride : Nat) : Nat → MpWords → MpWords
  | 0, words => words
  | offset + 1, words =>
    Function.update (mpLink start stride offset words) (start + offset * stride)
      (some (start + (offset + 1) * stride))

/-- `rt_mp_init`. -/
def rtMpInit (start size blockSize : Nat) (words : MpWords) : RtMempool × MpWords :=
  let size := rtAlignDown size
  let blockSize := rtAlign blockSize
  let stride := mpStride blockSize
  let total := size / stride
  ({ startAddress := start
     size
     blockSize
     blockList := some start
     blockTotalCount := total
     blockFreeCount := total
     suspendThread := []
     suspendThreadCount := 0 },
    Function.update (mpLink start stride total words) (start + (total - 1) * stride) none)

/-- How a critical section of `rt_mp_alloc` ends. -/
inductive MpOutcome
  | suspends
  | returns (block : Option Nat)
deriving Repr, DecidableEq

/-- `rt_mp_alloc` of the pool at `mp`, one turn of its loop: up to where it returns or gives up the
processor. There is no result where it reads a word at `RT_NULL`. -/
def rtMpAlloc (mp : Nat) (pool : RtMempool) (words : MpWords) (call : MpCall) (tick : BitVec 32) :
    Option (RtMempool × MpWords × MpOutcome) :=
  if pool.blockFreeCount = 0 then
    if call.time = 0 then some (pool, words, .returns none)
    else
      let call := if 0 < call.time.toInt then { call with beforeSleep := tick } else call
      some
        ({ pool with
            suspendThread := call :: pool.suspendThread
            suspendThreadCount := pool.suspendThreadCount + 1 },
          words, .suspends)
  else
    pool.blockList.map fun blockPtr =>
      ({ pool with
          blockFreeCount := pool.blockFreeCount - 1
          blockList := words blockPtr },
        Function.update words blockPtr (some mp), .returns (some (blockPtr + mpWordSize)))

/-- The waiting time that is left when a resumed thread goes on. -/
def MpCall.woken (call : MpCall) (tick : BitVec 32) : MpCall :=
  if 0 < call.time.toInt then
    let time := call.time - (tick - call.beforeSleep)
    { call with time := if time.toInt < 0 then 0 else time }
  else call

/-- What `rt_mp_free` takes for a thread that waits. -/
inductive MpResume
  | nobody
  | thread (call : MpCall)
  | listHead
deriving Repr, DecidableEq

/-- `rt_mp_free` of the block behind the word at `blockPtr`, which leads to this pool. -/
def rtMpFree (pool : RtMempool) (words : MpWords) (blockPtr : Nat) :
    RtMempool × MpWords × MpResume :=
  let linked := Function.update words blockPtr pool.blockList
  let pool := { pool with
    blockFreeCount := pool.blockFreeCount + 1
    blockList := some blockPtr }
  if 0 < pool.suspendThreadCount then
    let counted := { pool with suspendThreadCount := pool.suspendThreadCount - 1 }
    match pool.suspendThread with
    | call :: rest => ({ counted with suspendThread := rest }, linked, .thread call)
    | [] => (counted, linked, .listHead)
  else (pool, linked, .nobody)

/-! ## The system -/

/-- A pool with its words, the tick, the callers that were resumed with their `thread->error`, the
blocks that are held with the threads they were given to, how many waiting times have expired, and
whether `rt_mp_free` has taken the list head for a thread. -/
structure MpSystem where
  pool : RtMempool
  words : MpWords
  tick : BitVec 32
  resumed : List (MpCall × Int)
  held : List (Nat × Nat)
  expired : Nat
  headTaken : Bool

/-- The calls, the expiry of a thread timer, a resumed thread that runs again, and the tick. -/
inductive MpAction
  | alloc (thread : Nat) (time : BitVec 32)
  | free (block : Nat)
  | timeout (thread : Nat)
  | run (thread : Nat)
  | tick
deriving Repr, DecidableEq

namespace MpSystem

/-- The threads within `rt_mp_alloc`. -/
def callers (s : MpSystem) : List Nat :=
  (s.pool.suspendThread ++ s.resumed.map Prod.fst).map MpCall.thread

/-- One turn of the loop of `rt_mp_alloc`. -/
def turn (mp : Nat) (s : MpSystem) (call : MpCall) : Option MpSystem :=
  (rtMpAlloc mp s.pool s.words call s.tick).map fun (pool, words, outcome) =>
    match outcome with
    | .suspends => { s with pool, words }
    | .returns block =>
      { s with pool, words, held := s.held ++ block.toList.map fun b => (b, call.thread) }

/-- `rt_mp_free` of a block that is held. -/
def free (mp : Nat) (s : MpSystem) (block : Nat × Nat) : Option MpSystem :=
  let blockPtr := block.1 - mpWordSize
  if s.words blockPtr = some mp then
    let (pool, words, resume) := rtMpFree s.pool s.words blockPtr
    let s := { s with pool, words, held := s.held.erase block }
    match resume with
    | .nobody => some s
    | .thread call => some { s with resumed := s.resumed ++ [(call, rtEok)] }
    | .listHead => some { s with headTaken := true }
  else none

/-- `rt_thread_timeout`. -/
def timeout (s : MpSystem) (call : MpCall) : MpSystem :=
  { s with
      pool := { s.pool with suspendThread := s.pool.suspendThread.erase call }
      resumed := s.resumed ++ [(call, -rtEtimeout)]
      expired := s.expired + 1 }

/-- A resumed thread returns `RT_NULL` for its error, or goes on with the loop. -/
def run (mp : Nat) (s : MpSystem) (call : MpCall) (error : Int) : Option MpSystem :=
  let s := { s with resumed := s.resumed.erase (call, error) }
  if error ≠ rtEok then some s else s.turn mp (call.woken s.tick)

end MpSystem

/-- The pool after `rt_mp_init`, and every interleaving of its users. A call that does not wait may
come from an interrupt, in whatever thread. -/
def mpMachine (mp start size blockSize : Nat) (words : MpWords) (tick : BitVec 32) :
    Machine MpSystem MpAction where
  init :=
    { pool := (rtMpInit start size blockSize words).1
      words := (rtMpInit start size blockSize words).2
      tick
      resumed := []
      held := []
      expired := 0
      headTaken := false }
  step s action :=
    if s.headTaken then none
    else
      match action with
      | .alloc thread time =>
        if time = 0 ∨ thread ∉ s.callers then s.turn mp { thread, time, beforeSleep := 0 }
        else none
      | .free block => (s.held.find? fun b => b.1 == block).bind (s.free mp)
      | .timeout thread =>
        (s.pool.suspendThread.find? fun c =>
          c.thread == thread && decide (0 < c.time.toInt)).map s.timeout
      | .run thread =>
        (s.resumed.find? fun r => r.1.thread == thread).bind fun r => s.run mp r.1 r.2
      | .tick => some { s with tick := s.tick + 1 }

/-! ## The law -/

/-- The words in front of the blocks of a pool. -/
def RtMempool.blocks (pool : RtMempool) : List Nat :=
  (List.range pool.blockTotalCount).map fun offset =>
    pool.startAddress + offset * mpStride pool.blockSize

namespace MpSystem

/-- The word in front of a block that is held. -/
def wordOf (block : Nat × Nat) : Nat := block.1 - mpWordSize

/-- Each of the blocks is either free, and then in the free list once, or held by one caller, and
then its word leads to the pool. -/
structure Conserved (mp : Nat) (blocks : List Nat) (s : MpSystem) : Prop where
  list : ∃ free, Linked s.words s.pool.blockList free ∧ free.length = s.pool.blockFreeCount ∧
    (free ++ s.held.map wordOf).Perm blocks
  nodup : blocks.Nodup
  owner : ∀ block ∈ s.held, s.words (wordOf block) = some mp

/-- The waiters are counted right, and only threads that waited were resumed. -/
structure Counted (s : MpSystem) : Prop where
  count : s.pool.suspendThreadCount = s.pool.suspendThread.length
  waiting : s.headTaken = false

/-- What one step does to the pool. -/
inductive MpEffect (mp : Nat) (s : MpSystem) : MpSystem → Prop
  | quiet {tick resumed} : MpEffect mp s { s with tick, resumed }
  | slept {resumed call} : MpEffect mp s { s with
      resumed
      pool := { s.pool with
        suspendThread := call :: s.pool.suspendThread
        suspendThreadCount := s.pool.suspendThreadCount + 1 } }
  | taken {resumed blockPtr thread} (hcount : s.pool.blockFreeCount ≠ 0)
      (hlist : s.pool.blockList = some blockPtr) : MpEffect mp s { s with
        resumed
        pool := { s.pool with
          blockFreeCount := s.pool.blockFreeCount - 1
          blockList := s.words blockPtr }
        words := Function.update s.words blockPtr (some mp)
        held := s.held ++ [(blockPtr + mpWordSize, thread)] }
  | freed {block} (hheld : block ∈ s.held) (hcount : s.pool.suspendThreadCount = 0) :
      MpEffect mp s { s with
        pool := { s.pool with
          blockFreeCount := s.pool.blockFreeCount + 1
          blockList := some (wordOf block) }
        words := Function.update s.words (wordOf block) s.pool.blockList
        held := s.held.erase block }
  | woke {block call rest resumed} (hheld : block ∈ s.held)
      (hcount : 0 < s.pool.suspendThreadCount) (hlist : s.pool.suspendThread = call :: rest) :
      MpEffect mp s { s with
        resumed
        pool := { s.pool with
          blockFreeCount := s.pool.blockFreeCount + 1
          blockList := some (wordOf block)
          suspendThread := rest
          suspendThreadCount := s.pool.suspendThreadCount - 1 }
        words := Function.update s.words (wordOf block) s.pool.blockList
        held := s.held.erase block }
  | headTaken {pool words held} (hcount : 0 < s.pool.suspendThreadCount)
      (hlist : s.pool.suspendThread = []) :
      MpEffect mp s { s with pool, words, held, headTaken := true }
  | expired {call resumed} (hmem : call ∈ s.pool.suspendThread) : MpEffect mp s { s with
      resumed
      pool := { s.pool with suspendThread := s.pool.suspendThread.erase call }
      expired := s.expired + 1 }

variable {mp : Nat} {blocks : List Nat} {s t : MpSystem}

/-- A turn of a waiting call has one of the effects. -/
theorem turn_effect {call : MpCall} {resumed : List (MpCall × Int)}
    (h : turn mp { s with resumed } call = some t) : MpEffect mp s t := by
  obtain ⟨⟨pool, words, outcome⟩, halloc, rfl⟩ := Option.map_eq_some_iff.mp h
  rw [rtMpAlloc] at halloc
  split at halloc
  · split at halloc
    · cases halloc
      simp only [Option.toList_none, List.map_nil, List.append_nil]
      exact .quiet
    · cases halloc
      exact .slept
  · next hcount =>
    obtain ⟨blockPtr, hlist, hresult⟩ := Option.map_eq_some_iff.mp halloc
    cases hresult
    exact .taken hcount hlist

theorem free_effect {block : Nat × Nat} (hheld : block ∈ s.held) (h : free mp s block = some t) :
    MpEffect mp s t := by
  unfold free rtMpFree at h
  dsimp only at h
  split at h
  · by_cases hcount : 0 < s.pool.suspendThreadCount
    · rw [if_pos hcount] at h
      cases hlist : s.pool.suspendThread with
      | nil =>
        rw [hlist] at h
        cases h
        exact .headTaken hcount hlist
      | cons call rest =>
        rw [hlist] at h
        cases h
        exact .woke hheld hcount hlist
    · rw [if_neg hcount] at h
      cases h
      exact .freed hheld (Nat.eq_zero_of_not_pos hcount)
  · cases h

/-! ## One step -/

/-- A block that is held is handed back. -/
theorem Conserved.release (h : s.Conserved mp blocks) {block : Nat × Nat} (hheld : block ∈ s.held) :
    (∃ free, Linked (Function.update s.words (wordOf block) s.pool.blockList)
        (some (wordOf block)) free ∧ free.length = s.pool.blockFreeCount + 1 ∧
      (free ++ (s.held.erase block).map wordOf).Perm blocks) ∧
    ∀ other ∈ s.held.erase block,
      Function.update s.words (wordOf block) s.pool.blockList (wordOf other) = some mp := by
  obtain ⟨free, hlinked, hlength, hperm⟩ := h.list
  have hheldPerm : (s.held.map wordOf).Perm (wordOf block :: (s.held.erase block).map wordOf) :=
    (List.perm_cons_erase hheld).map wordOf
  have hmoved : (free ++ s.held.map wordOf).Perm
      (wordOf block :: (free ++ (s.held.erase block).map wordOf)) :=
    (hheldPerm.append_left free).trans List.perm_middle
  have hnodup := (hmoved.symm.trans hperm).nodup_iff.mpr h.nodup
  obtain ⟨hout, -⟩ := List.nodup_cons.mp hnodup
  obtain ⟨hfree, hrest⟩ := not_or.mp (mt List.mem_append.mpr hout)
  refine ⟨⟨wordOf block :: free, hlinked.push hfree, by rw [List.length_cons, hlength],
    hmoved.symm.trans hperm⟩, ?_⟩
  intro other hother
  have hne : wordOf other ≠ wordOf block :=
    fun heq => hrest (heq ▸ List.mem_map_of_mem hother)
  rw [Function.update_of_ne hne]
  exact h.owner other (List.mem_of_mem_erase hother)

/-- One step conserves the blocks, as long as the list head was not taken for a thread. -/
theorem Conserved.step (h : s.Conserved mp blocks) (heffect : MpEffect mp s t)
    (hthread : t.headTaken = false) : t.Conserved mp blocks := by
  cases heffect with
  | quiet => exact ⟨h.list, h.nodup, h.owner⟩
  | slept => exact ⟨h.list, h.nodup, h.owner⟩
  | taken hcount hlist =>
    rename_i resumed blockPtr thread
    obtain ⟨free, hlinked, hlength, hperm⟩ := h.list
    rw [hlist] at hlinked
    obtain ⟨rest, rfl, hrest⟩ := hlinked.pop
    have hword : wordOf (blockPtr + mpWordSize, thread) = blockPtr := Nat.add_sub_cancel _ _
    have hmoved : (rest ++ (s.held ++ [(blockPtr + mpWordSize, thread)]).map wordOf).Perm
        (blockPtr :: rest ++ s.held.map wordOf) := by
      rw [List.map_append, List.map_singleton, hword, ← List.append_assoc]
      exact List.perm_append_singleton _ _
    have hnodup := hperm.nodup_iff.mpr h.nodup
    rw [List.cons_append] at hnodup
    obtain ⟨hout, -⟩ := List.nodup_cons.mp hnodup
    obtain ⟨hfree, hheld⟩ := not_or.mp (mt List.mem_append.mpr hout)
    refine ⟨⟨rest, hrest.update hfree, ?_, hmoved.trans hperm⟩, h.nodup, ?_⟩
    · dsimp only
      rw [← hlength, List.length_cons, Nat.add_sub_cancel]
    · intro block hblock
      dsimp only
      rcases List.mem_append.mp hblock with hblock | hblock
      · have hne : wordOf block ≠ blockPtr := fun heq => hheld (heq ▸ List.mem_map_of_mem hblock)
        rw [Function.update_of_ne hne]
        exact h.owner block hblock
      · rw [List.mem_singleton.mp hblock, hword, Function.update_self]
  | freed hheld _ =>
    obtain ⟨hlist, howner⟩ := h.release hheld
    exact ⟨hlist, h.nodup, howner⟩
  | woke hheld _ _ =>
    obtain ⟨hlist, howner⟩ := h.release hheld
    exact ⟨hlist, h.nodup, howner⟩
  | headTaken _ _ => cases hthread
  | expired _ => exact ⟨h.list, h.nodup, h.owner⟩

/-- The count of the waiters is too large by the waiting times that have expired, and only then the
list head is taken for a thread. -/
structure Overcounted (s : MpSystem) : Prop where
  count : s.headTaken = false →
    s.pool.suspendThreadCount = s.pool.suspendThread.length + s.expired
  taken : s.headTaken = true → 0 < s.expired

/-- Every step keeps what is counted too much. -/
theorem Overcounted.step (h : s.Overcounted) (hbefore : s.headTaken = false)
    (heffect : MpEffect mp s t) : t.Overcounted := by
  have hcounted := h.count hbefore
  cases heffect with
  | quiet => exact ⟨h.count, h.taken⟩
  | slept =>
    refine ⟨fun _ => ?_, h.taken⟩
    dsimp only
    rw [hcounted, List.length_cons, Nat.add_right_comm]
  | taken _ _ => exact ⟨h.count, h.taken⟩
  | freed _ _ => exact ⟨h.count, h.taken⟩
  | woke _ _ hlist =>
    refine ⟨fun _ => ?_, h.taken⟩
    dsimp only
    rw [hcounted, hlist, List.length_cons]
    omega
  | headTaken hcount hlist =>
    refine ⟨fun hthread => (by cases hthread), fun _ => ?_⟩
    rw [hcounted, hlist, List.length_nil, Nat.zero_add] at hcount
    exact hcount
  | expired hmem =>
    have hpos := List.length_pos_of_mem hmem
    refine ⟨fun _ => ?_, fun _ => Nat.succ_pos _⟩
    dsimp only
    rw [hcounted, List.length_erase_of_mem hmem]
    omega

/-- The count is right exactly if no wait has expired. -/
theorem Overcounted.counted_iff (h : s.Overcounted) : s.Counted ↔ s.expired = 0 := by
  constructor
  · rintro ⟨hcount, hwaiting⟩
    have hcounted := h.count hwaiting
    omega
  · intro hnone
    have hwaiting : s.headTaken = false := by
      cases htaken : s.headTaken with
      | false => rfl
      | true => exact absurd (h.taken htaken) (by omega)
    exact ⟨by rw [h.count hwaiting, hnone, Nat.add_zero], hwaiting⟩

end MpSystem

/-- Every step has one of the effects. -/
theorem mpMachine_effect {mp start size blockSize : Nat} {words : MpWords} {tick : BitVec 32}
    {s t : MpSystem} {action : MpAction}
    (hstep : (mpMachine mp start size blockSize words tick).step s action = some t) :
    s.headTaken = false ∧ MpSystem.MpEffect mp s t := by
  obtain ⟨hwaiting, hsome⟩ := Option.ite_none_left_eq_some.mp hstep
  refine ⟨Bool.eq_false_iff.mpr hwaiting, ?_⟩
  cases action with
  | alloc thread time =>
    obtain ⟨-, hturn⟩ := Option.ite_none_right_eq_some.mp hsome
    exact @MpSystem.turn_effect mp s t _ s.resumed hturn
  | free block =>
    obtain ⟨found, hfound, hfree⟩ := Option.bind_eq_some_iff.mp hsome
    exact MpSystem.free_effect (List.mem_of_find?_eq_some hfound) hfree
  | timeout thread =>
    obtain ⟨call, hcall, rfl⟩ := Option.map_eq_some_iff.mp hsome
    exact .expired (List.mem_of_find?_eq_some hcall)
  | run thread =>
    obtain ⟨⟨call, error⟩, -, hrun⟩ := Option.bind_eq_some_iff.mp hsome
    change (if error ≠ rtEok then _ else _) = some t at hrun
    split at hrun
    · cases hrun
      exact .quiet
    · exact MpSystem.turn_effect hrun
  | tick =>
    cases hsome
    exact .quiet

/-! ## The pool behind `rt_mp_init` -/

section

variable {start stride total : Nat} {words : MpWords}

/-- A block is linked to the next one. -/
theorem mpLink_of_lt (hstride : 0 < stride) {i : Nat} (hi : i < total) :
    mpLink start stride total words (start + i * stride) = some (start + (i + 1) * stride) := by
  induction total with
  | zero => cases hi
  | succ total ih =>
    rw [mpLink]
    by_cases heq : i = total
    · rw [heq, Function.update_self]
    · have hne : start + i * stride ≠ start + total * stride := by
        intro h
        exact heq (Nat.eq_of_mul_eq_mul_right hstride (Nat.add_left_cancel h))
      rw [Function.update_of_ne hne]
      exact ih (by omega)

end

/-- The free list behind `rt_mp_init`. -/
theorem linked_init {start size blockSize : Nat} {words : MpWords}
    (htotal : 1 ≤ (rtMpInit start size blockSize words).1.blockTotalCount) :
    Linked (rtMpInit start size blockSize words).2 (some start)
        (rtMpInit start size blockSize words).1.blocks ∧
      (rtMpInit start size blockSize words).1.blocks.Nodup := by
  change 1 ≤ rtAlignDown size / mpStride (rtAlign blockSize) at htotal
  change Linked (Function.update (mpLink start (mpStride (rtAlign blockSize))
      (rtAlignDown size / mpStride (rtAlign blockSize)) words)
      (start + (rtAlignDown size / mpStride (rtAlign blockSize) - 1) *
        mpStride (rtAlign blockSize)) none) (some start)
      ((List.range (rtAlignDown size / mpStride (rtAlign blockSize))).map fun offset =>
        start + offset * mpStride (rtAlign blockSize)) ∧
    ((List.range (rtAlignDown size / mpStride (rtAlign blockSize))).map fun offset =>
      start + offset * mpStride (rtAlign blockSize)).Nodup
  -- there are blocks, so that they have an extent
  have hstride : 0 < mpStride (rtAlign blockSize) := by
    refine Nat.pos_of_ne_zero fun hzero => ?_
    rw [hzero, Nat.div_zero] at htotal
    cases htotal
  generalize mpStride (rtAlign blockSize) = stride at htotal hstride ⊢
  obtain ⟨last, hlast⟩ : ∃ last, rtAlignDown size / stride = last + 1 :=
    ⟨_, (Nat.sub_add_cancel htotal).symm⟩
  rw [hlast, Nat.add_sub_cancel]
  have hinj {i j : Nat} (h : start + i * stride = start + j * stride) : i = j :=
    Nat.eq_of_mul_eq_mul_right hstride (Nat.add_left_cancel h)
  constructor
  · have hrow : Linked
        (Function.update (mpLink start stride (last + 1) words) (start + last * stride) none)
        (some (start + 0 * stride))
        ((List.range' 0 (last + 1)).map fun offset => start + offset * stride) := by
      refine @Linked.row _ _ (fun offset => start + offset * stride) 0 last (fun i hi => ?_) ?_
      · rw [Nat.zero_add, Function.update_of_ne fun h => Nat.ne_of_lt hi (hinj h),
          mpLink_of_lt hstride (Nat.lt_succ_of_lt hi)]
      · rw [Nat.zero_add, Function.update_self]
    rw [Nat.zero_mul, Nat.add_zero] at hrow
    rw [List.range_eq_range']
    exact hrow
  · exact List.nodup_range.map fun _ _ h => hinj h

/-- In every run, with waiting times that expire and without: as long as `rt_mp_free` has not taken
the list head for a thread the blocks are conserved; and the waiters are counted right, and only
waiting threads were resumed, exactly if no waiting time has expired. -/
theorem mp_conserved (mp start size blockSize : Nat) (words : MpWords) (tick : BitVec 32)
    (htotal : 1 ≤ (rtMpInit start size blockSize words).1.blockTotalCount) {s : MpSystem}
    (h : (mpMachine mp start size blockSize words tick).Reach Machine.any s) :
    (s.headTaken = false → s.Conserved mp (rtMpInit start size blockSize words).1.blocks) ∧
      (s.Conserved mp (rtMpInit start size blockSize words).1.blocks ∧ s.Counted ↔
        s.expired = 0) := by
  obtain ⟨hlinked, hnodup⟩ := linked_init htotal
  have hinv : (s.headTaken = false →
      s.Conserved mp (rtMpInit start size blockSize words).1.blocks) ∧ s.Overcounted := by
    refine h.invariant (P := fun s => (s.headTaken = false →
      s.Conserved mp (rtMpInit start size blockSize words).1.blocks) ∧ s.Overcounted) ?_ ?_
    · refine ⟨fun _ => ⟨⟨_, hlinked, ?_, ?_⟩, hnodup, fun block hblock => by cases hblock⟩,
        fun _ => rfl, fun htaken => by cases htaken⟩
      · exact (List.length_map _).trans List.length_range
      · exact List.Perm.of_eq (List.append_nil _)
    · rintro s action t ⟨hconserved, hover⟩ - hstep
      obtain ⟨hwaiting, heffect⟩ := mpMachine_effect hstep
      exact ⟨(hconserved hwaiting).step heffect, hover.step hwaiting heffect⟩
  obtain ⟨hconserved, hover⟩ := hinv
  refine ⟨hconserved, fun hlaw => hover.counted_iff.mp hlaw.2, fun hnone => ?_⟩
  have hcounted := hover.counted_iff.mpr hnone
  exact ⟨hconserved hcounted.waiting, hcounted⟩

/-- Two blocks of 8 bytes. -/
def smallPool : Machine MpSystem MpAction :=
  mpMachine 0x20000100 0x20000000 24 8 (fun _ => none) 0

/-- A thread waits for ever and is given a block that another one frees. -/
theorem mp_conserved_handed :
    ∃ s, smallPool.Reach Machine.any s ∧
      s.held = [(0x20000010, 2), (0x20000004, 3)] ∧
      s.Conserved 0x20000100 (rtMpInit 0x20000000 24 8 fun _ => none).1.blocks ∧ s.Counted := by
  obtain ⟨s, hreach, hheld, hexpired⟩ := Machine.exists_reach_of_run smallPool Machine.any
    [.alloc 1 0, .alloc 2 0, .alloc 3 0xffffffff, .free 0x20000004, .run 3]
    (fun s => s.held = [(0x20000010, 2), (0x20000004, 3)] ∧ s.expired = 0) (by decide +kernel)
  exact ⟨s, hreach, hheld,
    (mp_conserved 0x20000100 0x20000000 24 8 (fun _ => none) 0 (by decide) hreach).2.mpr hexpired⟩

/-- A waiting time that expires, and then a block is freed: the list head is taken for a thread. -/
theorem mp_head_taken :
    ¬∀ s, smallPool.Reach Machine.any s →
      s.Conserved 0x20000100 (rtMpInit 0x20000000 24 8 fun _ => none).1.blocks ∧ s.Counted := by
  intro hall
  obtain ⟨s, hreach, htaken⟩ := Machine.exists_reach_of_run smallPool Machine.any
    [.alloc 1 0, .alloc 2 0, .alloc 3 5, .timeout 3, .run 3, .free 0x20000004]
    (fun s => s.headTaken = true) (by decide +kernel)
  rw [(hall s hreach).2.waiting] at htaken
  cases htaken

end RtVcom.Kernel

import Mathlib.Algebra.GroupWithZero.Nat
import Mathlib.Data.List.Nodup
import RtVcom.Driver.RingBlock

/-!
# The block queues of the ring block buffer

`rt_rbb_blk_queue_get` takes the first blocks that were put, as long as they follow each other, out
of the list of the ring; `rt_rbb_blk_queue_len`, `_buf` and `_free` work on them afterwards.

A queue is kept as its first descriptor and a number, so that its blocks are taken to be those of
the descriptors from there on. `Rbb.picked` is what the loop really takes; `Rbb.QueueFits` is what
it needs so that the two are the same, without a gap in memory and within the limit.

`Rbb.Linked` is the order of the list for blocks of any size, empty ones included, and for lists
that blocks were taken out of. `Rbb.AllocFits` is what an allocation needs to keep it.
-/

namespace RtVcom.Driver

open RtVcom.Lib

/-! ## The model -/

/-- `struct rt_rbb_blk_queue`; `blocks` is the index of the first descriptor. -/
structure RtRbbBlkQueue where
  blocks : Nat
  blkNum : Nat
deriving Repr, DecidableEq

/-- A block that leaves the list, for a queue or for good. -/
def Rbb.leave (status : RbbStatus) (rbb : Rbb) (block : Nat) : Rbb :=
  { rbb.setStatus block status with blkList := rbb.blkList.erase block }

/-- The loop of `rt_rbb_blk_queue_get` over the nodes that are left. -/
def blkQueueLoop (queueDataLen : Nat) (rbb : Rbb) (lastBlock : Option Nat) (dataTotalSize : Nat)
    (blkQueue : Option RtRbbBlkQueue) : List Nat → Rbb × Option RtRbbBlkQueue × Nat
  | [] => (rbb, blkQueue, dataTotalSize)
  | block :: nodes =>
    match lastBlock with
    | none =>
      if (rbb.blkSet block).status = .put then
        -- save the first put status block to queue
        blkQueueLoop queueDataLen (Rbb.leave .get rbb block) (some block)
          (add32 dataTotalSize (rbb.blkSet block).size) (some { blocks := block, blkNum := 1 }) nodes
      else blkQueueLoop queueDataLen rbb none dataTotalSize blkQueue nodes
    | some last =>
      if (rbb.blkSet block).status ≠ .put ∨ (rbb.blkSet block).buf < (rbb.blkSet last).buf ∨
          queueDataLen < add32 dataTotalSize (rbb.blkSet block).size then
        (rbb, blkQueue, dataTotalSize)
      else
        blkQueueLoop queueDataLen (Rbb.leave .get rbb block) (some block)
          (add32 dataTotalSize (rbb.blkSet block).size)
          (blkQueue.map fun queue => { queue with blkNum := queue.blkNum + 1 }) nodes

/-- `rt_rbb_blk_queue_get`; a queue that was not written is `none`. -/
def rtRbbBlkQueueGet (rbb : Rbb) (queueDataLen : Nat) : Rbb × Option RtRbbBlkQueue × Nat :=
  if rtRbbIsEmpty rbb then (rbb, none, 0)
  else blkQueueLoop queueDataLen rbb none 0 none rbb.blkList

/-- `rt_rbb_blk_queue_len`. -/
def rtRbbBlkQueueLen (rbb : Rbb) (blkQueue : RtRbbBlkQueue) : Nat :=
  (List.range' blkQueue.blocks blkQueue.blkNum).foldl
    (fun dataTotalSize block => add32 dataTotalSize (rbb.blkSet block).size) 0

/-- `rt_rbb_blk_queue_buf`. -/
def rtRbbBlkQueueBuf (rbb : Rbb) (blkQueue : RtRbbBlkQueue) : Nat :=
  (rbb.blkSet blkQueue.blocks).buf

/-- `rt_rbb_blk_queue_free`. -/
def rtRbbBlkQueueFree (rbb : Rbb) (blkQueue : RtRbbBlkQueue) : Rbb :=
  (List.range' blkQueue.blocks blkQueue.blkNum).foldl rtRbbBlkFree rbb

namespace Rbb

variable {rbb : Rbb} {b c last total queueDataLen : Nat} {nodes : List Nat}

/-! ## The blocks that are picked -/

/-- The blocks that the loop takes out of the list. -/
def picked (rbb : Rbb) (queueDataLen : Nat) : Option Nat → Nat → List Nat → List Nat
  | _, _, [] => []
  | none, total, block :: nodes =>
    if (rbb.blkSet block).status = .put then
      block :: rbb.picked queueDataLen (some block) (add32 total (rbb.blkSet block).size) nodes
    else rbb.picked queueDataLen none total nodes
  | some last, total, block :: nodes =>
    if (rbb.blkSet block).status ≠ .put ∨ (rbb.blkSet block).buf < (rbb.blkSet last).buf ∨
        queueDataLen < add32 total (rbb.blkSet block).size then []
    else block :: rbb.picked queueDataLen (some block) (add32 total (rbb.blkSet block).size) nodes

/-- Leaving the list changes the status of that block only. -/
theorem leave_blkSet (status : RbbStatus) (rbb : Rbb) (b c : Nat) :
    (leave status rbb b).blkSet c =
      { rbb.blkSet c with status := if c = b then status else (rbb.blkSet c).status } :=
  setStatus_blkSet rbb b status c

/-- A block that was taken changes nothing for the nodes behind it. -/
theorem picked_leave (hb : b ∉ nodes) (lastBlock : Option Nat) (total : Nat) :
    (leave .get rbb b).picked queueDataLen lastBlock total nodes =
      rbb.picked queueDataLen lastBlock total nodes := by
  induction nodes generalizing lastBlock total with
  | nil => cases lastBlock <;> rfl
  | cons c nodes ih =>
    rw [List.mem_cons, not_or] at hb
    obtain ⟨hbc, hnodes⟩ := hb
    cases lastBlock with
    | none => simp only [picked, leave_blkSet, if_neg (Ne.symm hbc), ih hnodes]
    | some last => simp only [picked, leave_blkSet, if_neg (Ne.symm hbc), ih hnodes]

/-- The sum of the sizes as the code computes it. -/
def sizeSum (rbb : Rbb) (total : Nat) (blocks : List Nat) : Nat :=
  blocks.foldl (fun total block => add32 total (rbb.blkSet block).size) total

theorem sizeSum_leave (rbb : Rbb) (b total : Nat) (blocks : List Nat) :
    (leave .get rbb b).sizeSum total blocks = rbb.sizeSum total blocks := by
  simp only [sizeSum, leave_blkSet]

/-- The loop behind its first block takes the picked blocks, counts them and adds their sizes. -/
theorem blkQueueLoop_some (hnodup : nodes.Nodup) (last total : Nat) (queue : RtRbbBlkQueue) :
    blkQueueLoop queueDataLen rbb (some last) total (some queue) nodes =
      ((rbb.picked queueDataLen (some last) total nodes).foldl (leave .get) rbb,
        some { queue with
          blkNum := queue.blkNum + (rbb.picked queueDataLen (some last) total nodes).length },
        rbb.sizeSum total (rbb.picked queueDataLen (some last) total nodes)) := by
  induction nodes generalizing rbb last total queue with
  | nil => rfl
  | cons block nodes ih =>
    obtain ⟨hblock, hnodes⟩ := List.nodup_cons.mp hnodup
    unfold blkQueueLoop picked
    dsimp only
    split
    · rfl
    · rw [Option.map_some, ih hnodes, picked_leave hblock, sizeSum_leave]
      simp only [List.foldl_cons, List.length_cons, sizeSum, Nat.add_assoc, Nat.add_comm 1]

/-- The whole loop: a queue is written when a block was put. -/
theorem blkQueueLoop_none (hnodup : nodes.Nodup) :
    blkQueueLoop queueDataLen rbb none 0 none nodes =
      ((rbb.picked queueDataLen none 0 nodes).foldl (leave .get) rbb,
        (rbb.picked queueDataLen none 0 nodes).head?.map fun first =>
          { blocks := first, blkNum := (rbb.picked queueDataLen none 0 nodes).length },
        rbb.sizeSum 0 (rbb.picked queueDataLen none 0 nodes)) := by
  induction nodes with
  | nil => rfl
  | cons block nodes ih =>
    obtain ⟨hblock, hnodes⟩ := List.nodup_cons.mp hnodup
    unfold blkQueueLoop picked
    dsimp only
    split
    · rw [blkQueueLoop_some hnodes, picked_leave hblock, sizeSum_leave]
      simp only [List.foldl_cons, List.length_cons, List.head?_cons, Option.map_some, sizeSum,
        Nat.add_comm 1]
    · exact ih hnodes

/-- The blocks that `rt_rbb_blk_queue_get` takes. -/
def taken (rbb : Rbb) (queueDataLen : Nat) : List Nat := rbb.picked queueDataLen none 0 rbb.blkList

/-- `rt_rbb_blk_queue_get` takes a run of blocks out of the PUT state, from its first on. -/
theorem queueGet_eq (hnodup : rbb.blkList.Nodup) (queueDataLen : Nat) :
    rtRbbBlkQueueGet rbb queueDataLen =
      ((rbb.taken queueDataLen).foldl (leave .get) rbb,
        (rbb.taken queueDataLen).head?.map fun first =>
          { blocks := first, blkNum := (rbb.taken queueDataLen).length },
        rbb.sizeSum 0 (rbb.taken queueDataLen)) := by
  unfold rtRbbBlkQueueGet rtRbbIsEmpty taken
  split
  · next hempty =>
    rw [List.isEmpty_iff.mp hempty]
    rfl
  · exact blkQueueLoop_none hnodup

/-- The blocks picked are met in the order of the list. -/
theorem picked_sublist (lastBlock : Option Nat) (total : Nat) (nodes : List Nat) :
    (rbb.picked queueDataLen lastBlock total nodes).Sublist nodes := by
  induction nodes generalizing lastBlock total with
  | nil => cases lastBlock <;> exact List.Sublist.refl _
  | cons block nodes ih =>
    cases lastBlock with
    | none =>
      unfold picked
      split
      · exact (ih _ _).cons_cons block
      · exact (ih _ _).cons block
    | some last =>
      unfold picked
      split
      · exact List.nil_sublist _
      · exact (ih _ _).cons_cons block

/-- What blocks that leave one after the other change: their status, and the list. -/
theorem foldl_leave (status : RbbStatus) (rbb : Rbb) (blocks : List Nat) :
    (∀ c, (blocks.foldl (leave status) rbb).blkSet c =
        { rbb.blkSet c with
          status := if c ∈ blocks then status else (rbb.blkSet c).status }) ∧
      (blocks.foldl (leave status) rbb).blkList = rbb.blkList.diff blocks ∧
      (blocks.foldl (leave status) rbb).buf = rbb.buf ∧
      (blocks.foldl (leave status) rbb).bufSize = rbb.bufSize ∧
      (blocks.foldl (leave status) rbb).blkMaxNum = rbb.blkMaxNum := by
  induction blocks generalizing rbb with
  | nil =>
    simp only [List.foldl_nil, List.not_mem_nil, if_false, List.diff_nil, and_self, implies_true]
  | cons block blocks ih =>
    obtain ⟨hset, hlist, hrest⟩ := ih (leave status rbb block)
    rw [List.foldl_cons]
    refine ⟨?_, ?_, hrest⟩
    · intro c
      rw [hset, leave_blkSet]
      by_cases hc : c = block
      · simp only [hc, List.mem_cons, true_or, if_true, ite_self]
      · simp only [hc, List.mem_cons, false_or, if_false]
    · rw [hlist, List.diff_cons]
      rfl

/-! ## The order of the list, empty blocks included -/

/-- One block ends where the other one begins, or before. -/
def EndsBy (rbb : Rbb) (a b : Nat) : Prop :=
  (rbb.blkSet a).buf + (rbb.blkSet a).size ≤ (rbb.blkSet b).buf

/-- The same, and it begins before. -/
def Below (rbb : Rbb) (a b : Nat) : Prop :=
  rbb.EndsBy a b ∧ (rbb.blkSet a).buf < (rbb.blkSet b).buf

/-- A block lies in the buffer. -/
def Within (rbb : Rbb) (b : Nat) : Prop :=
  rbb.buf ≤ (rbb.blkSet b).buf ∧
    (rbb.blkSet b).buf + (rbb.blkSet b).size ≤ rbb.buf + rbb.bufSize

/-- The blocks of the list are in use, in the buffer, and in order up to one wrap. -/
structure Linked (rbb : Rbb) : Prop where
  memory : rbb.buf + rbb.bufSize < 0x100000000
  nodup : rbb.blkList.Nodup
  used : ∀ b ∈ rbb.blkList, b < rbb.blkMaxNum ∧ (rbb.blkSet b).status ≠ .unused
  within : ∀ b ∈ rbb.blkList, rbb.Within b
  wrapped : Wrapped rbb.EndsBy rbb.Below rbb.blkList

/-- What an allocation needs: into an empty list, a size that the buffer has; into a list that has
wrapped, with no byte left between its last and its first block, a size other than 0. -/
def AllocFits (rbb : Rbb) (blkSize : Nat) : Prop :=
  (rbb.blkList = [] → rbb.findEmptyBlkInSet = none ∨ blkSize ≤ rbb.bufSize) ∧
    (blkSize = 0 → ∀ head ∈ rbb.blkList.head?, ∀ tail ∈ rbb.blkList.getLast?,
      (rbb.blkSet head).buf ≤ (rbb.blkSet tail).buf ∨
        (rbb.blkSet tail).buf + (rbb.blkSet tail).size ≠ (rbb.blkSet head).buf)

instance (rbb : Rbb) (blkSize : Nat) : Decidable (rbb.AllocFits blkSize) :=
  inferInstanceAs (Decidable (_ ∧ (_ → ∀ head ∈ rbb.blkList.head?,
    ∀ tail ∈ rbb.blkList.getLast?, _ ∨ _)))

section

variable {rbb' : Rbb} {x y z : Nat}

theorem EndsBy.trans (hxy : rbb.EndsBy x y) (hyz : rbb.EndsBy y z) : rbb.EndsBy x z := by
  unfold EndsBy at *
  omega

/-- A block below one that ends before a third is below the third. -/
theorem Below.trans_endsBy (hxy : rbb.Below x y) (hyz : rbb.EndsBy y z) : rbb.Below x z := by
  unfold Below EndsBy at *
  omega

/-- A block below another is not behind it. -/
theorem Below.asymm (hxy : rbb.Below x y) : x ≠ y ∧ ¬rbb.EndsBy y x := by
  unfold Below EndsBy at *
  constructor
  · rintro rfl
    omega
  · omega

/-- Blocks that keep their place and size keep their order. -/
theorem EndsBy.congr (hsame : ∀ c, (rbb'.blkSet c).buf = (rbb.blkSet c).buf ∧
    (rbb'.blkSet c).size = (rbb.blkSet c).size) (h : rbb.EndsBy x y) : rbb'.EndsBy x y := by
  obtain ⟨hbuf, hsize⟩ := hsame x
  rw [EndsBy, hbuf, hsize, (hsame y).1]
  exact h

end

/-- A list of fewer blocks, whose descriptors changed nothing but their status, is linked again. -/
theorem Linked.congr {rbb' : Rbb} (h : rbb.Linked) (hbuf : rbb'.buf = rbb.buf)
    (hbufSize : rbb'.bufSize = rbb.bufSize) (hmax : rbb'.blkMaxNum = rbb.blkMaxNum)
    (hsame : ∀ c, (rbb'.blkSet c).buf = (rbb.blkSet c).buf ∧
      (rbb'.blkSet c).size = (rbb.blkSet c).size)
    (hsub : rbb'.blkList.Sublist rbb.blkList)
    (hused : ∀ b ∈ rbb'.blkList, (rbb'.blkSet b).status ≠ .unused) : rbb'.Linked where
  memory := by
    rw [hbuf, hbufSize]
    exact h.memory
  nodup := h.nodup.sublist hsub
  used b hb := by
    rw [hmax]
    exact ⟨(h.used b (hsub.subset hb)).1, hused b hb⟩
  within b hb := by
    obtain ⟨hb', hs'⟩ := hsame b
    rw [Within, hbuf, hbufSize, hb', hs']
    exact h.within b (hsub.subset hb)
  wrapped := by
    refine (h.wrapped.sublist hsub).congr (fun _ _ _ _ => EndsBy.congr hsame) ?_
    intro a _ b _ hbelow
    refine ⟨hbelow.1.congr hsame, ?_⟩
    rw [(hsame a).1, (hsame b).1]
    exact hbelow.2

/-- A new buffer has no block out of order. -/
theorem linked_init {buf bufSize : Nat} (blockSet : Nat → RbbBlk) (blkMaxNum : Nat)
    (hmemory : buf + bufSize < 0x100000000) :
    (rtRbbInit buf bufSize blockSet blkMaxNum).Linked where
  memory := hmemory
  nodup := List.nodup_nil
  used b hb := by cases hb
  within b hb := by cases hb
  wrapped := .of_pairwise .nil

/-- A change of status among those of blocks in use. -/
theorem Linked.setStatus {status : RbbStatus} (h : rbb.Linked) (b : Nat)
    (hstatus : status ≠ .unused) : (rbb.setStatus b status).Linked := by
  refine h.congr rfl rfl rfl ?_ (List.Sublist.refl _) ?_
  · intro c
    rw [setStatus_blkSet]
    exact ⟨rfl, rfl⟩
  · intro c hc
    rw [setStatus_blkSet]
    dsimp only
    split
    · exact hstatus
    · exact (h.used c hc).2

/-- Blocks may be taken out wherever they are. -/
theorem Linked.leave (h : rbb.Linked) (status : RbbStatus) (blocks : List Nat) :
    (blocks.foldl (leave status) rbb).Linked := by
  obtain ⟨hset, hlist, hbuf, hbufSize, hmax⟩ := foldl_leave status rbb blocks
  refine h.congr hbuf hbufSize hmax ?_ (hlist ▸ List.diff_sublist _ _) ?_
  · intro c
    rw [hset]
    exact ⟨rfl, rfl⟩
  · intro c hc
    rw [hlist, h.nodup.mem_sdiff_iff] at hc
    rw [hset]
    simp only [hc.2, if_false]
    exact (h.used c hc.1).2

/-! ### An allocation -/

/-- Where a block is placed: alone, behind the last one, at the begin, or between the last and the
first one. -/
inductive PlacedAt (rbb : Rbb) (blkSize buf : Nat) : Prop
  | alone : rbb.blkList = [] → buf = rbb.buf → PlacedAt rbb blkSize buf
  | behind {head tail : Nat} : rbb.blkList.head? = some head → rbb.blkList.getLast? = some tail →
      (rbb.blkSet head).buf ≤ (rbb.blkSet tail).buf →
      buf = (rbb.blkSet tail).buf + (rbb.blkSet tail).size →
      buf + blkSize ≤ rbb.buf + rbb.bufSize → PlacedAt rbb blkSize buf
  | begin {head tail : Nat} : rbb.blkList.head? = some head → rbb.blkList.getLast? = some tail →
      (rbb.blkSet head).buf ≤ (rbb.blkSet tail).buf → buf = rbb.buf →
      rbb.buf + rbb.bufSize < (rbb.blkSet tail).buf + (rbb.blkSet tail).size + blkSize →
      buf + blkSize ≤ (rbb.blkSet head).buf → PlacedAt rbb blkSize buf
  | between {head tail : Nat} : rbb.blkList.head? = some head → rbb.blkList.getLast? = some tail →
      rbb.Below tail head → buf = (rbb.blkSet tail).buf + (rbb.blkSet tail).size →
      buf + blkSize ≤ (rbb.blkSet head).buf → PlacedAt rbb blkSize buf

variable {buf blkSize new : Nat}

/-- The place of a block in a list that is linked; nothing in it is computed past an end. -/
theorem Linked.placed (h : rbb.Linked) (hplace : rbb.place blkSize = some buf) :
    rbb.PlacedAt blkSize buf := by
  have hmemory := h.memory
  unfold place at hplace
  cases hhead : rbb.blkList.head? with
  | none =>
    rw [hhead] at hplace
    cases hplace
    exact .alone (List.head?_eq_none_iff.mp hhead) rfl
  | some head =>
    cases htail : rbb.blkList.getLast? with
    | none =>
      rw [List.getLast?_eq_none_iff] at htail
      rw [htail] at hhead
      cases hhead
    | some tail =>
      obtain ⟨hb, he⟩ := h.within head (List.mem_of_head? hhead)
      obtain ⟨hb', he'⟩ := h.within tail (List.mem_of_getLast? htail)
      rw [hhead, htail] at hplace
      dsimp only at hplace
      rw [add32_of_lt (show (rbb.blkSet tail).buf + (rbb.blkSet tail).size < 0x100000000 by omega),
        add32_of_lt h.memory, sub32_of_le he' h.memory, sub32_of_le hb (by omega)] at hplace
      split at hplace
      · next hstraight =>
        split at hplace
        · next hfits =>
          cases hplace
          exact .behind hhead htail hstraight rfl (by omega)
        · split at hplace
          · next hfull hfits =>
            cases hplace
            exact .begin hhead htail hstraight rfl (by omega) (by omega)
          · cases hplace
      · next hwrapped =>
        have hne : tail ≠ head := by
          rintro rfl
          exact hwrapped (Nat.le_refl _)
        have hends : rbb.EndsBy tail head := by
          rcases h.wrapped.apart And.left (List.mem_of_getLast? htail) (List.mem_of_head? hhead)
            hne with hends | hends
          · exact hends
          · unfold EndsBy at hends
            omega
        rw [sub32_of_le hends (by omega)] at hplace
        split at hplace
        · next hfits =>
          cases hplace
          have hend : _ ≤ _ := hends
          exact .between hhead htail ⟨hends, by omega⟩ rfl (by omega)
        · cases hplace

/-- A descriptor that is found is not in the list. -/
theorem Linked.found (h : rbb.Linked) (hnew : rbb.findEmptyBlkInSet = some new) :
    new < rbb.blkMaxNum ∧ (rbb.blkSet new).status = .unused ∧ new ∉ rbb.blkList := by
  have hunused : (rbb.blkSet new).status = .unused := of_decide_eq_true (List.find?_some hnew :)
  refine ⟨List.mem_range.mp (List.mem_of_find?_eq_some hnew), hunused, ?_⟩
  intro hmem
  exact (h.used new hmem).2 hunused

/-- A block that is placed lies in the buffer. -/
theorem PlacedAt.within (hplaced : rbb.PlacedAt blkSize buf) (h : rbb.Linked)
    (hnew : rbb.findEmptyBlkInSet = some new)
    (hfits : rbb.blkList = [] → rbb.findEmptyBlkInSet = none ∨ blkSize ≤ rbb.bufSize) :
    rbb.buf ≤ buf ∧ buf + blkSize ≤ rbb.buf + rbb.bufSize := by
  cases hplaced with
  | alone hempty hbuf =>
    rcases hfits hempty with hnone | hle
    · rw [hnew] at hnone
      cases hnone
    · omega
  | behind _ htail _ hbuf hend =>
    obtain ⟨hbegin, -⟩ := h.within _ (List.mem_of_getLast? htail)
    omega
  | begin hhead _ _ hbuf _ hend =>
    obtain ⟨-, hheadend⟩ := h.within _ (List.mem_of_head? hhead)
    omega
  | between hhead htail _ hbuf hend =>
    obtain ⟨hbegin, -⟩ := h.within _ (List.mem_of_getLast? htail)
    obtain ⟨-, hheadend⟩ := h.within _ (List.mem_of_head? hhead)
    omega

/-- The list with a block that is placed. -/
theorem PlacedAt.wrapped (hplaced : rbb.PlacedAt blkSize buf) (h : rbb.Linked)
    (hnotin : new ∉ rbb.blkList) (hfits : rbb.AllocFits blkSize) :
    Wrapped (rbb.append new buf blkSize).EndsBy (rbb.append new buf blkSize).Below
      (rbb.blkList ++ [new]) := by
  have hself : (rbb.append new buf blkSize).blkSet new = ⟨.inited, blkSize, buf⟩ :=
    append_blkSet_self
  have hold {c : Nat} (hc : c ∈ rbb.blkList) :
      (rbb.append new buf blkSize).blkSet c = rbb.blkSet c :=
    append_blkSet_other fun hcn => hnotin (hcn ▸ hc)
  have hwrapped : Wrapped (rbb.append new buf blkSize).EndsBy (rbb.append new buf blkSize).Below
      rbb.blkList := by
    apply h.wrapped.congr
    · intro a ha b hb hab
      rwa [EndsBy, hold ha, hold hb]
    · intro a ha b hb hab
      rwa [Below, EndsBy, hold ha, hold hb]
  cases hplaced with
  | alone hempty _ =>
    rw [hempty]
    exact .of_pairwise (List.pairwise_singleton _ _)
  | behind hhead htail hstraight hbuf _ =>
    have hhead' := List.mem_of_head? hhead
    have htail' := List.mem_of_getLast? htail
    have hsorted := hwrapped.pairwise hhead htail (by
      rw [Below, hold hhead', hold htail']
      omega)
    refine .append_behind EndsBy.trans hsorted htail ?_
    rw [EndsBy, hself, hold htail']
    exact Nat.le_of_eq hbuf.symm
  | begin hhead htail hstraight hbuf hfull hend =>
    have hhead' := List.mem_of_head? hhead
    have htail' := List.mem_of_getLast? htail
    have htailend := (h.within _ htail').2
    have hsorted := hwrapped.pairwise hhead htail (by
      rw [Below, hold hhead', hold htail']
      omega)
    refine .append_begin Below.trans_endsBy hsorted hhead ?_
    rw [Below, EndsBy, hself, hold hhead']
    exact ⟨hend, show buf < _ by omega⟩
  | between hhead htail hbelow hbuf hend =>
    have hhead' := List.mem_of_head? hhead
    have htail' := List.mem_of_getLast? htail
    have hgap := hfits.2
    rw [hhead, htail] at hgap
    refine .append_between Below.trans_endsBy EndsBy.trans Below.asymm hwrapped hhead htail ?_ ?_ ?_
    · rwa [Below, EndsBy, hold hhead', hold htail']
    · rw [EndsBy, hself, hold htail']
      exact Nat.le_of_eq hbuf.symm
    · rw [Below, EndsBy, hself, hold hhead']
      refine ⟨hend, show buf < _ from ?_⟩
      obtain ⟨-, hlt⟩ := hbelow
      by_cases hzero : blkSize = 0
      · have := hgap hzero _ rfl _ rfl
        omega
      · omega

/-- The new block extends the order. -/
theorem Linked.append (h : rbb.Linked) (hnew : rbb.findEmptyBlkInSet = some new)
    (hplace : rbb.place blkSize = some buf) (hfits : rbb.AllocFits blkSize) :
    (rbb.append new buf blkSize).Linked := by
  obtain ⟨hlt, -, hnotin⟩ := h.found hnew
  have hplaced := h.placed hplace
  have hself : (rbb.append new buf blkSize).blkSet new = ⟨.inited, blkSize, buf⟩ :=
    append_blkSet_self
  have hold {c : Nat} (hc : c ∈ rbb.blkList) :
      (rbb.append new buf blkSize).blkSet c = rbb.blkSet c :=
    append_blkSet_other fun hcn => hnotin (hcn ▸ hc)
  constructor
  case memory => exact h.memory
  case nodup =>
    exact (List.perm_append_singleton new rbb.blkList).nodup_iff.mpr
      (List.nodup_cons.mpr ⟨hnotin, h.nodup⟩)
  case used =>
    intro c hc
    rcases List.mem_append.mp hc with hc | hc
    · rw [hold hc]
      exact h.used c hc
    · obtain rfl := List.mem_singleton.mp hc
      rw [hself]
      exact ⟨hlt, show RbbStatus.inited ≠ .unused by decide⟩
  case within =>
    intro c hc
    rcases List.mem_append.mp hc with hc | hc
    · rw [Within, hold hc]
      exact h.within c hc
    · obtain rfl := List.mem_singleton.mp hc
      rw [Within, hself]
      exact hplaced.within h hnew hfits.1
  case wrapped => exact hplaced.wrapped h hnotin hfits

/-- The outcome of an allocation: the ring as it was, or with a new block that was placed. -/
theorem alloc_cases (rbb : Rbb) (blkSize : Nat) :
    rtRbbBlkAlloc rbb blkSize = (rbb, none) ∨
      ∃ new buf, rbb.findEmptyBlkInSet = some new ∧ rbb.place blkSize = some buf ∧
        rtRbbBlkAlloc rbb blkSize = (rbb.append new buf blkSize, some new) := by
  unfold rtRbbBlkAlloc
  cases hnew : rbb.findEmptyBlkInSet with
  | none => exact .inl rfl
  | some new =>
    dsimp only
    split
    · cases hplace : rbb.place blkSize with
      | none => exact .inl rfl
      | some buf =>
        right
        exact ⟨new, buf, rfl, rfl, rfl⟩
    · exact .inl rfl

/-- `rt_rbb_blk_alloc` keeps the order. -/
theorem Linked.alloc (h : rbb.Linked) (hfits : rbb.AllocFits blkSize) :
    (rtRbbBlkAlloc rbb blkSize).1.Linked := by
  rcases alloc_cases rbb blkSize with hnone | ⟨new, buf, hnew, hplace, hsome⟩
  · rw [hnone]
    exact h
  · rw [hsome]
    exact h.append hnew hplace hfits

/-! ## What a queue needs -/

/-- Blocks that fill the memory from `start` on, one behind the other. -/
def Contiguous (rbb : Rbb) : Nat → List Nat → Prop
  | _, [] => True
  | start, block :: blocks =>
    (rbb.blkSet block).buf = start ∧ rbb.Contiguous (start + (rbb.blkSet block).size) blocks

/-- What the blocks behind a picked one need: one that was put, does not lie before it and is within
the limit has the next descriptor, and begins where it ends. -/
def RunFits (rbb : Rbb) (queueDataLen : Nat) : Nat → Nat → List Nat → Prop
  | _, _, [] => True
  | last, total, block :: nodes =>
    (rbb.blkSet block).status = .put → (rbb.blkSet last).buf ≤ (rbb.blkSet block).buf →
      total + (rbb.blkSet block).size ≤ queueDataLen →
        (block = last + 1 ∧
          (rbb.blkSet block).buf = (rbb.blkSet last).buf + (rbb.blkSet last).size) ∧
        rbb.RunFits queueDataLen block (total + (rbb.blkSet block).size) nodes

/-- What `rt_rbb_blk_queue_get` needs: the first block that was put is within the limit, and those
behind it are one run of descriptors and of memory. -/
def QueueFits (rbb : Rbb) (queueDataLen : Nat) : List Nat → Prop
  | [] => True
  | block :: nodes =>
    if (rbb.blkSet block).status = .put then
      (rbb.blkSet block).size ≤ queueDataLen ∧
        rbb.RunFits queueDataLen block (rbb.blkSet block).size nodes
    else rbb.QueueFits queueDataLen nodes

instance decidableRunFits (rbb : Rbb) (queueDataLen : Nat) : ∀ (last total : Nat)
    (nodes : List Nat), Decidable (rbb.RunFits queueDataLen last total nodes)
  | _, _, [] => isTrue trivial
  | _, total, block :: nodes =>
    have := decidableRunFits rbb queueDataLen block (total + (rbb.blkSet block).size) nodes
    inferInstanceAs (Decidable (_ → _ → _ → (_ ∧ _) ∧
      rbb.RunFits queueDataLen block (total + (rbb.blkSet block).size) nodes))

instance decidableQueueFits (rbb : Rbb) (queueDataLen : Nat) : ∀ nodes : List Nat,
    Decidable (rbb.QueueFits queueDataLen nodes)
  | [] => isTrue trivial
  | block :: nodes =>
    have := decidableQueueFits rbb queueDataLen nodes
    inferInstanceAs (Decidable (if (rbb.blkSet block).status = .put then
      (rbb.blkSet block).size ≤ queueDataLen ∧
        rbb.RunFits queueDataLen block (rbb.blkSet block).size nodes
    else rbb.QueueFits queueDataLen nodes))

/-- The blocks behind a picked one, and the sum of all sizes, which does not wrap around. -/
theorem Linked.picked_some (h : rbb.Linked) (hnodes : ∀ b ∈ nodes, b ∈ rbb.blkList)
    (hlast : last ∈ rbb.blkList) (hnodup : (last :: nodes).Nodup)
    (hfits : rbb.RunFits queueDataLen last total nodes)
    (htotal : total ≤ (rbb.blkSet last).buf + (rbb.blkSet last).size)
    (hlimit : total ≤ queueDataLen) :
    (∃ count, rbb.picked queueDataLen (some last) total nodes = List.range' (last + 1) count) ∧
      rbb.Contiguous ((rbb.blkSet last).buf + (rbb.blkSet last).size)
        (rbb.picked queueDataLen (some last) total nodes) ∧
      rbb.sizeSum total (rbb.picked queueDataLen (some last) total nodes) ≤ queueDataLen ∧
      rbb.sizeSum total (rbb.picked queueDataLen (some last) total nodes) =
        total + ((rbb.picked queueDataLen (some last) total nodes).map
          fun b => (rbb.blkSet b).size).sum := by
  induction nodes generalizing last total with
  | nil => exact ⟨⟨0, rfl⟩, trivial, hlimit, rfl⟩
  | cons block nodes ih =>
    obtain ⟨hnotin, hnodup'⟩ := List.nodup_cons.mp hnodup
    have hblock := hnodes block List.mem_cons_self
    have hne : last ≠ block := fun he => hnotin (he ▸ List.mem_cons_self)
    unfold picked
    split
    · exact ⟨⟨0, rfl⟩, trivial, hlimit, rfl⟩
    · next hbreak =>
      rw [not_or, not_or, not_not, Nat.not_lt, Nat.not_lt] at hbreak
      obtain ⟨hput, hbuf, hadd⟩ := hbreak
      have hsum : total + (rbb.blkSet block).size < 0x100000000 := by
        have hmemory := h.memory
        obtain ⟨-, hend⟩ := h.within block hblock
        obtain ⟨-, hend'⟩ := h.within last hlast
        -- the block lies behind the last one, or it is empty
        rcases h.wrapped.apart And.left hlast hblock hne with hends | hends
        · unfold EndsBy at hends
          omega
        · unfold EndsBy at hends
          omega
      rw [add32_of_lt hsum] at hadd ⊢
      obtain ⟨⟨hnext, hadjacent⟩, hrest⟩ := hfits hput hbuf hadd
      obtain ⟨⟨count, hcount⟩, hcontiguous, hle, hsizes⟩ := ih
        (fun b hb => hnodes b (List.mem_cons_of_mem _ hb)) hblock hnodup' hrest (by omega) hadd
      refine ⟨⟨count + 1, ?_⟩, ⟨hadjacent, ?_⟩, ?_, ?_⟩
      · rw [hcount, hnext, List.range'_succ]
      · rw [← hadjacent]
        exact hcontiguous
      · simp only [sizeSum, List.foldl_cons, add32_of_lt hsum] at hle ⊢
        exact hle
      · simp only [sizeSum, List.foldl_cons, add32_of_lt hsum] at hsizes ⊢
        rw [hsizes, List.map_cons, List.sum_cons, Nat.add_assoc]

/-- The blocks that the loop takes under `QueueFits`: those of consecutive descriptors, one behind
the other in memory, within the limit. -/
theorem Linked.picked_none (h : rbb.Linked) (hnodes : ∀ b ∈ nodes, b ∈ rbb.blkList)
    (hnodup : nodes.Nodup) (hfits : rbb.QueueFits queueDataLen nodes) :
    rbb.picked queueDataLen none 0 nodes = [] ∨
      ∃ first count, rbb.picked queueDataLen none 0 nodes = List.range' first (count + 1) ∧
        rbb.Contiguous (rbb.blkSet first).buf (rbb.picked queueDataLen none 0 nodes) ∧
        rbb.sizeSum 0 (rbb.picked queueDataLen none 0 nodes) ≤ queueDataLen ∧
        rbb.sizeSum 0 (rbb.picked queueDataLen none 0 nodes) =
          ((rbb.picked queueDataLen none 0 nodes).map fun b => (rbb.blkSet b).size).sum := by
  induction nodes with
  | nil => exact .inl rfl
  | cons block nodes ih =>
    have hrest : ∀ b ∈ nodes, b ∈ rbb.blkList := fun b hb => hnodes b (List.mem_cons_of_mem _ hb)
    unfold QueueFits at hfits
    unfold picked
    split
    · next hput =>
      rw [if_pos hput] at hfits
      have hblock := hnodes block List.mem_cons_self
      have hmemory := h.memory
      obtain ⟨-, hend⟩ := h.within block hblock
      have hzero : add32 0 (rbb.blkSet block).size = (rbb.blkSet block).size := by
        rw [add32_of_lt (by omega), Nat.zero_add]
      rw [hzero]
      obtain ⟨⟨count, hcount⟩, hcontiguous, hle, hsizes⟩ :=
        h.picked_some hrest hblock hnodup hfits.2 (Nat.le_add_left _ _) hfits.1
      right
      refine ⟨block, count, ?_, ⟨rfl, hcontiguous⟩, ?_, ?_⟩
      · rw [hcount, List.range'_succ]
      · simp only [sizeSum, List.foldl_cons, hzero] at hle ⊢
        exact hle
      · simp only [sizeSum, List.foldl_cons, hzero] at hsizes ⊢
        rw [hsizes, List.map_cons, List.sum_cons]
    · next hother =>
      rw [if_neg hother] at hfits
      exact ih hrest (List.nodup_cons.mp hnodup).2 hfits

end Rbb

end RtVcom.Driver

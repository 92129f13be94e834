import RtVcom.Driver.RingBlockRun

/-!
# Block queues in use

What the users of `rt_rbb_blk_queue_get` rely on: the blocks of a queue fill the memory from its
begin on, within the limit, nobody else gets a byte of them, and `rt_rbb_blk_queue_free` gives back
exactly these. The blocks of a queue are no longer in the list of the ring, from which
`rt_rbb_blk_alloc` infers where there is room, so that a block may be placed on top of them.

`SafeCall` is what this needs of the calls, each in the state it is made in: allocations that go on
where no block of a queue is, no free of a block of a queue, and queues of blocks that are one run
of descriptors and of memory. `RbbSystem.Safe` is kept by all such calls.
-/

namespace RtVcom.Driver

open RtVcom.Lib

/-! ## The condition and the invariant -/

/-- Where an allocation goes on: behind the last block, or at the begin when the list is empty or
the request does not fit between the last block of a straight list and the end of the buffer. -/
def Rbb.leaveOff (rbb : Rbb) (blkSize : Nat) : Nat :=
  match rbb.blkList.head?, rbb.blkList.getLast? with
  | some head, some tail =>
    let behind := (rbb.blkSet tail).buf + (rbb.blkSet tail).size
    if (rbb.blkSet head).buf ≤ (rbb.blkSet tail).buf ∧ rbb.buf + rbb.bufSize < behind + blkSize then
      rbb.buf
    else behind
  | _, _ => rbb.buf

instance (rbb : Rbb) (a b : Nat) : Decidable (rbb.EndsBy a b) :=
  inferInstanceAs (Decidable (_ ≤ _))

/-- The bytes from `start` on hold none of a block. -/
def Rbb.ClearOf (rbb : Rbb) (start blkSize block : Nat) : Prop :=
  (rbb.blkSet block).buf + (rbb.blkSet block).size ≤ start ∨
    start + blkSize ≤ (rbb.blkSet block).buf

/-- The blocks of all queues in use. -/
def RbbSystem.outstanding (s : RbbSystem) : List Nat := s.live.flatMap BlkQueueUse.members

/-- What queues in use need. An allocation fits, and finds no block of theirs in the bytes where it
goes on. No block of theirs is freed by itself. A queue is obtained where the blocks that were put
are one run. -/
def SafeCall (s : RbbSystem) : RbbCall → Prop
  | .alloc blkSize =>
    s.rbb.AllocFits blkSize ∧
      (s.rbb.place blkSize = none ∨
        ∀ block ∈ s.outstanding, s.rbb.ClearOf (s.rbb.leaveOff blkSize) blkSize block)
  | .put _ => True
  | .get => True
  | .free block => block ∉ s.outstanding
  | .queueGet queueDataLen => s.rbb.QueueFits queueDataLen s.rbb.blkList
  | .queueFree _ => True

instance (rbb : Rbb) (start blkSize block : Nat) : Decidable (rbb.ClearOf start blkSize block) :=
  inferInstanceAs (Decidable (_ ∨ _))

instance : DecidableRel SafeCall := fun s call =>
  match call with
  | .alloc blkSize => inferInstanceAs (Decidable (s.rbb.AllocFits blkSize ∧
      (s.rbb.place blkSize = none ∨ ∀ block ∈ s.outstanding,
        s.rbb.ClearOf (s.rbb.leaveOff blkSize) blkSize block)))
  | .put _ => isTrue trivial
  | .get => isTrue trivial
  | .free block => inferInstanceAs (Decidable (block ∉ s.outstanding))
  | .queueGet queueDataLen =>
    inferInstanceAs (Decidable (s.rbb.QueueFits queueDataLen s.rbb.blkList))
  | .queueFree _ => isTrue trivial

/-- A queue stands for its blocks: they have the descriptors from the first one on, fill the memory
from its begin on, and are within the limit. -/
structure Rbb.Holds (rbb : Rbb) (use : BlkQueueUse) : Prop where
  members : use.members = List.range' use.queue.blocks use.queue.blkNum
  some : 0 < use.queue.blkNum
  contiguous : rbb.Contiguous (rtRbbBlkQueueBuf rbb use.queue) use.members
  len : rtRbbBlkQueueLen rbb use.queue = (use.members.map fun b => (rbb.blkSet b).size).sum
  limit : rtRbbBlkQueueLen rbb use.queue ≤ use.limit

/-- The ring and its queues: the blocks in use are those of the list and those of the queues, each
in one place and apart from the others. -/
structure RbbSystem.Safe (s : RbbSystem) : Prop where
  linked : s.rbb.Linked
  nodup : (s.rbb.blkList ++ s.outstanding).Nodup
  used : ∀ b, b ∈ s.rbb.blkList ++ s.outstanding ↔
    b < s.rbb.blkMaxNum ∧ (s.rbb.blkSet b).status ≠ .unused
  apart : ∀ a ∈ s.rbb.blkList ++ s.outstanding, ∀ b ∈ s.rbb.blkList ++ s.outstanding, a ≠ b →
    s.rbb.EndsBy a b ∨ s.rbb.EndsBy b a
  holds : ∀ use ∈ s.live, s.rbb.Holds use

namespace Rbb

variable {rbb rbb' : Rbb} {use : BlkQueueUse} {buf blkSize : Nat}

/-- Contiguity is a matter of the places and sizes. -/
theorem Contiguous.congr {start : Nat} {blocks : List Nat}
    (hsame : ∀ b ∈ blocks, (rbb'.blkSet b).buf = (rbb.blkSet b).buf ∧
      (rbb'.blkSet b).size = (rbb.blkSet b).size)
    (h : rbb.Contiguous start blocks) : rbb'.Contiguous start blocks := by
  induction blocks generalizing start with
  | nil => trivial
  | cons block blocks ih =>
    obtain ⟨hbuf, hsize⟩ := hsame block List.mem_cons_self
    obtain ⟨hstart, hrest⟩ := h
    refine ⟨hbuf.trans hstart, ?_⟩
    rw [hsize]
    exact ih (fun b hb => hsame b (List.mem_cons_of_mem _ hb)) hrest

theorem sizeSum_congr {blocks : List Nat} (total : Nat)
    (hsame : ∀ b ∈ blocks, (rbb'.blkSet b).size = (rbb.blkSet b).size) :
    rbb'.sizeSum total blocks = rbb.sizeSum total blocks := by
  induction blocks generalizing total with
  | nil => rfl
  | cons block blocks ih =>
    simp only [sizeSum, List.foldl_cons] at ih ⊢
    rw [hsame block List.mem_cons_self]
    exact ih _ fun b hb => hsame b (List.mem_cons_of_mem _ hb)

/-- A queue whose blocks keep their place and size stands for them as before. -/
theorem Holds.congr (h : rbb.Holds use)
    (hsame : ∀ b ∈ use.members, (rbb'.blkSet b).buf = (rbb.blkSet b).buf ∧
      (rbb'.blkSet b).size = (rbb.blkSet b).size) : rbb'.Holds use := by
  have hfirst : use.queue.blocks ∈ use.members := by
    rw [h.members, List.mem_range'_1]
    have := h.some
    omega
  have hlen : rtRbbBlkQueueLen rbb' use.queue = rtRbbBlkQueueLen rbb use.queue :=
    sizeSum_congr 0 fun b hb => (hsame b (h.members ▸ hb)).2
  refine ⟨h.members, h.some, ?_, ?_, hlen ▸ h.limit⟩
  · rw [rtRbbBlkQueueBuf, (hsame _ hfirst).1]
    exact h.contiguous.congr hsame
  · rw [hlen, h.len, List.map_congr_left fun b hb => (hsame b hb).2]

/-- A block is placed where the list leaves off. -/
theorem Linked.place_leaveOff (h : rbb.Linked) (hplace : rbb.place blkSize = some buf) :
    buf = rbb.leaveOff blkSize := by
  unfold leaveOff
  cases h.placed hplace with
  | alone hempty hbuf =>
    rw [hempty]
    exact hbuf
  | behind hhead htail _ hbuf hend =>
    rw [hhead, htail]
    dsimp only
    rw [if_neg (by omega)]
    exact hbuf
  | begin hhead htail hstraight hbuf hfull _ =>
    rw [hhead, htail]
    dsimp only
    rw [if_pos ⟨hstraight, hfull⟩]
    exact hbuf
  | between hhead htail hbelow hbuf _ =>
    obtain ⟨-, hlt⟩ := hbelow
    rw [hhead, htail]
    dsimp only
    rw [if_neg (by omega)]
    exact hbuf

end Rbb

/-! ## The calls -/

/-- Entries that left a list are those that are in it and not in what they left. -/
theorem diff_diff_of_sublist {α : Type} [DecidableEq α] {l m : List α} (hnodup : l.Nodup)
    (hsub : m.Sublist l) : l.diff (l.diff m) = m := by
  have hmem (x : α) : x ∈ l.diff (l.diff m) ↔ x ∈ m := by
    rw [hnodup.mem_sdiff_iff, hnodup.mem_sdiff_iff, not_and, not_not]
    exact ⟨fun h => h.2 h.1, fun h => ⟨hsub.subset h, fun _ => h⟩⟩
  have hperm : (l.diff (l.diff m)).Perm m :=
    (List.perm_ext_iff_of_nodup hnodup.diff (hnodup.sublist hsub)).mpr hmem
  -- both are parts of the list, so that they have the same order
  have hpart : m.Sublist (l.diff (l.diff m)) := by
    rw [hnodup.sdiff_eq_filter]
    have hfilter := hsub.filter (· ∉ l.diff m)
    rwa [List.filter_eq_self.mpr] at hfilter
    intro x hx
    rw [decide_eq_true_eq, hnodup.mem_sdiff_iff, not_and, not_not]
    exact fun _ => hx
  exact (hpart.eq_of_length hperm.length_eq.symm).symm

namespace RbbSystem

variable {s t : RbbSystem}

/-- A block is outstanding when a use that is live holds it. -/
theorem mem_outstanding {b : Nat} : b ∈ s.outstanding ↔ ∃ use ∈ s.live, b ∈ use.members :=
  List.mem_flatMap

/-- A system in which no block moved and no block came into use. -/
theorem Safe.of_same (h : s.Safe) (hlinked : t.rbb.Linked)
    (hsame : ∀ c, (t.rbb.blkSet c).buf = (s.rbb.blkSet c).buf ∧
      (t.rbb.blkSet c).size = (s.rbb.blkSet c).size)
    (hnodup : (t.rbb.blkList ++ t.outstanding).Nodup)
    (hused : ∀ b, b ∈ t.rbb.blkList ++ t.outstanding ↔
      b < t.rbb.blkMaxNum ∧ (t.rbb.blkSet b).status ≠ .unused)
    (hsub : ∀ b ∈ t.rbb.blkList ++ t.outstanding, b ∈ s.rbb.blkList ++ s.outstanding)
    (hholds : ∀ use ∈ t.live, use ∉ s.live → t.rbb.Holds use) : t.Safe where
  linked := hlinked
  nodup := hnodup
  used := hused
  apart a ha b hb hne :=
    (h.apart a (hsub a ha) b (hsub b hb) hne).imp (Rbb.EndsBy.congr hsame) (Rbb.EndsBy.congr hsame)
  holds use huse := by
    by_cases hold : use ∈ s.live
    · exact (h.holds use hold).congr fun b _ => hsame b
    · exact hholds use huse hold

/-- A block in use gets another status among those in use. -/
theorem Safe.setStatus (h : s.Safe) {block : Nat} {status : RbbStatus}
    (hblock : block ∈ s.rbb.blkList ++ s.outstanding) (hstatus : status ≠ .unused) :
    { s with rbb := s.rbb.setStatus block status : RbbSystem }.Safe := by
  refine h.of_same (h.linked.setStatus block hstatus) ?_ h.nodup ?_ (fun _ hb => hb)
    (fun use huse hnot => absurd huse hnot)
  · intro c
    simp only [Rbb.setStatus_blkSet, and_self]
  · intro b
    rw [Rbb.setStatus_blkSet]
    change b ∈ s.rbb.blkList ++ s.outstanding ↔ b < s.rbb.blkMaxNum ∧ _
    by_cases hb : b = block
    · subst hb
      rw [if_pos rfl]
      exact iff_of_true hblock ⟨((h.used b).mp hblock).1, hstatus⟩
    · rw [if_neg hb]
      exact h.used b

/-- A block of the list is freed. -/
theorem Safe.free (h : s.Safe) {block : Nat} (hout : block ∉ s.outstanding) :
    { s with rbb := rtRbbBlkFree s.rbb block : RbbSystem }.Safe := by
  have herase {b : Nat} : b ∈ s.rbb.blkList.erase block ++ s.outstanding ↔
      b ∈ s.rbb.blkList ++ s.outstanding ∧ b ≠ block := by
    rw [List.mem_append, h.linked.nodup.mem_erase_iff, List.mem_append]
    constructor
    · rintro (⟨hne, hb⟩ | hb)
      · exact ⟨.inl hb, hne⟩
      · exact ⟨.inr hb, fun he => hout (he ▸ hb)⟩
    · rintro ⟨hb | hb, hne⟩
      · exact .inl ⟨hne, hb⟩
      · exact .inr hb
  refine h.of_same (h.linked.leave .unused [block]) ?_ ?_ ?_ (fun _ hb => (herase.mp hb).1)
    (fun use huse hnot => absurd huse hnot)
  · intro c
    change ((s.rbb.setStatus block .unused).blkSet c).buf = _ ∧
      ((s.rbb.setStatus block .unused).blkSet c).size = _
    rw [Rbb.setStatus_blkSet]
    exact ⟨rfl, rfl⟩
  · exact h.nodup.sublist (List.erase_sublist.append_right _)
  · intro b
    change b ∈ s.rbb.blkList.erase block ++ s.outstanding ↔
      b < s.rbb.blkMaxNum ∧ ((s.rbb.setStatus block .unused).blkSet b).status ≠ .unused
    rw [herase, Rbb.setStatus_blkSet, h.used]
    by_cases hb : b = block
    · rw [if_pos hb]
      exact iff_of_false (fun hand => hand.2 hb) fun hand => hand.2 rfl
    · rw [if_neg hb]
      exact and_iff_left hb

/-- The outstanding blocks are those of one queue and those of the others. -/
theorem outstanding_perm {use : BlkQueueUse} (hlive : use ∈ s.live) :
    s.outstanding.Perm (use.members ++ (s.live.erase use).flatMap BlkQueueUse.members) :=
  ((List.perm_cons_erase hlive).flatMap_right _).trans (by rw [List.flatMap_cons])

/-- A queue is freed. -/
theorem Safe.queueFree (h : s.Safe) {use : BlkQueueUse} (hlive : use ∈ s.live) :
    { s with
      rbb := rtRbbBlkQueueFree s.rbb use.queue, live := s.live.erase use : RbbSystem }.Safe := by
  obtain ⟨hset, hlist, -, -, hmax⟩ := Rbb.foldl_leave .unused s.rbb use.members
  have hfree : rtRbbBlkQueueFree s.rbb use.queue =
      use.members.foldl (Rbb.leave .unused) s.rbb := by
    rw [(h.holds use hlive).members]
    rfl
  have hperm := outstanding_perm hlive
  have hnodup : (s.rbb.blkList ++ (use.members ++
      (s.live.erase use).flatMap BlkQueueUse.members)).Nodup :=
    ((List.Perm.append_left s.rbb.blkList hperm).nodup_iff).mp h.nodup
  obtain ⟨-, houter, hlistOut⟩ := List.nodup_append.mp hnodup
  obtain ⟨-, -, hmembers⟩ := List.nodup_append.mp houter
  have hrest {b : Nat} : b ∈ s.rbb.blkList.diff use.members ++
      (s.live.erase use).flatMap BlkQueueUse.members ↔
        b ∈ s.rbb.blkList ++ s.outstanding ∧ b ∉ use.members := by
    rw [List.mem_append, h.linked.nodup.mem_sdiff_iff, List.mem_append, hperm.mem_iff,
      List.mem_append]
    constructor
    · rintro (⟨hb, hnot⟩ | hb)
      · exact ⟨.inl hb, hnot⟩
      · exact ⟨.inr (.inr hb), fun hm => hmembers b hm b hb rfl⟩
    · rintro ⟨hb | hb | hb, hnot⟩
      · exact .inl ⟨hb, hnot⟩
      · exact absurd hb hnot
      · exact .inr hb
  refine h.of_same (h.linked.leave .unused _) ?_ ?_ ?_ ?_
    (fun other hother hnot => absurd (List.mem_of_mem_erase hother) hnot)
  · intro c
    change ((rtRbbBlkQueueFree s.rbb use.queue).blkSet c).buf = _ ∧
      ((rtRbbBlkQueueFree s.rbb use.queue).blkSet c).size = _
    rw [hfree, hset]
    exact ⟨rfl, rfl⟩
  · change ((rtRbbBlkQueueFree s.rbb use.queue).blkList ++
      (s.live.erase use).flatMap BlkQueueUse.members).Nodup
    rw [hfree, hlist]
    exact hnodup.sublist ((List.diff_sublist _ _).append (List.sublist_append_right _ _))
  · intro b
    change b ∈ (rtRbbBlkQueueFree s.rbb use.queue).blkList ++
      (s.live.erase use).flatMap BlkQueueUse.members ↔
        b < (rtRbbBlkQueueFree s.rbb use.queue).blkMaxNum ∧
          ((rtRbbBlkQueueFree s.rbb use.queue).blkSet b).status ≠ .unused
    rw [hfree, hlist, hmax, hset, hrest, h.used]
    by_cases hb : b ∈ use.members
    · simp only [hb, not_true_eq_false, and_false, if_true, ne_eq]
    · simp only [hb, not_false_eq_true, and_true, if_false, ne_eq]
  · intro b hb
    change b ∈ (rtRbbBlkQueueFree s.rbb use.queue).blkList ++
      (s.live.erase use).flatMap BlkQueueUse.members at hb
    rw [hfree, hlist, hrest] at hb
    exact hb.1

/-- A queue is obtained. -/
theorem Safe.queued (h : s.Safe) {limit : Nat} (hfits : s.rbb.QueueFits limit s.rbb.blkList) :
    (s.queued limit (rtRbbBlkQueueGet s.rbb limit)).Safe := by
  have hnodup := h.linked.nodup
  have hsub : (s.rbb.taken limit).Sublist s.rbb.blkList := Rbb.picked_sublist none 0 _
  rw [Rbb.queueGet_eq hnodup]
  rcases h.linked.picked_none (fun _ hb => hb) hnodup hfits with
    hnone | ⟨first, count, hrange, hcontiguous, hle, hsum⟩
  · change s.rbb.taken limit = [] at hnone
    rw [hnone]
    exact h
  · change s.rbb.taken limit = _ at hrange
    change s.rbb.Contiguous _ (s.rbb.taken limit) at hcontiguous
    change s.rbb.sizeSum 0 (s.rbb.taken limit) ≤ _ at hle
    change s.rbb.sizeSum 0 (s.rbb.taken limit) = ((s.rbb.taken limit).map _).sum at hsum
    obtain ⟨hset, hlist, -, -, hmax⟩ := Rbb.foldl_leave .get s.rbb (s.rbb.taken limit)
    have hhead : (s.rbb.taken limit).head? = some first := by
      rw [hrange, List.range'_succ, List.head?_cons]
    have hlength : (s.rbb.taken limit).length = count + 1 := by
      rw [hrange, List.length_range']
    have hmembers : s.rbb.blkList.diff
        ((s.rbb.taken limit).foldl (Rbb.leave .get) s.rbb).blkList = s.rbb.taken limit := by
      rw [hlist, diff_diff_of_sublist hnodup hsub]
    simp only [RbbSystem.queued, hhead, Option.map_some, hmembers, hlength]
    have hout : ({ s with
        rbb := (s.rbb.taken limit).foldl (Rbb.leave .get) s.rbb
        live := s.live ++ [⟨⟨first, count + 1⟩, limit, s.rbb.taken limit⟩] } :
          RbbSystem).outstanding = s.outstanding ++ s.rbb.taken limit := by
      simp only [outstanding, List.flatMap_append, List.flatMap_singleton]
    have hmem {b : Nat} : b ∈ s.rbb.blkList.diff (s.rbb.taken limit) ++
        (s.outstanding ++ s.rbb.taken limit) ↔ b ∈ s.rbb.blkList ++ s.outstanding := by
      rw [List.mem_append, hnodup.mem_sdiff_iff, List.mem_append, List.mem_append]
      by_cases hb : b ∈ s.rbb.taken limit
      · simp only [hb, hsub.subset hb, or_true, true_or]
      · simp only [hb, not_false_eq_true, and_true, or_false]
    have hsame (c : Nat) :
        (((s.rbb.taken limit).foldl (Rbb.leave .get) s.rbb).blkSet c).buf = (s.rbb.blkSet c).buf ∧
          (((s.rbb.taken limit).foldl (Rbb.leave .get) s.rbb).blkSet c).size =
            (s.rbb.blkSet c).size := by
      rw [hset]
      exact ⟨rfl, rfl⟩
    refine h.of_same (h.linked.leave .get _) hsame ?_ ?_ ?_ ?_
    · rw [hout]
      dsimp only
      rw [hlist]
      obtain ⟨-, houter, hbetween⟩ := List.nodup_append.mp h.nodup
      refine List.nodup_append.mpr ⟨hnodup.diff, ?_, ?_⟩
      · refine List.nodup_append.mpr ⟨houter, hnodup.sublist hsub, ?_⟩
        intro a ha b hb hab
        exact hbetween b (hsub.subset hb) a ha hab.symm
      · intro a ha b hb hab
        obtain ⟨halist, hanot⟩ := hnodup.mem_sdiff_iff.mp ha
        rcases List.mem_append.mp hb with hb | hb
        · exact hbetween a halist b hb hab
        · exact hanot (hab ▸ hb)
    · intro b
      rw [hout]
      dsimp only
      rw [hlist, hmem, hmax, hset, h.used]
      by_cases hb : b ∈ s.rbb.taken limit
      · have hused := (h.used b).mp (List.mem_append_left _ (hsub.subset hb))
        simp only [hb, if_true]
        exact iff_of_true hused ⟨hused.1, by decide⟩
      · simp only [hb, if_false]
    · intro b hb
      rw [hout] at hb
      dsimp only at hb
      rwa [hlist, hmem] at hb
    · intro use huse hnot
      obtain rfl := List.mem_singleton.mp ((List.mem_append.mp huse).resolve_left hnot)
      have hlen : rtRbbBlkQueueLen s.rbb ⟨first, count + 1⟩ =
          s.rbb.sizeSum 0 (s.rbb.taken limit) := by
        rw [hrange]
        rfl
      have hholds : s.rbb.Holds ⟨⟨first, count + 1⟩, limit, s.rbb.taken limit⟩ :=
        ⟨hrange, Nat.succ_pos count, hcontiguous, hlen.trans hsum, hlen ▸ hle⟩
      exact hholds.congr fun b _ => hsame b

/-- A block is placed clear of the queues. -/
theorem Safe.placed (h : s.Safe) {blkSize new buf : Nat}
    (hnew : s.rbb.findEmptyBlkInSet = some new) (hplace : s.rbb.place blkSize = some buf)
    (hok : SafeCall s (.alloc blkSize)) :
    { s with
      rbb := s.rbb.append new buf blkSize
      allocation := Function.update s.allocation new s.allocations
      allocations := s.allocations + 1 : RbbSystem }.Safe := by
  obtain ⟨hfits, hclear⟩ := hok
  have hlinked := h.linked.append hnew hplace hfits
  obtain ⟨hlt, hunused, hnotin⟩ := h.linked.found hnew
  have hfresh : new ∉ s.rbb.blkList ++ s.outstanding :=
    fun hmem => ((h.used new).mp hmem).2 hunused
  have hself : (s.rbb.append new buf blkSize).blkSet new = ⟨.inited, blkSize, buf⟩ :=
    Rbb.append_blkSet_self
  have hold {c : Nat} (hc : c ∈ s.rbb.blkList ++ s.outstanding) :
      (s.rbb.append new buf blkSize).blkSet c = s.rbb.blkSet c :=
    Rbb.append_blkSet_other fun hcn => hfresh (hcn ▸ hc)
  have hperm : ((s.rbb.blkList ++ [new]) ++ s.outstanding).Perm
      (new :: (s.rbb.blkList ++ s.outstanding)) :=
    (List.perm_append_singleton new s.rbb.blkList).append_right s.outstanding
  have hmem {b : Nat} : b ∈ (s.rbb.blkList ++ [new]) ++ s.outstanding ↔
      b = new ∨ b ∈ s.rbb.blkList ++ s.outstanding := hperm.mem_iff.trans List.mem_cons
  -- the new block and an old one
  have hnewApart {b : Nat} (hb : b ∈ s.rbb.blkList ++ s.outstanding) :
      (s.rbb.append new buf blkSize).EndsBy new b ∨
        (s.rbb.append new buf blkSize).EndsBy b new := by
    rcases List.mem_append.mp hb with hblist | hbout
    · exact hlinked.wrapped.apart And.left
        (List.mem_append_right _ (List.mem_singleton_self new))
        (List.mem_append_left _ hblist) fun he => hfresh (he ▸ hb)
    · have hbytes := (hclear.resolve_left fun hnone => by rw [hplace] at hnone; cases hnone) b hbout
      rw [← h.linked.place_leaveOff hplace] at hbytes
      rw [Rbb.EndsBy, Rbb.EndsBy, hself, hold hb]
      exact hbytes.symm
  constructor
  case linked => exact hlinked
  case nodup => exact hperm.nodup_iff.mpr (List.nodup_cons.mpr ⟨hfresh, h.nodup⟩)
  case used =>
    intro b
    refine hmem.trans ?_
    change _ ↔ b < s.rbb.blkMaxNum ∧ ((s.rbb.append new buf blkSize).blkSet b).status ≠ .unused
    by_cases hb : b = new
    · subst hb
      rw [hself]
      exact iff_of_true (.inl rfl) ⟨hlt, show RbbStatus.inited ≠ .unused by decide⟩
    · rw [Rbb.append_blkSet_other hb, ← h.used b]
      exact or_iff_right hb
  case apart =>
    intro a ha b hb hne
    change (s.rbb.append new buf blkSize).EndsBy a b ∨ (s.rbb.append new buf blkSize).EndsBy b a
    rcases hmem.mp ha with rfl | haold
    · exact hnewApart ((hmem.mp hb).resolve_left (Ne.symm hne))
    · rcases hmem.mp hb with rfl | hbold
      · exact (hnewApart haold).symm
      · rw [Rbb.EndsBy, Rbb.EndsBy, hold haold, hold hbold]
        exact h.apart a haold b hbold hne
  case holds =>
    intro use huse
    refine (h.holds use huse).congr fun b hb => ?_
    have hout : b ∈ s.rbb.blkList ++ s.outstanding :=
      List.mem_append_right _ (mem_outstanding.mpr ⟨use, huse, hb⟩)
    change ((s.rbb.append new buf blkSize).blkSet b).buf = _ ∧
      ((s.rbb.append new buf blkSize).blkSet b).size = _
    rw [hold hout]
    exact ⟨rfl, rfl⟩

/-- One safe call keeps the queues safe. -/
theorem safe_step {call : RbbCall} (h : s.Safe) (hok : SafeCall s call)
    (heffect : RbbEffect s call t) : t.Safe := by
  cases heffect with
  | refused => exact h
  | placed hnew hplace => exact h.placed hnew hplace hok
  | put hlt hinited =>
    exact h.setStatus ((h.used _).mpr ⟨hlt, by rw [hinited]; decide⟩) (by decide)
  | gotNone => exact h
  | got hmem => exact h.setStatus (List.mem_append_left _ hmem) (by decide)
  | freed _ _ => exact h.free hok
  | queued => exact h.queued hok
  | queueFreed hlive => exact h.queueFree hlive

end RbbSystem

/-! ## Runs -/

/-- In every run whose calls are safe, a queue in use stands for the blocks it took: they fill
`rt_rbb_blk_queue_len` bytes from `rt_rbb_blk_queue_buf` on, within its limit, no other block in use
overlaps them, and they are those that `rt_rbb_blk_queue_free` gives back. -/
theorem rbb_queues_safe {buf bufSize : Nat} (blockSet : Nat → RbbBlk) (blkMaxNum : Nat)
    (hmemory : buf + bufSize < 0x100000000) {s : RbbSystem}
    (h : (rbbMachine buf bufSize blockSet blkMaxNum).Reach SafeCall s) {use : BlkQueueUse}
    (huse : use ∈ s.live) :
    s.rbb.Contiguous (rtRbbBlkQueueBuf s.rbb use.queue) use.members ∧
      rtRbbBlkQueueLen s.rbb use.queue = (use.members.map fun b => (s.rbb.blkSet b).size).sum ∧
      rtRbbBlkQueueLen s.rbb use.queue ≤ use.limit ∧
      (∀ b, b < s.rbb.blkMaxNum → (s.rbb.blkSet b).status ≠ .unused → b ∉ use.members →
        ∀ m ∈ use.members, s.rbb.EndsBy b m ∨ s.rbb.EndsBy m b) ∧
      (∀ m ∈ use.members, m < s.rbb.blkMaxNum ∧ (s.rbb.blkSet m).status ≠ .unused) ∧
      ∀ b, ((rtRbbBlkQueueFree s.rbb use.queue).blkSet b).status =
        if b ∈ use.members then .unused else (s.rbb.blkSet b).status := by
  have hsafe : s.Safe := by
    refine h.invariant (P := RbbSystem.Safe) ?_ fun s call t hs hok hstep =>
      RbbSystem.safe_step hs hok (rbbStep_effect hstep)
    have hlinked : (rtRbbInit buf bufSize blockSet blkMaxNum).Linked :=
      Rbb.linked_init blockSet blkMaxNum hmemory
    refine ⟨hlinked, List.nodup_nil, ?_, fun a ha => (by cases ha),
      fun use huse => (by cases huse)⟩
    intro b
    exact (Rbb.sound_init blockSet blkMaxNum hmemory).listed b
  have hholds := hsafe.holds use huse
  have hout {m : Nat} (hm : m ∈ use.members) : m ∈ s.rbb.blkList ++ s.outstanding :=
    List.mem_append_right _ (RbbSystem.mem_outstanding.mpr ⟨use, huse, hm⟩)
  refine ⟨hholds.contiguous, hholds.len, hholds.limit, ?_, ?_, ?_⟩
  · intro b hlt hused hnot m hm
    exact hsafe.apart b ((hsafe.used b).mpr ⟨hlt, hused⟩) m (hout hm) fun he => hnot (he ▸ hm)
  · intro m hm
    exact (hsafe.used m).mp (hout hm)
  · intro b
    rw [RbbSystem.rbb_queueFreed, ← hholds.members, (Rbb.foldl_leave _ _ _).1]

/-- Two blocks of a full ring in a queue. -/
theorem rbb_queues_safe_two :
    ∃ s, smallRing.Reach SafeCall s ∧ ∃ use ∈ s.live, use.members = [0, 1] ∧
      s.rbb.Contiguous (rtRbbBlkQueueBuf s.rbb use.queue) use.members ∧
      rtRbbBlkQueueLen s.rbb use.queue ≤ use.limit := by
  obtain ⟨s, hreach, hlive⟩ := Machine.exists_reach_of_run smallRing SafeCall
    [.alloc 4, .alloc 6, .alloc 6, .put 0, .put 1, .queueGet 12]
    (fun s => s.live = [⟨⟨0, 2⟩, 12, [0, 1]⟩]) (by decide +kernel)
  have huse : (⟨⟨0, 2⟩, 12, [0, 1]⟩ : BlkQueueUse) ∈ s.live := by
    rw [hlive]
    exact List.mem_singleton_self _
  obtain ⟨hcontiguous, -, hlimit, -⟩ :=
    rbb_queues_safe (fun _ => ⟨.unused, 0, 0⟩) 4 (by decide) hreach huse
  exact ⟨s, hreach, _, huse, rfl, hcontiguous, hlimit⟩

/-- The only block of the list goes into a queue and the next one is placed on top of it; a queue of
at most two bytes gets four; and a queue around a block that was freed has the length of that block
and gives it back instead of its own. -/
theorem rbb_queues_unsafe :
    (∃ s, smallRing.Reach Machine.any s ∧ s.live = [⟨⟨0, 1⟩, 16, [0]⟩] ∧
        (s.rbb.blkSet 1).status = .inited ∧ ¬(s.rbb.EndsBy 0 1 ∨ s.rbb.EndsBy 1 0)) ∧
      (∃ s, smallRing.Reach Machine.any s ∧ s.live = [⟨⟨0, 1⟩, 2, [0]⟩] ∧
        rtRbbBlkQueueLen s.rbb ⟨0, 1⟩ = 4) ∧
      ∃ s, smallRing.Reach Machine.any s ∧ s.live = [⟨⟨0, 2⟩, 16, [0, 2]⟩] ∧
        rtRbbBlkQueueLen s.rbb ⟨0, 2⟩ = 9 ∧
        ((s.rbb.blkSet 0).size, (s.rbb.blkSet 2).size) = (4, 6) ∧
        ((rtRbbBlkQueueFree s.rbb ⟨0, 2⟩).blkSet 2).status = .get := by
  refine ⟨?_, ?_, ?_⟩
  · exact Machine.exists_reach_of_run smallRing Machine.any
      [.alloc 4, .put 0, .queueGet 16, .alloc 4]
      (fun s => s.live = [⟨⟨0, 1⟩, 16, [0]⟩] ∧ (s.rbb.blkSet 1).status = .inited ∧
        ¬(s.rbb.EndsBy 0 1 ∨ s.rbb.EndsBy 1 0)) (by decide +kernel)
  · exact Machine.exists_reach_of_run smallRing Machine.any [.alloc 4, .put 0, .queueGet 2]
      (fun s => s.live = [⟨⟨0, 1⟩, 2, [0]⟩] ∧ rtRbbBlkQueueLen s.rbb ⟨0, 1⟩ = 4)
      (by decide +kernel)
  · exact Machine.exists_reach_of_run smallRing Machine.any
      [.alloc 4, .alloc 5, .alloc 6, .put 0, .put 2, .free 1, .queueGet 16]
      (fun s => s.live = [⟨⟨0, 2⟩, 16, [0, 2]⟩] ∧ rtRbbBlkQueueLen s.rbb ⟨0, 2⟩ = 9 ∧
        ((s.rbb.blkSet 0).size, (s.rbb.blkSet 2).size) = (4, 6) ∧
        ((rtRbbBlkQueueFree s.rbb ⟨0, 2⟩).blkSet 2).status = .get) (by decide +kernel)

end RtVcom.Driver

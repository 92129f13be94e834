import Mathlib.Logic.Function.Basic
import RtVcom.Lib.Rotated
import RtVcom.Lib.Word32

/-!
# The ring block buffer

`ringblk_buf.c`: a buffer from which blocks of any size are handed out one behind another, with a
set of descriptors and the list of those in use. A block is allocated, put, got and freed; a free
may take any block out of the list. Pointers and sizes are 32-bit numbers, and the free space is
computed as the source does, modulo 2^32.

Each function is the part of its source that runs with interrupts disabled. `rt_rbb_blk_get` looks
at the list before that, so that its two parts are functions of their own.

`Rbb.Sound` says that the blocks of the list are those in use, inside the buffer and in rotated
order, so that no two of them overlap (`Rbb.Sound.apart`). All operations keep it, for requests that
are not larger than the buffer.
-/

namespace RtVcom.Driver

open RtVcom.Lib

/-! ## The model -/

/-- `enum rt_rbb_status`. -/
inductive RbbStatus
  | unused
  | inited
  | put
  | get
deriving Repr, DecidableEq

/-- `struct rt_rbb_blk`; the list is in `Rbb`. -/
structure RbbBlk where
  status : RbbStatus
  size : Nat
  buf : Nat
deriving Repr, DecidableEq

/-- `struct rt_rbb`; a block is its index in `blk_set`. -/
structure Rbb where
  buf : Nat
  bufSize : Nat
  blkSet : Nat → RbbBlk
  blkMaxNum : Nat
  blkList : List Nat

/-- `rt_rbb_init`. -/
def rtRbbInit (buf bufSize : Nat) (blockSet : Nat → RbbBlk) (blkMaxNum : Nat) : Rbb where
  buf
  bufSize
  blkSet i := if i < blkMaxNum then { blockSet i with status := .unused } else blockSet i
  blkMaxNum
  blkList := []

namespace Rbb

/-- `find_empty_blk_in_set`. -/
def findEmptyBlkInSet (rbb : Rbb) : Option Nat :=
  (List.range rbb.blkMaxNum).find? fun i => (rbb.blkSet i).status = .unused

/-- Where `rt_rbb_blk_alloc` puts a block: behind the last one, at the begin of the buffer, or
nowhere. -/
def place (rbb : Rbb) (blkSize : Nat) : Option Nat :=
  match rbb.blkList.head?, rbb.blkList.getLast? with
  | some head, some tail =>
    let head := rbb.blkSet head
    let tail := rbb.blkSet tail
    let behind := add32 tail.buf tail.size
    if head.buf ≤ tail.buf then
      let empty1 := sub32 (add32 rbb.buf rbb.bufSize) behind
      let empty2 := sub32 head.buf rbb.buf
      if blkSize ≤ empty1 then some behind
      else if blkSize ≤ empty2 then some rbb.buf
      else none
    else
      let empty1 := sub32 head.buf behind
      if blkSize ≤ empty1 then some behind else none
  -- the list is empty
  | _, _ => some rbb.buf

/-- A block that is added to the list. -/
def append (rbb : Rbb) (new buf blkSize : Nat) : Rbb :=
  { rbb with
    blkSet := Function.update rbb.blkSet new { status := .inited, size := blkSize, buf }
    blkList := rbb.blkList ++ [new] }

/-- A block with another status. -/
def setStatus (rbb : Rbb) (block : Nat) (status : RbbStatus) : Rbb :=
  { rbb with blkSet := Function.update rbb.blkSet block { rbb.blkSet block with status } }

end Rbb

/-- `rt_rbb_blk_alloc`, for sizes below 2^24. -/
def rtRbbBlkAlloc (rbb : Rbb) (blkSize : Nat) : Rbb × Option Nat :=
  match rbb.findEmptyBlkInSet with
  | some new =>
    if rbb.blkList.length < rbb.blkMaxNum then
      match rbb.place blkSize with
      | some buf => (rbb.append new buf blkSize, some new)
      | none => (rbb, none)
    else (rbb, none)
  | none => (rbb, none)

/-- `rt_rbb_blk_put`. -/
def rtRbbBlkPut (rbb : Rbb) (block : Nat) : Rbb := rbb.setStatus block .put

/-- The first look of `rt_rbb_blk_get` at the list. -/
def rtRbbIsEmpty (rbb : Rbb) : Bool := rbb.blkList.isEmpty

/-- The critical section of `rt_rbb_blk_get`. -/
def rtRbbBlkGet (rbb : Rbb) : Rbb × Option Nat :=
  match rbb.blkList.find? fun b => (rbb.blkSet b).status = .put with
  | some block => (rbb.setStatus block .get, some block)
  | none => (rbb, none)

/-- `rt_rbb_blk_free`. -/
def rtRbbBlkFree (rbb : Rbb) (block : Nat) : Rbb :=
  { rbb.setStatus block .unused with blkList := rbb.blkList.erase block }

/-! ## Blocks that do not overlap -/

namespace RbbBlk

variable {x y z : RbbBlk} {buf bufSize : Nat} {status : RbbStatus}

/-- One block ends before another one begins. -/
structure Before (x y : RbbBlk) : Prop where
  left : 0 < x.size
  apart : x.buf + x.size ≤ y.buf
  right : 0 < y.size

/-- A block lies in a buffer. -/
structure Inside (x : RbbBlk) (buf bufSize : Nat) : Prop where
  begins : buf ≤ x.buf
  size : 0 < x.size
  ends : x.buf + x.size ≤ buf + bufSize

theorem Before.trans (hxy : x.Before y) (hyz : y.Before z) : x.Before z := by
  obtain ⟨hx, hle, hy⟩ := hxy
  obtain ⟨-, hle', hz⟩ := hyz
  exact ⟨hx, by omega, hz⟩

theorem Before.irrefl (x : RbbBlk) : ¬x.Before x := by
  rintro ⟨hpos, hle, -⟩
  omega

end RbbBlk

namespace Rbb

/-- The blocks of the list are those in use; they lie in the buffer, one behind another, with one
wrap at most. -/
structure Sound (rbb : Rbb) : Prop where
  memory : rbb.buf + rbb.bufSize < 0x100000000
  nodup : rbb.blkList.Nodup
  listed : ∀ b, b ∈ rbb.blkList ↔ b < rbb.blkMaxNum ∧ (rbb.blkSet b).status ≠ .unused
  inside : ∀ b ∈ rbb.blkList, (rbb.blkSet b).Inside rbb.buf rbb.bufSize
  rotated : Rotated (fun a b => (rbb.blkSet a).Before (rbb.blkSet b)) rbb.blkList

variable {rbb : Rbb} {a b c new buf blkSize : Nat} {status : RbbStatus}

/-- Two blocks in use do not overlap. -/
theorem Sound.apart (h : rbb.Sound) (ha : a ∈ rbb.blkList) (hb : b ∈ rbb.blkList) (hne : a ≠ b) :
    (rbb.blkSet a).buf + (rbb.blkSet a).size ≤ (rbb.blkSet b).buf ∨
      (rbb.blkSet b).buf + (rbb.blkSet b).size ≤ (rbb.blkSet a).buf := by
  rcases h.rotated.apart ha hb hne with hab | hba
  · exact .inl hab.apart
  · exact .inr hba.apart

theorem sound_init {bufSize : Nat} (blockSet : Nat → RbbBlk) (blkMaxNum : Nat)
    (hmemory : buf + bufSize < 0x100000000) :
    (rtRbbInit buf bufSize blockSet blkMaxNum).Sound where
  memory := hmemory
  nodup := List.nodup_nil
  listed b := by
    constructor
    · intro hb
      cases hb
    · rintro ⟨hlt, hused⟩
      refine absurd ?_ hused
      change b < blkMaxNum at hlt
      change (if b < blkMaxNum then { blockSet b with status := .unused } else
        blockSet b : RbbBlk).status = .unused
      rw [if_pos hlt]
  inside b hb := by cases hb
  rotated := .of_pairwise .nil

/-! ### A change of status -/

/-- A change of status changes that block only. -/
theorem setStatus_blkSet (rbb : Rbb) (b : Nat) (status : RbbStatus) (c : Nat) :
    (rbb.setStatus b status).blkSet c =
      { rbb.blkSet c with status := if c = b then status else (rbb.blkSet c).status } := by
  unfold setStatus
  by_cases h : c = b
  · subst h
    simp only [Function.update_self, if_true]
  · simp only [Function.update_of_ne h, if_neg h]

/-- A change of status moves no block. -/
theorem before_setStatus (h : (rbb.blkSet a).Before (rbb.blkSet c)) :
    ((rbb.setStatus b status).blkSet a).Before ((rbb.setStatus b status).blkSet c) := by
  rw [setStatus_blkSet, setStatus_blkSet]
  exact ⟨h.left, h.apart, h.right⟩

theorem inside_setStatus (h : (rbb.blkSet a).Inside rbb.buf rbb.bufSize) :
    ((rbb.setStatus b status).blkSet a).Inside rbb.buf rbb.bufSize := by
  rw [setStatus_blkSet]
  exact ⟨h.begins, h.size, h.ends⟩

/-- A block in use may change between the other statuses. -/
theorem Sound.setStatus (h : rbb.Sound) (hb : b ∈ rbb.blkList) (hstatus : status ≠ .unused) :
    (rbb.setStatus b status).Sound where
  memory := h.memory
  nodup := h.nodup
  listed c := by
    change c ∈ rbb.blkList ↔ c < rbb.blkMaxNum ∧ _
    rw [h.listed, setStatus_blkSet]
    by_cases hc : c = b
    · subst hc
      rw [if_pos rfl]
      exact and_congr_right fun _ => ⟨fun _ => hstatus, fun _ => ((h.listed c).mp hb).2⟩
    · rw [if_neg hc]
  inside c hc := inside_setStatus (h.inside c hc)
  rotated := h.rotated.congr fun _ _ _ _ hbefore => before_setStatus hbefore

/-- A block may be taken out wherever it is. -/
theorem Sound.free (h : rbb.Sound) (b : Nat) : (rtRbbBlkFree rbb b).Sound where
  memory := h.memory
  nodup := h.nodup.erase b
  listed c := by
    change c ∈ rbb.blkList.erase b ↔ c < rbb.blkMaxNum ∧
      ((rbb.setStatus b .unused).blkSet c).status ≠ .unused
    rw [h.nodup.mem_erase_iff, h.listed, setStatus_blkSet]
    by_cases hc : c = b
    · rw [if_pos hc]
      constructor
      · rintro ⟨hne, -⟩
        exact absurd hc hne
      · rintro ⟨-, hne⟩
        exact absurd rfl hne
    · rw [if_neg hc]
      exact and_iff_right hc
  inside c hc := inside_setStatus (h.inside c (List.mem_of_mem_erase hc))
  rotated := (h.rotated.sublist List.erase_sublist).congr fun _ _ _ _ hbefore =>
    before_setStatus hbefore

/-! ### An allocation -/

/-- A descriptor that is found is not in the list. -/
theorem Sound.found (h : rbb.Sound) (hnew : rbb.findEmptyBlkInSet = some new) :
    new < rbb.blkMaxNum ∧ (rbb.blkSet new).status = .unused ∧ new ∉ rbb.blkList := by
  have hunused : (rbb.blkSet new).status = .unused := of_decide_eq_true (List.find?_some hnew :)
  refine ⟨List.mem_range.mp (List.mem_of_find?_eq_some hnew), hunused, ?_⟩
  intro hmem
  exact ((h.listed new).mp hmem).2 hunused

theorem append_blkSet_self : (rbb.append new buf blkSize).blkSet new =
    { status := .inited, size := blkSize, buf } := Function.update_self ..

theorem append_blkSet_other (hc : c ≠ new) :
    (rbb.append new buf blkSize).blkSet c = rbb.blkSet c := Function.update_of_ne hc ..

/-- What the three ways to place a block leave: it is behind the last one, at the begin, or between
the last and the first. -/
inductive Placed (rbb : Rbb) (blkSize buf : Nat) : Prop
  | alone : rbb.blkList = [] → buf = rbb.buf → Placed rbb blkSize buf
  | behind {head tail : Nat} : rbb.blkList.head? = some head → rbb.blkList.getLast? = some tail →
      (rbb.blkSet head).buf ≤ (rbb.blkSet tail).buf →
      buf = (rbb.blkSet tail).buf + (rbb.blkSet tail).size →
      buf + blkSize ≤ rbb.buf + rbb.bufSize → Placed rbb blkSize buf
  | begin {head tail : Nat} : rbb.blkList.head? = some head → rbb.blkList.getLast? = some tail →
      (rbb.blkSet head).buf ≤ (rbb.blkSet tail).buf → buf = rbb.buf →
      buf + blkSize ≤ (rbb.blkSet head).buf → Placed rbb blkSize buf
  | between {head tail : Nat} : rbb.blkList.head? = some head → rbb.blkList.getLast? = some tail →
      (rbb.blkSet tail).Before (rbb.blkSet head) →
      buf = (rbb.blkSet tail).buf + (rbb.blkSet tail).size →
      buf + blkSize ≤ (rbb.blkSet head).buf → Placed rbb blkSize buf

/-- A place found lies between the blocks of a sound buffer. -/
theorem Sound.place_cases (h : rbb.Sound) (hplace : rbb.place blkSize = some buf) :
    rbb.Placed blkSize buf := by
  unfold place at hplace
  have hmemory := h.memory
  cases hhead : rbb.blkList.head? with
  | none =>
    rw [hhead] at hplace
    cases hplace
    exact .alone (List.head?_eq_none_iff.mp hhead) rfl
  | some head =>
    cases htail : rbb.blkList.getLast? with
    | none =>
      rw [List.getLast?_eq_none_iff] at htail
      rw [htail] at hhead
      cases hhead
    | some tail =>
      have hheadin := h.inside head (List.mem_of_head? hhead)
      have htailin := h.inside tail (List.mem_of_getLast? htail)
      obtain ⟨hb, hp, he⟩ := hheadin
      obtain ⟨hb', hp', he'⟩ := htailin
      rw [hhead, htail] at hplace
      dsimp only at hplace
      rw [add32_of_lt (show (rbb.blkSet tail).buf + (rbb.blkSet tail).size < 0x100000000 by omega),
        add32_of_lt h.memory, sub32_of_le he' h.memory, sub32_of_le hb (by omega)] at hplace
      split at hplace
      · next hstraight =>
        split at hplace
        · next hfits =>
          cases hplace
          exact .behind hhead htail hstraight rfl (by omega)
        · split at hplace
          · next hfits =>
            cases hplace
            exact .begin hhead htail hstraight rfl (by omega)
          · cases hplace
      · next hwrapped =>
        have hne : tail ≠ head := by
          rintro rfl
          exact hwrapped (Nat.le_refl _)
        have hbefore : (rbb.blkSet tail).Before (rbb.blkSet head) := by
          rcases h.rotated.apart (List.mem_of_getLast? htail) (List.mem_of_head? hhead) hne with
            hbefore | hbehind
          · exact hbefore
          · obtain ⟨-, hle, -⟩ := hbehind
            omega
        rw [sub32_of_le hbefore.apart (by omega)] at hplace
        split at hplace
        · next hfits =>
          cases hplace
          have hapart := hbefore.apart
          exact .between hhead htail hbefore rfl (by omega)
        · cases hplace

/-- A block that is handed out lies in the buffer. -/
theorem Placed.inside (hplaced : rbb.Placed blkSize buf) (h : rbb.Sound) (hpos : 0 < blkSize)
    (hle : blkSize ≤ rbb.bufSize) :
    RbbBlk.Inside ⟨.inited, blkSize, buf⟩ rbb.buf rbb.bufSize := by
  cases hplaced with
  | alone _ hbuf =>
    subst hbuf
    exact ⟨Nat.le_refl _, hpos, Nat.add_le_add_left hle _⟩
  | behind _ htail _ hbuf hend =>
    obtain ⟨hbegin, -, -⟩ := h.inside _ (List.mem_of_getLast? htail)
    exact ⟨show rbb.buf ≤ buf by omega, hpos, hend⟩
  | begin hhead _ _ hbuf hend =>
    obtain ⟨-, -, hheadend⟩ := h.inside _ (List.mem_of_head? hhead)
    exact ⟨show rbb.buf ≤ buf by omega, hpos,
      show buf + blkSize ≤ rbb.buf + rbb.bufSize by omega⟩
  | between hhead htail _ hbuf hend =>
    obtain ⟨hbegin, -, -⟩ := h.inside _ (List.mem_of_getLast? htail)
    obtain ⟨-, -, hheadend⟩ := h.inside _ (List.mem_of_head? hhead)
    exact ⟨show rbb.buf ≤ buf by omega, hpos,
      show buf + blkSize ≤ rbb.buf + rbb.bufSize by omega⟩

/-- A block that is handed out keeps the order. -/
theorem Placed.rotated (hplaced : rbb.Placed blkSize buf) (h : rbb.Sound) (hpos : 0 < blkSize)
    (hnotin : new ∉ rbb.blkList) :
    Rotated (fun a b => ((rbb.append new buf blkSize).blkSet a).Before
      ((rbb.append new buf blkSize).blkSet b)) (rbb.blkList ++ [new]) := by
  have hself : (rbb.append new buf blkSize).blkSet new = ⟨.inited, blkSize, buf⟩ :=
    append_blkSet_self
  have hold {c : Nat} (hc : c ∈ rbb.blkList) :
      (rbb.append new buf blkSize).blkSet c = rbb.blkSet c :=
    append_blkSet_other fun hcn => hnotin (hcn ▸ hc)
  have hrotated : Rotated (fun a b => ((rbb.append new buf blkSize).blkSet a).Before
      ((rbb.append new buf blkSize).blkSet b)) rbb.blkList := by
    apply h.rotated.congr
    intro a ha b hb hbefore
    rwa [hold ha, hold hb]
  cases hplaced with
  | alone hempty _ =>
    rw [hempty]
    exact .of_pairwise (List.pairwise_singleton _ _)
  | behind hhead htail hstraight hbuf _ =>
    have hhead' := List.mem_of_head? hhead
    have htail' := List.mem_of_getLast? htail
    obtain ⟨-, htailpos, -⟩ := h.inside _ htail'
    have hsorted := hrotated.pairwise hhead htail (by
      rw [hold hhead', hold htail']
      rintro ⟨-, hle, -⟩
      omega)
    refine Rotated.append_behind (fun hab hbc => hab.trans hbc) hsorted htail ?_
    rw [hself, hold htail']
    exact ⟨htailpos, Nat.le_of_eq hbuf.symm, hpos⟩
  | begin hhead htail hstraight _ hend =>
    have hhead' := List.mem_of_head? hhead
    have htail' := List.mem_of_getLast? htail
    obtain ⟨-, hheadpos, -⟩ := h.inside _ hhead'
    obtain ⟨-, htailpos, -⟩ := h.inside _ htail'
    have hsorted := hrotated.pairwise hhead htail (by
      rw [hold hhead', hold htail']
      rintro ⟨-, hle, -⟩
      omega)
    refine Rotated.append_begin (fun hab hbc => hab.trans hbc) hsorted hhead ?_
    rw [hself, hold hhead']
    exact ⟨hpos, hend, hheadpos⟩
  | between hhead htail hbefore hbuf hend =>
    have hhead' := List.mem_of_head? hhead
    have htail' := List.mem_of_getLast? htail
    refine Rotated.append_between (fun hab hbc => hab.trans hbc) (fun _ => RbbBlk.Before.irrefl _)
      hrotated hhead htail ?_ ?_ ?_
    · rwa [hold hhead', hold htail']
    · rw [hself, hold htail']
      exact ⟨hbefore.left, Nat.le_of_eq hbuf.symm, hpos⟩
    · rw [hself, hold hhead']
      exact ⟨hpos, hend, hbefore.right⟩

/-- A block that is handed out overlaps no other one. -/
theorem Sound.append (h : rbb.Sound) (hnew : rbb.findEmptyBlkInSet = some new)
    (hplace : rbb.place blkSize = some buf) (hpos : 0 < blkSize) (hle : blkSize ≤ rbb.bufSize) :
    (rbb.append new buf blkSize).Sound := by
  obtain ⟨hlt, hunused, hnotin⟩ := h.found hnew
  have hplaced := h.place_cases hplace
  have hself : (rbb.append new buf blkSize).blkSet new = ⟨.inited, blkSize, buf⟩ :=
    append_blkSet_self
  have hold {c : Nat} (hc : c ∈ rbb.blkList) :
      (rbb.append new buf blkSize).blkSet c = rbb.blkSet c :=
    append_blkSet_other fun hcn => hnotin (hcn ▸ hc)
  constructor
  case memory => exact h.memory
  case nodup =>
    exact (List.perm_append_singleton new rbb.blkList).nodup_iff.mpr
      (List.nodup_cons.mpr ⟨hnotin, h.nodup⟩)
  case listed =>
    intro c
    change c ∈ rbb.blkList ++ [new] ↔ c < rbb.blkMaxNum ∧ _
    rw [List.mem_append, List.mem_singleton]
    by_cases hc : c = new
    · subst hc
      rw [hself]
      exact ⟨fun _ => ⟨hlt, show RbbStatus.inited ≠ .unused by decide⟩, fun _ => .inr rfl⟩
    · rw [append_blkSet_other hc, h.listed]
      exact or_iff_left hc
  case inside =>
    intro c hc
    rcases List.mem_append.mp hc with hc | hc
    · rw [hold hc]
      exact h.inside c hc
    · obtain rfl := List.mem_singleton.mp hc
      rw [hself]
      exact hplaced.inside h hpos hle
  case rotated => exact hplaced.rotated h hpos hnotin

/-- The outcome of an allocation: the ring as it was, or with a new block that is in use. -/
theorem Sound.alloc_cases (h : rbb.Sound) (hpos : 0 < blkSize) (hle : blkSize ≤ rbb.bufSize) :
    rtRbbBlkAlloc rbb blkSize = (rbb, none) ∨
      ∃ new buf, rtRbbBlkAlloc rbb blkSize = (rbb.append new buf blkSize, some new) ∧
        new ∉ rbb.blkList ∧ (rbb.append new buf blkSize).Sound := by
  unfold rtRbbBlkAlloc
  cases hnew : rbb.findEmptyBlkInSet with
  | none => exact .inl rfl
  | some new =>
    dsimp only
    split
    · cases hplace : rbb.place blkSize with
      | none => exact .inl rfl
      | some buf =>
        right
        exact ⟨new, buf, rfl, (h.found hnew).2.2, h.append hnew hplace hpos hle⟩
    · exact .inl rfl

/-! ### A look for a block to get -/

/-- The outcome of the critical section of `rt_rbb_blk_get`. -/
theorem get_cases (rbb : Rbb) :
    (rtRbbBlkGet rbb = (rbb, none) ∧ ∀ b ∈ rbb.blkList, (rbb.blkSet b).status ≠ .put) ∨
      ∃ b ∈ rbb.blkList, (rbb.blkSet b).status = .put ∧
        rtRbbBlkGet rbb = (rbb.setStatus b .get, some b) := by
  unfold rtRbbBlkGet
  cases hfind : rbb.blkList.find? fun b => (rbb.blkSet b).status = .put with
  | none =>
    left
    refine ⟨rfl, ?_⟩
    intro b hb hput
    exact List.find?_eq_none.mp hfind b hb (decide_eq_true hput)
  | some b =>
    right
    exact ⟨b, List.mem_of_find?_eq_some hfind, of_decide_eq_true (List.find?_some hfind :), rfl⟩

end Rbb

end RtVcom.Driver

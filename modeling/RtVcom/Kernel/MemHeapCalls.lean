import RtVcom.Kernel.MemHeapOps

/-!
# The calls of a memory heap

What `rt_memheap_init`, `rt_memheap_alloc` and `rt_memheap_realloc` make of a heap: a sound heap
stays sound, the regions that were handed out keep their place and their size, and a call that
hands out a region says which item it took (`rtMemheapAlloc_spec`, `rtMemheapRealloc_spec`).

Not covered is a request of `rt_memheap_realloc` for which the sum in the test of the item behind
wraps: the item then grows over the end of the pool.
-/

namespace RtVcom.Kernel

open RtVcom.Lib

/-! ## Initialisation -/

/-- The item that a new pool is. -/
def Pool.whole (P : Pool) : MemItem where
  size := P.poolSize - 48
  used := false
  large := by
    have := P.poolSize_large
    omega

/-- The first item leaves room for the last one. -/
theorem Pool.span_whole (P : Pool) : itemSpan [P.whole] + 24 = P.poolSize := by
  have hlarge := P.poolSize_large
  rw [itemSpan_cons, itemSpan_nil]
  unfold whole
  dsimp only
  omega

/-- What `rt_memheap_init` writes. -/
def ItemView.fresh (v : ItemView) (P : Pool) : ItemView :=
  let v := v.put P.freeList rtMemheapMagic P.self 0 0 P.freeList P.freeList
  let v := v.put P.startAddr rtMemheapMagic P.self 0 0 P.startAddr P.startAddr
  let v := (v.set .next P.startAddr P.tail).set .prev P.startAddr P.tail
  let v := v.withFrees (v.frees.insertAfter P.freeList P.startAddr)
  v.put P.tail (rtMemheapMagic ||| rtMemheapUsed) P.self P.startAddr P.startAddr 0 0

section Init

variable (P : Pool)

/-- The three headers of a fresh pool are three. -/
theorem Pool.apart : P.freeList ≠ P.startAddr ∧ P.freeList ≠ P.tail ∧ P.startAddr ≠ P.tail := by
  have hlarge := P.poolSize_large
  have hle := P.poolSize_le
  have hout := P.outside
  unfold Pool.tail
  omega

theorem spread_fresh : Spread (Node P [P.whole] [P.startAddr]) :=
  spread_node P.span_whole fun _ hp => (List.mem_singleton.mp hp).symm ▸ List.mem_cons_self

/-- A fresh pool is laid out as one free item. -/
theorem laid_fresh (v : ItemView) : Laid P (v.fresh P) [P.whole] [P.startAddr] := by
  obtain ⟨hfs, hft, hst⟩ := P.apart
  have hnext : (v.fresh P).items.next =
      Function.update (Function.update _ P.startAddr P.tail) P.tail P.startAddr := rfl
  have hprev : (v.fresh P).items.prev =
      Function.update (Function.update _ P.startAddr P.tail) P.tail P.startAddr := rfl
  refine ⟨P.span_whole, ⟨⟨?_, ?_⟩, ?_, ?_⟩, ⟨⟨?_, ?_⟩, ?_, ?_⟩, ?_, spread_fresh P, ?_, ?_, ?_⟩
  · rw [hnext, Function.update_self]
  · rw [hprev, Function.update_of_ne hst, Function.update_self]
  · rw [hnext, Function.update_of_ne hst, Function.update_self]
  · rw [hprev, Function.update_self]
  · simp [ItemView.frees, ItemView.fresh, ItemView.put, ItemView.withFrees, Links.insertAfter, hft]
  · simp [ItemView.frees, ItemView.fresh, ItemView.put, ItemView.set, ItemView.withFrees,
      Links.insertAfter, hfs, hst]
  · simp [ItemView.frees, ItemView.fresh, ItemView.put, ItemView.set, ItemView.withFrees,
      Links.insertAfter, hfs, hfs.symm, hst]
  · simp [ItemView.frees, ItemView.fresh, ItemView.put, ItemView.set, ItemView.withFrees,
      Links.insertAfter, hfs, hft]
  · exact List.nodup_cons.mpr ⟨fun h => hfs (List.mem_singleton.mp h), List.nodup_singleton _⟩
  · intro x hx
    obtain rfl := List.mem_singleton.mp hx
    exact (Function.update_of_ne hst ..).trans (Function.update_self ..)
  · exact Function.update_self ..
  · intro p hp
    obtain rfl := List.mem_singleton.mp hp
    exact (Function.update_of_ne hst ..).trans (Function.update_self ..)

/-- What `rt_memheap_init` leaves in memory. -/
theorem agree_fresh (m : ByteMemory) :
    Agree (Node P [P.whole] [P.startAddr]) (rtMemheapInit P m).memory
      ((ItemView.fresh (getField m)) P) := by
  have hV := spread_fresh P
  have hlarge := P.poolSize_large
  have hle := P.poolSize_le
  have hout := P.outside
  have hfits := P.fits
  have hlist := P.freeList_fits
  have hself := P.self_lt
  have hstart : P.startAddr < 0x100000000 := by omega
  have hheader : P.freeList < 0x100000000 := by omega
  have htail : P.tail < 0x100000000 := by
    have := P.tail_fits
    omega
  have hfl : Node P [P.whole] [P.startAddr] P.freeList := .inl rfl
  have ht : Node P [P.whole] [P.startAddr] P.tail := .inr (.inl rfl)
  have hs : Node P [P.whole] [P.startAddr] P.startAddr := .inr (.inr (.inl List.mem_cons_self))
  obtain ⟨hfs, hft, hst⟩ := P.apart
  have hend : add32 (add32 P.startAddr (sub32 P.poolSize (2 * rtMemheapSize))) rtMemheapSize =
      P.tail := by
    unfold rtMemheapSize Pool.tail
    rw [sub32_of_le (by omega) (by omega), add32_of_lt (a := P.startAddr) (by omega),
      add32_of_lt (by omega)]
    omega
  have hzero : 0 < 0x100000000 := by decide
  have hmagic : rtMemheapMagic < 0x100000000 := by decide
  have hmagicUsed : rtMemheapMagic ||| rtMemheapUsed < 0x100000000 := by decide
  have h₁ := agree_initItem hV (Agree.refl _ m) hfl hmagic hself hzero hzero hheader hheader
  have h₂ := agree_initItem hV h₁ hs hmagic hself hzero hzero hstart hstart
  have h₃ := h₂.store (f := .next) hV hs htail
  have hnext₃ := (h₃ .next _ hs).trans (Function.update_self ..)
  have h₄ := h₃.store (f := .prev) hV hs htail
  have hfirst : Function.update (Function.update (getField m .nextFree) P.freeList P.freeList)
      P.startAddr P.startAddr P.freeList = P.freeList :=
    (Function.update_of_ne hfs ..).trans (Function.update_self ..)
  have h₅ := agree_pushFree hV h₄ hs hfl
    (Eq.mpr (congrArg (Node P [P.whole] [P.startAddr]) hfirst) hfl)
    fun heq => hfs (heq.trans hfirst).symm
  have hnext₅ := (h₅ .next _ hs).trans (Function.update_self ..)
  have h₆ := agree_initItem hV h₅ ht hmagicUsed hself hstart hstart hzero hzero
  unfold rtMemheapInit
  dsimp only
  rw [hend, hnext₃, hnext₅]
  exact h₆

@[simp]
theorem rtMemheapInit_pool (m : ByteMemory) : (rtMemheapInit P m).pool = P := by
  unfold rtMemheapInit
  dsimp only

theorem rtMemheapInit_availableSize (m : ByteMemory) :
    (rtMemheapInit P m).availableSize = sub32 P.poolSize (2 * rtMemheapSize) := by
  unfold rtMemheapInit
  dsimp only

theorem rtMemheapInit_used (m : ByteMemory) :
    (rtMemheapInit P m).used = sub32 P.poolSize (sub32 P.poolSize (2 * rtMemheapSize)) := by
  rw [MemHeap.used, rtMemheapInit_pool, rtMemheapInit_availableSize]

theorem rtMemheapInit_maxUsedSize (m : ByteMemory) :
    (rtMemheapInit P m).maxUsedSize = (rtMemheapInit P m).used := by
  rw [rtMemheapInit_used]
  unfold rtMemheapInit
  dsimp only

theorem rtMemheapInit_usedRecord (m : ByteMemory) :
    (rtMemheapInit P m).usedRecord = [(rtMemheapInit P m).used] := by
  rw [rtMemheapInit_used]
  unfold rtMemheapInit
  dsimp only

/-- A new pool is one free item. -/
theorem rtMemheapInit_sound (m : ByteMemory) :
    (rtMemheapInit P m).Sound [P.whole] [P.startAddr] := by
  have hlarge := P.poolSize_large
  have hword := MemHeap.Sound.lt_word (rtMemheapInit P m)
  rw [rtMemheapInit_pool] at hword
  have hlaid := (laid_fresh P (getField m)).of_agree (agree_fresh P m) fun _ hp => hp
  have havailable : sub32 P.poolSize (2 * rtMemheapSize) = P.poolSize - 48 :=
    sub32_of_le (by unfold rtMemheapSize; omega) hword
  refine ⟨?_, ?_, List.isChain_singleton _, ?_, ?_, ?_⟩
  · rw [rtMemheapInit_pool]
    exact hlaid
  · rw [rtMemheapInit_pool]
    exact .refl _
  · rw [rtMemheapInit_availableSize, havailable]
    have hone : freeBytes [P.whole] = P.whole.size + freeBytes [] := freeBytes_free rfl
    exact hone.symm
  · rw [rtMemheapInit_usedRecord, rtMemheapInit_maxUsedSize]
    exact List.max?_singleton
  · exact Nat.le_of_eq (rtMemheapInit_maxUsedSize P m).symm

end Init

/-! ## The request -/

theorem le_memheapRequest (n : Nat) : 12 ≤ memheapRequest n := by
  unfold memheapRequest rtMemheapMinialloc
  split <;> omega

/-! ## The search -/

section Search

variable {m : ByteMemory} {a fl size fuel freeSize : Nat} {rest : List Nat}

/-- The loop finds the first item of the free list that is large enough, or comes to its end. -/
theorem memheapSearch_spec (hseg : Segment (ItemView.frees (getField m)) a rest fl)
    (hout : fl ∉ rest) (hfuel : rest.length < fuel) (hsmall : freeSize < size) :
    (∃ p k, memheapSearch fl m size fuel (getField m .nextFree a) freeSize = some (p, k) ∧
        k < size ∧ ∀ q ∈ rest, memitemSize m q < size) ∨
      ∃ p ∈ rest, size ≤ memitemSize m p ∧
        memheapSearch fl m size fuel (getField m .nextFree a) freeSize =
          some (p, memitemSize m p) := by
  induction rest generalizing a fuel freeSize with
  | nil =>
    obtain ⟨fuel, rfl⟩ := Nat.exists_eq_add_one.mpr hfuel
    have hend : getField m .nextFree a = fl := hseg.1
    refine .inl ⟨fl, freeSize, ?_, hsmall, fun q hq => absurd hq List.not_mem_nil⟩
    rw [memheapSearch, hend, if_neg fun h => h.1 rfl]
  | cons x rest ih =>
    obtain ⟨fuel, rfl⟩ := Nat.exists_eq_add_one.mpr (Nat.zero_lt_of_lt hfuel)
    rw [List.length_cons] at hfuel
    have hnext : getField m .nextFree a = x := hseg.1.1
    have hne : x ≠ fl := fun heq => hout (heq ▸ List.mem_cons_self)
    rw [memheapSearch, hnext, if_pos ⟨hne, hsmall⟩]
    dsimp only
    by_cases hlt : memitemSize m x < size
    · have hrest : rest.length < fuel := by omega
      rw [if_pos hlt]
      rcases ih hseg.2 (fun hmem => hout (List.mem_cons_of_mem x hmem)) hrest hlt with
        ⟨p, k, hsearch, hk, hall⟩ | ⟨p, hp, hfit, hsearch⟩
      · refine .inl ⟨p, k, hsearch, hk, fun q hq => ?_⟩
        rcases List.mem_cons.mp hq with rfl | hq
        · exact hlt
        · exact hall q hq
      · exact .inr ⟨p, List.mem_cons_of_mem x hp, hfit, hsearch⟩
    · rw [if_neg hlt]
      obtain ⟨fuel, rfl⟩ := Nat.exists_eq_add_one.mpr (show 0 < fuel by omega)
      refine .inr ⟨x, List.mem_cons_self, Nat.le_of_not_lt hlt, ?_⟩
      rw [memheapSearch, if_neg fun h => hlt h.2]

end Search

/-! ## Splitting items -/

/-- A larger item is two that are joined. -/
theorem exists_join {c : MemItem} {size : Nat} (hmin : 12 ≤ size) (hroom : size + 36 ≤ c.size)
    (used : Bool) : ∃ c' d : MemItem, c = c'.join d ∧ c'.size = size ∧ d.used = used := by
  refine ⟨⟨size, c.used, hmin⟩, ⟨c.size - size - 24, used, by omega⟩, ?_, rfl, rfl⟩
  obtain ⟨k, u, hk⟩ := c
  unfold MemItem.join
  dsimp only at hroom ⊢
  congr 1
  omega

section Calls

variable {h : MemHeap} {items pre post : List MemItem} {frees : List Nat} {c : MemItem}
  {n : Nat} {x : Nat × Nat}

namespace MemHeap

/-- The semaphore is released and nothing was changed. -/
theorem Sound.idle (hs : h.Sound items frees) : h.rtSemRelease.Sound items frees :=
  hs.release rfl rfl (Nat.max_eq_left hs.used_le).symm hs.laid hs.freePerm hs.scattered
    hs.available

/-- The data of an item is written. -/
theorem Sound.write (hs : h.Sound (pre ++ c :: post) frees) {m : ByteMemory}
    (hm : ∀ a, a < h.pool.startAddr + itemSpan pre + 24 ∨
      h.pool.startAddr + itemSpan pre + (24 + c.size) ≤ a → m a = h.memory a) :
    ({ h with memory := m } : MemHeap).Sound (pre ++ c :: post) frees where
  laid := laid_data hs.laid hs.free_isItem hm
  freePerm := hs.freePerm
  scattered := hs.scattered
  available := hs.available
  greatest := hs.greatest
  used_le := hs.used_le

/-- The search from the first free item on. -/
theorem Sound.search (hs : h.Sound items frees) {size : Nat} (hpos : 0 < size) :
    (∃ p k, memheapSearch h.pool.freeList h.memory size h.pool.poolSize
          (getField h.memory .nextFree h.pool.freeList) 0 = some (p, k) ∧ k < size ∧
        ∀ c pre post, items = pre ++ c :: post → c.used = false → c.size < size) ∨
      ∃ pre c post front rest, items = pre ++ c :: post ∧ c.used = false ∧ size ≤ c.size ∧
        frees = front ++ (h.pool.startAddr + itemSpan pre) :: rest ∧
        memheapSearch h.pool.freeList h.memory size h.pool.poolSize
          (getField h.memory .nextFree h.pool.freeList) 0 =
            some (h.pool.startAddr + itemSpan pre, c.size) := by
  have hlength := @length_freeStarts h.pool.startAddr items
  have hfull := hs.laid.full
  have hfuel : frees.length < h.pool.poolSize := by
    rw [hs.freePerm.length_eq]
    omega
  have hout := (List.nodup_cons.mp hs.laid.freeNodup).1
  rcases memheapSearch_spec hs.laid.freeRing hout hfuel hpos with
    ⟨p, k, hsearch, hk, hall⟩ | ⟨p, hp, hfit, hsearch⟩
  · refine .inl ⟨p, k, hsearch, hk, ?_⟩
    rintro c pre post rfl hc
    have hmem := hall (h.pool.startAddr + itemSpan pre) (hs.freePerm.mem_iff.mpr (by
      rw [freeStarts_append, freeStarts_free hc]
      exact List.mem_append_right _ List.mem_cons_self))
    rwa [memitemSize_eq hs.laid] at hmem
  · obtain ⟨pre, c, post, rfl, hc, rfl⟩ := freeStarts_split (hs.freePerm.mem_iff.mp hp)
    obtain ⟨front, rest, hfrees⟩ := List.append_of_mem hp
    rw [memitemSize_eq hs.laid] at hfit hsearch
    exact .inr ⟨pre, c, post, front, rest, rfl, hc, hfit, hfrees, hsearch⟩

/-- The item that was found is taken, and what it has beyond the request may be split off. -/
theorem Sound.take {front rest : List Nat} {size : Nat}
    (hs : h.Sound (pre ++ c :: post) (front ++ (h.pool.startAddr + itemSpan pre) :: rest))
    (hc : c.used = false) (hmin : 12 ≤ size) (hfit : size ≤ c.size) :
    ∃ k items' frees', size ≤ k ∧
      (h.takeItem (h.pool.startAddr + itemSpan pre) c.size size).rtSemRelease.Sound items' frees' ∧
      (h.takeItem (h.pool.startAddr + itemSpan pre) c.size size).pool = h.pool ∧
      (regions h.pool.startAddr items').Perm ((h.pool.startAddr + itemSpan pre + 24, k) ::
        regions h.pool.startAddr (pre ++ c :: post)) := by
  have hspan := hs.span_lt
  rw [itemSpan_append, itemSpan_cons] at hspan
  by_cases hroom : size + 36 ≤ c.size
  · obtain ⟨c', d, rfl, rfl, hd⟩ := exists_join hmin hroom false
    have hc' : c'.used = false := hc
    have hjoin : (c'.join d).used = false := hc
    refine ⟨c'.size, _, _, Nat.le_refl _, sound_takeFront hs hc' hd, ?_, ?_⟩
    · rw [takeItem_front h (by rw [MemItem.join_size] at hspan; omega) (by omega)]
      rw [onMemory_pool, account_pool, onMemory_pool]
    · rw [regions_append, regions_append, regions_used MemItem.mark_used, MemItem.mark_size,
        regions_free hd, regions_free hjoin, join_end]
      exact List.perm_middle
  · refine ⟨c.size, _, _, hfit, sound_takeWhole hs hc (by omega) (by omega), ?_, ?_⟩
    · rw [takeItem_whole h _ (by omega) (by omega)]
      rw [onMemory_pool, onMemory_pool, account_pool]
    · rw [regions_append, regions_append, regions_used MemItem.mark_used, MemItem.mark_size,
        regions_free hc]
      exact List.perm_middle

/-- What became of a request: a region of at least that size is in use and no other one changed, or
nothing changed. -/
def Answers (h : MemHeap) (items items' : List MemItem) (size : Nat) : Option Nat → Prop
  | none => regions h.pool.startAddr items' = regions h.pool.startAddr items ∧
      (size < h.availableSize → ∀ c pre post, items = pre ++ c :: post → c.used = false →
        c.size < size)
  | some p => size < h.availableSize ∧ ∃ k, size ≤ k ∧
      (regions h.pool.startAddr items').Perm ((p, k) :: regions h.pool.startAddr items)

/-- What became of a region that `rt_memheap_realloc` was called for: it has the new size, here or
elsewhere, or nothing changed. -/
def Reanswers (h : MemHeap) (items items' : List MemItem) (x : Nat × Nat) (size : Nat) :
    Option Nat → Prop
  | none => x.2 < size ∧ h.expands (x.1 - 24) x.2 size = false ∧ Answers h items items' size none
  | some p => (x.2 < size → h.expands (x.1 - 24) x.2 size = false → size < h.availableSize) ∧
      ∃ k rest, size ≤ k ∧ (regions h.pool.startAddr items).Perm (x :: rest) ∧
        (regions h.pool.startAddr items').Perm ((p, k) :: rest)

end MemHeap

open MemHeap in
/-- `rt_memheap_alloc` returns. -/
theorem rtMemheapAlloc_spec (hs : h.Sound items frees) (n : Nat) :
    ∃ h' r items' frees', rtMemheapAlloc h n = some (h', r) ∧ h'.Sound items' frees' ∧
      h'.pool = h.pool ∧ Answers h items items' (memheapRequest n) r := by
  have hmin := le_memheapRequest n
  unfold rtMemheapAlloc
  dsimp only
  by_cases hlt : memheapRequest n < h.availableSize
  · rw [if_pos hlt]
    rcases hs.search (show 0 < memheapRequest n by omega) with
      ⟨p, k, hsearch, hk, hall⟩ | ⟨pre, c, post, front, rest, rfl, hc, hfit, rfl, hsearch⟩
    · refine ⟨_, none, items, frees, ?_, hs.idle, rfl, rfl, fun _ => hall⟩
      rw [hsearch, Option.bind_eq_bind, Option.bind_some, if_neg (by omega)]
    · obtain ⟨k, items', frees', hk, hsound, hpool, hperm⟩ := hs.take hc hmin hfit
      have hspan := hs.span_lt
      rw [itemSpan_append, itemSpan_cons] at hspan
      have hptr : add32 (h.pool.startAddr + itemSpan pre) rtMemheapSize =
          h.pool.startAddr + itemSpan pre + 24 := add32_of_lt (by unfold rtMemheapSize; omega)
      refine ⟨_, some _, items', frees', ?_, hsound, hpool, hlt, k, hk, hperm⟩
      rw [hsearch, Option.bind_eq_bind, Option.bind_some, if_pos hfit, hptr]
  · rw [if_neg hlt]
    exact ⟨h, none, items, frees, rfl, hs, rfl, rfl, fun h => absurd h hlt⟩

/-- `rt_memheap_free` of a region in use takes it away, and no other one. -/
theorem rtMemheapFree_spec (hs : h.Sound items frees)
    (hx : x ∈ regions h.pool.startAddr items) :
    ∃ h' items' frees', rtMemheapFree h (some x.1) = some h' ∧ h'.Sound items' frees' ∧
      h'.pool = h.pool ∧
      (regions h.pool.startAddr items).Perm (x :: regions h.pool.startAddr items') := by
  obtain ⟨pre, c, post, rfl, hc, rfl⟩ := regions_split hx
  obtain ⟨h', items', frees', hfree, hsound, hpool, hregions⟩ := MemHeap.sound_free hs hc
  refine ⟨h', items', frees', hfree, hsound, hpool, ?_⟩
  rw [hregions, regions_append, regions_used hc]
  exact List.perm_middle

/-- A size that was rounded is not rounded again. -/
theorem memheapRequest_idem (n : Nat) : memheapRequest (memheapRequest n) = memheapRequest n := by
  have hlt := add32_lt n 3
  have haligned : rtAlign (rtAlign n) = rtAlign n := by
    unfold rtAlign
    rw [add32_of_lt (b := 3) (by omega)]
    omega
  by_cases hsmall : rtAlign n < rtMemheapMinialloc
  · have hrequest : memheapRequest n = rtMemheapMinialloc := if_pos hsmall
    rw [hrequest]
    rfl
  · have hrequest : memheapRequest n = rtAlign n := if_neg hsmall
    rw [hrequest, memheapRequest, haligned, if_neg hsmall]

namespace MemHeap

/-- What the test of the item behind says, where its sum does not wrap. -/
theorem Sound.expands_iff {size : Nat} (hs : h.Sound (pre ++ c :: post) frees)
    (hsize : size + 12 < 0x100000000) :
    h.expands (h.pool.startAddr + itemSpan pre) c.size size = true ↔
      ∃ e rest, post = e :: rest ∧ e.used = false ∧ size + 12 < e.size + c.size := by
  have hspan := hs.span_lt
  unfold expands
  dsimp only
  rw [getField_next hs.laid, isUsed_next hs.laid, Bool.and_eq_true, Bool.not_eq_true',
    decide_eq_true_eq]
  cases post with
  | nil => exact iff_of_false (fun h => absurd h.1.symm Bool.false_ne_true) fun ⟨_, _, h, _⟩ =>
      absurd h.symm (List.cons_ne_nil _ _)
  | cons e rest =>
    rw [itemSpan_append, itemSpan_cons, itemSpan_cons] at hspan
    unfold rtMemheapMinialloc
    rw [memitemSize_second hs.laid, add32_of_lt hsize, add32_of_lt (by omega)]
    constructor
    · exact fun ⟨he, hlt⟩ => ⟨e, rest, rfl, he, hlt⟩
    · rintro ⟨e', rest', heq, he, hlt⟩
      cases heq
      exact ⟨he, hlt⟩

/-- The item grows in place. -/
theorem Sound.grow {size : Nat} (hs : h.Sound (pre ++ c :: post) frees) (hc : c.used = true)
    (hmin : 12 ≤ size) (hgrow : c.size ≤ size) (hsize : size + 12 < 0x100000000)
    (hexpands : h.expands (h.pool.startAddr + itemSpan pre) c.size size = true) :
    ∃ items' frees',
      (h.expand (h.pool.startAddr + itemSpan pre) c.size size).rtSemRelease.Sound items' frees' ∧
      (h.expand (h.pool.startAddr + itemSpan pre) c.size size).pool = h.pool ∧
      ∃ rest, (regions h.pool.startAddr (pre ++ c :: post)).Perm
          ((h.pool.startAddr + itemSpan pre + 24, c.size) :: rest) ∧
        (regions h.pool.startAddr items').Perm
          ((h.pool.startAddr + itemSpan pre + 24, size) :: rest) := by
  obtain ⟨e, rest, rfl, he, hroom⟩ := (hs.expands_iff hsize).mp hexpands
  obtain ⟨c', d, hcut, rfl, hd⟩ := exists_join (c := c.join e) hmin
    (by rw [MemItem.join_size]; omega) false
  have hc' : c'.used = true := (congrArg MemItem.used hcut).symm.trans hc
  have hsizes : c.size + 24 + e.size = c'.size + 24 + d.size := congrArg MemItem.size hcut
  have hmem : h.pool.startAddr + itemSpan pre + (24 + c.size) ∈ frees := by
    refine hs.freePerm.mem_iff.mpr ?_
    rw [freeStarts_append, freeStarts_used hc, freeStarts_free he]
    exact List.mem_append_right _ List.mem_cons_self
  obtain ⟨front, back, rfl⟩ := List.append_of_mem hmem
  have hbase : h.pool.startAddr + itemSpan pre + (24 + c.size) + (24 + e.size) =
      h.pool.startAddr + itemSpan pre + (24 + c'.size) + (24 + d.size) := by omega
  refine ⟨_, _, sound_expand hs hcut hc he hd hgrow, ?_, regions h.pool.startAddr pre ++
    regions (h.pool.startAddr + itemSpan pre + (24 + c.size) + (24 + e.size)) rest, ?_, ?_⟩
  · unfold expand
    dsimp only
    rw [onMemory_pool, account_pool]
  · rw [regions_append, regions_used hc, regions_free he]
    exact List.perm_middle
  · rw [regions_append, regions_used hc', regions_free hd, hbase]
    exact List.perm_middle

/-- The end of the item is given back. -/
theorem Sound.cut {size : Nat} (hs : h.Sound (pre ++ c :: post) frees) (hc : c.used = true)
    (hmin : 12 ≤ size) (hroom : size + 36 < c.size) :
    ∃ items' frees',
      (h.shrink (h.pool.startAddr + itemSpan pre) size).rtSemRelease.Sound items' frees' ∧
      (h.shrink (h.pool.startAddr + itemSpan pre) size).pool = h.pool ∧
      ∃ rest, (regions h.pool.startAddr (pre ++ c :: post)).Perm
          ((h.pool.startAddr + itemSpan pre + 24, c.size) :: rest) ∧
        (regions h.pool.startAddr items').Perm
          ((h.pool.startAddr + itemSpan pre + 24, size) :: rest) := by
  obtain ⟨c', d, rfl, rfl, hd⟩ := exists_join hmin (Nat.le_of_lt hroom) false
  have hc' : c'.used = true := hc
  obtain ⟨d', post', frees', hsound, hregions, hpool⟩ := sound_shrink hs hc' hd
  refine ⟨_, frees', hsound, hpool, regions h.pool.startAddr pre ++
    regions (h.pool.startAddr + itemSpan pre + (24 + c'.size) + (24 + d.size)) post, ?_, ?_⟩
  · rw [regions_append, regions_used hc, join_end]
    exact List.perm_middle
  · rw [regions_append, regions_used hc', hregions, regions_free hd]
    exact List.perm_middle

end MemHeap

/-- The data is copied to the new region, and the old one is freed. -/
theorem MemHeap.Sound.relocate {p k count : Nat} (hs : h.Sound items frees) (src : Nat)
    (hp : (p, k) ∈ regions h.pool.startAddr items) (hx : x ∈ regions h.pool.startAddr items)
    (hcount : count ≤ k) :
    ∃ h' items' frees',
      rtMemheapFree (h.onMemory fun m => m.copy p src count) (some x.1) = some h' ∧
      h'.Sound items' frees' ∧ h'.pool = h.pool ∧
      (regions h.pool.startAddr items).Perm (x :: regions h.pool.startAddr items') := by
  obtain ⟨pre, c, post, rfl, hc, heq⟩ := regions_split hp
  cases heq
  have hcopied := hs.write (m := h.memory.copy (h.pool.startAddr + itemSpan pre + 24) src count)
    fun a ha => ByteMemory.copy_outside (by omega)
  exact rtMemheapFree_spec (h := h.onMemory _) hcopied hx

open MemHeap in
/-- `rt_memheap_realloc` of a region in use returns, unless the sum of its test wraps. -/
theorem rtMemheapRealloc_spec (hs : h.Sound items frees)
    (hx : x ∈ regions h.pool.startAddr items) (hn : n ≠ 0)
    (hwrap : x.2 < memheapRequest n → h.expands (x.1 - 24) x.2 (memheapRequest n) = true →
      memheapRequest n + 12 < 0x100000000) :
    ∃ h' r items' frees', rtMemheapRealloc h (some x.1) n = some (h', r) ∧
      h'.Sound items' frees' ∧ h'.pool = h.pool ∧
      Reanswers h items items' x (memheapRequest n) r := by
  obtain ⟨pre, c, post, rfl, hc, rfl⟩ := regions_split hx
  have hspan := hs.span_lt
  have hmin := le_memheapRequest n
  rw [itemSpan_append, itemSpan_cons] at hspan
  have hat : sub32 (h.pool.startAddr + itemSpan pre + 24) rtMemheapSize =
      h.pool.startAddr + itemSpan pre := sub32_of_le (by unfold rtMemheapSize; omega) (by omega)
  unfold rtMemheapRealloc
  dsimp only at hwrap ⊢
  rw [Nat.add_sub_cancel] at hwrap
  rw [if_neg hn, hat, memitemSize_eq hs.laid]
  generalize hsize : memheapRequest n = size at *
  have hsame : (regions h.pool.startAddr (pre ++ c :: post)).Perm
      ((h.pool.startAddr + itemSpan pre + 24, c.size) :: (regions h.pool.startAddr pre ++
        regions (h.pool.startAddr + itemSpan pre + (24 + c.size)) post)) := by
    rw [regions_append, regions_used hc]
    exact List.perm_middle
  by_cases hgrow : c.size < size
  · rw [if_pos hgrow]
    by_cases hexpands : h.expands (h.pool.startAddr + itemSpan pre) c.size size = true
    · obtain ⟨items', frees', hsound, hpool, rest, hold, hnew⟩ :=
        hs.grow hc hmin (Nat.le_of_lt hgrow) (hwrap hgrow hexpands) hexpands
      rw [if_pos hexpands]
      refine ⟨_, some _, items', frees', rfl, hsound, (rtSemRelease_pool _).trans hpool,
        fun _ hstay => ?_, size, rest, Nat.le_refl _, hold, hnew⟩
      rw [Nat.add_sub_cancel] at hstay
      exact absurd (hexpands.symm.trans hstay) (by decide)
    · rw [if_neg hexpands]
      have hstay := eq_false_of_ne_true hexpands
      obtain ⟨h₁, r, items₁, frees₁, halloc, hsound₁, hpool₁, hanswers⟩ :=
        rtMemheapAlloc_spec hs.idle size
      have hidem : memheapRequest size = size := by rw [← hsize, memheapRequest_idem]
      rw [hidem] at hanswers
      rw [halloc, Option.bind_eq_bind, Option.bind_some]
      cases r with
      | none =>
        refine ⟨h₁, none, items₁, frees₁, rfl, hsound₁, hpool₁, hgrow, ?_, hanswers⟩
        rw [Nat.add_sub_cancel]
        exact hstay
      | some p =>
        obtain ⟨hlt, k, hk, hperm⟩ := hanswers
        replace hpool₁ : h₁.pool = h.pool := hpool₁
        rw [rtSemRelease_pool] at hperm
        have hnew : (p, k) ∈ regions h₁.pool.startAddr items₁ := by
          rw [hpool₁]
          exact hperm.mem_iff.mpr List.mem_cons_self
        have hold : (h.pool.startAddr + itemSpan pre + 24, c.size) ∈
            regions h₁.pool.startAddr items₁ := by
          rw [hpool₁]
          exact hperm.mem_iff.mpr (List.mem_cons_of_mem _ hx)
        obtain ⟨h₂, items₂, frees₂, hfree, hsound₂, hpool₂, hperm₂⟩ :=
          hsound₁.relocate (h.pool.startAddr + itemSpan pre + 24) hnew hold
            (Nat.le_trans (Nat.le_of_lt hgrow) hk)
        rw [hpool₁] at hperm₂ hpool₂
        dsimp only at hfree ⊢
        rw [if_pos hgrow, hfree]
        -- the new region and the old one, then without the old one
        have hboth := (hperm₂.symm.trans hperm).trans ((hsame.cons (p, k)).trans (.swap ..))
        exact ⟨h₂, some p, items₂, frees₂, rfl, hsound₂, hpool₂, fun _ _ => hlt, k, _, hk, hsame,
          hboth.cons_inv⟩
  · rw [if_neg hgrow]
    have hle : size ≤ c.size := Nat.le_of_not_lt hgrow
    have hsum : add32 (add32 size rtMemheapSize) rtMemheapMinialloc = size + 36 := by
      unfold rtMemheapSize rtMemheapMinialloc
      rw [add32_of_lt (a := size) (by omega), add32_of_lt (by omega)]
    rw [hsum]
    by_cases hroom : c.size ≤ size + 36
    · rw [if_pos hroom]
      exact ⟨h, some _, _, frees, rfl, hs, rfl, fun hlt => absurd hlt hgrow, c.size, _, hle, hsame,
        hsame⟩
    · obtain ⟨items', frees', hsound, hpool, rest, hold, hnew⟩ :=
        hs.cut hc hmin (Nat.lt_of_not_le hroom)
      rw [if_neg hroom]
      exact ⟨_, some _, items', frees', rfl, hsound, (rtSemRelease_pool _).trans hpool,
        fun hlt => absurd hlt hgrow, size, rest, Nat.le_refl _, hold, hnew⟩

end Calls

end RtVcom.Kernel

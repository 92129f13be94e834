import RtVcom.Kernel.MemHeapRun

/-!
# What a memory heap hands out

A request is to be answered with a region of its size in the pool, apart from all others, or with
NULL where no free item is large enough for it (`Answered`). Three things in `memheap.c` stand
against that. `rt_memheap_alloc` asks for more free bytes than the request (`size <
available_size`), so that a single free item of exactly the size is refused. `RT_ALIGN` wraps the
last three sizes to 0, and the least item is handed out for them. And the test of
`rt_memheap_realloc` for the item behind wraps for sizes that are less than 12 bytes below 2^32.
`memheap_serves_iff` says that there is nothing else.
-/

namespace RtVcom.Kernel

open RtVcom.Lib

/-! ## What is asked of an answer -/

/-- The bytes of an item for a request, rounded without a wrap. -/
def itemRequest (n : Nat) : Nat := max ((n + 3) / 4 * 4) rtMemheapMinialloc

/-- The last size that `RT_ALIGN` does not wrap. -/
def lastAligned : Nat := 0xfffffffc

namespace MemheapSystem

variable (P : Pool) (s : MemheapSystem) (frees : List Nat)

/-- A region of `n` bytes in the pool that is apart from the regions of `others`, or NULL where no
free item is large enough. -/
def Answered (others : List Nat) (n : Nat) : Option Nat → Prop
  | none => ∀ q ∈ frees, memitemSize s.heap.memory q < itemRequest n
  | some p => P.startAddr ≤ p ∧ p + n ≤ P.startAddr + P.poolSize ∧
      ∀ q ∈ others, p + n ≤ q ∨ q + s.sizeAt q ≤ p

/-- The free bytes are not those of a single item of exactly the size; where `RT_ALIGN` wraps, no
more than the least item is free. -/
def AllocServes (n : Nat) : Prop :=
  if n ≤ lastAligned then
    ¬(s.heap.availableSize = itemRequest n ∧
      ∃ q ∈ frees, memitemSize s.heap.memory q = itemRequest n)
  else s.heap.availableSize ≤ rtMemheapMinialloc

/-- Where the item behind is taken for large enough, the sum does not wrap, and elsewhere
`rt_memheap_alloc` serves the request. -/
def GrowServes (p n : Nat) : Prop :=
  if s.heap.expands (p - rtMemheapSize) (s.sizeAt p) (memheapRequest n) then
    memheapRequest n + rtMemheapMinialloc < 0x100000000
  else s.AllocServes frees n

end MemheapSystem

theorem memheapRequest_eq {n : Nat} (hn : n ≤ lastAligned) : memheapRequest n = itemRequest n := by
  unfold lastAligned at hn
  unfold memheapRequest itemRequest rtMemheapMinialloc rtAlign
  rw [add32_of_lt (by omega)]
  split <;> omega

/-- Above the last aligned size the rounding wraps, and 12 bytes are asked for. -/
theorem memheapRequest_wraps {n : Nat} (hn : lastAligned < n) (hlt : n < 0x100000000) :
    memheapRequest n = 12 := by
  unfold lastAligned at hn
  unfold memheapRequest rtMemheapMinialloc rtAlign add32
  split <;> omega

/-- An item that grows in place stays where it is. -/
theorem rtMemheapRealloc_expands {h : MemHeap} {p a n : Nat} (hn : n ≠ 0)
    (ha : sub32 p rtMemheapSize = a) (hgrow : memitemSize h.memory a < memheapRequest n)
    (hexpands : h.expands a (memitemSize h.memory a) (memheapRequest n) = true) :
    rtMemheapRealloc h (some p) n =
      some ((h.expand a (memitemSize h.memory a) (memheapRequest n)).rtSemRelease, some p) := by
  unfold rtMemheapRealloc
  dsimp only
  rw [if_neg hn, ha, if_pos hgrow, if_pos hexpands]

theorem le_itemRequest (n : Nat) : n ≤ itemRequest n := by
  unfold itemRequest
  omega

section Regions

variable {a : Nat} {items : List MemItem} {x y : Nat × Nat} {c : MemItem} {pre post : List MemItem}

/-- Two regions do not overlap. -/
theorem regions_apart (hx : x ∈ regions a items) (hy : y ∈ regions a items) (hne : x.1 ≠ y.1) :
    x.1 + x.2 ≤ y.1 ∨ y.1 + y.2 ≤ x.1 := by
  obtain ⟨u, hu, -, rfl⟩ := mem_regions.mp hx
  obtain ⟨v, hv, -, rfl⟩ := mem_regions.mp hy
  have hapart := placed_apart hu hv fun heq => hne (by rw [heq])
  dsimp only
  omega

/-- No two regions begin at the same address. -/
theorem regions_nodup : ((regions a items).map Prod.fst).Nodup := by
  induction items generalizing a with
  | nil => exact List.nodup_nil
  | cons c items ih =>
    cases hc : c.used with
    | false =>
      rw [regions_free hc]
      exact ih
    | true =>
      rw [regions_used hc, List.map_cons, List.nodup_cons]
      refine ⟨fun hmem => ?_, ih⟩
      obtain ⟨x, hx, heq⟩ := List.mem_map.mp hmem
      obtain ⟨u, hu, -, rfl⟩ := mem_regions.mp hx
      have hbounds := (placed_bounds hu).1
      dsimp only at heq
      omega

theorem size_le_freeBytes (hc : c.used = false) : c.size ≤ freeBytes (pre ++ c :: post) := by
  rw [freeBytes_append, freeBytes_free hc]
  omega

/-- Where bytes are free, an item is. -/
theorem exists_free (h : 0 < freeBytes items) :
    ∃ c pre post, items = pre ++ c :: post ∧ c.used = false := by
  induction items with
  | nil => exact absurd h (Nat.lt_irrefl 0)
  | cons c items ih =>
    cases hc : c.used with
    | false => exact ⟨c, [], items, rfl, hc⟩
    | true =>
      rw [freeBytes_used hc] at h
      obtain ⟨d, pre, post, rfl, hd⟩ := ih h
      exact ⟨d, c :: pre, post, rfl, hd⟩

end Regions

section Serves

variable {P : Pool} {m : ByteMemory} {s : MemheapSystem} {items items' : List MemItem}
  {frees : List Nat} {n p k : Nat} {others : List Nat} {rest : List (Nat × Nat)}

namespace MemheapSystem

/-- The sizes of the free items are what `MEMITEM_SIZE` reads. -/
theorem Kept.free_iff (hk : s.Kept P items frees) {r : Nat → Prop} :
    (∀ q ∈ frees, r (memitemSize s.heap.memory q)) ↔
      ∀ c pre post, items = pre ++ c :: post → c.used = false → r c.size := by
  have hs := hk.sound
  constructor
  · rintro hall c pre post rfl hc
    have hmem := hall _ (hs.freePerm.mem_iff.mpr (by
      rw [freeStarts_append, freeStarts_free hc]
      exact List.mem_append_right _ List.mem_cons_self))
    rwa [memitemSize_eq hs.laid] at hmem
  · intro hall q hq
    obtain ⟨pre, c, post, rfl, hc, rfl⟩ := freeStarts_split (hs.freePerm.mem_iff.mp hq)
    rw [memitemSize_eq hs.laid]
    exact hall c pre post rfl hc

/-- A region that the heap has beside those of `others`. -/
theorem answered_of_region (hfull : itemSpan items' + 24 = P.poolSize)
    (hnew : (regions P.startAddr items').Perm ((p, k) :: rest)) (hn : n ≤ k)
    (hothers : ∀ q ∈ others, (q, s.sizeAt q) ∈ rest) :
    s.Answered P frees others n (some p) := by
  have hmem : (p, k) ∈ regions P.startAddr items' := hnew.mem_iff.mpr List.mem_cons_self
  have hnodup := (hnew.map Prod.fst).nodup_iff.mp regions_nodup
  refine ⟨?_, ?_, fun q hq => ?_⟩
  · obtain ⟨u, hu, -, heq⟩ := mem_regions.mp hmem
    have hbounds := placed_bounds hu
    obtain ⟨rfl, rfl⟩ := Prod.mk.inj heq
    omega
  · obtain ⟨u, hu, -, heq⟩ := mem_regions.mp hmem
    have hbounds := placed_bounds hu
    obtain ⟨rfl, rfl⟩ := Prod.mk.inj heq
    omega
  · have hq' := hothers q hq
    have hne : p ≠ q := by
      rintro rfl
      exact (List.nodup_cons.mp hnodup).1 (List.mem_map.mpr ⟨_, hq', rfl⟩)
    have hapart := regions_apart hmem (hnew.mem_iff.mpr (List.mem_cons_of_mem _ hq')) hne
    dsimp only at hapart
    omega

/-- A request that is larger than any address is not answered with a region. -/
theorem not_answered_of_far (hp : P.startAddr + 24 ≤ p) (hn : 0x100000000 ≤ n + 24) :
    ¬s.Answered P frees others n (some p) := by
  intro ⟨_, hend, _⟩
  have hfits := P.poolSize_fits
  omega

/-- NULL is right but for a single free item of exactly the size. -/
theorem Kept.null_iff (hk : s.Kept P items frees) (hn : n ≤ lastAligned)
    (hsearch : itemRequest n < s.heap.availableSize → ∀ c pre post, items = pre ++ c :: post →
      c.used = false → c.size < itemRequest n) :
    s.Answered P frees others n none ↔ s.AllocServes frees n := by
  have hcond : s.AllocServes frees n ↔ ¬(s.heap.availableSize = itemRequest n ∧
      ∃ q ∈ frees, memitemSize s.heap.memory q = itemRequest n) := by
    unfold AllocServes
    rw [if_pos hn]
  rw [hcond]
  change (∀ q ∈ frees, memitemSize s.heap.memory q < itemRequest n) ↔ _
  constructor
  · rintro hall ⟨-, q, hq, heq⟩
    exact absurd (hall q hq) (by omega)
  · intro hnot q hq
    have hbytes : memitemSize s.heap.memory q ≤ s.heap.availableSize := by
      refine (hk.free_iff (r := (· ≤ s.heap.availableSize))).mpr ?_ q hq
      rintro c pre post rfl hc
      rw [hk.sound.available]
      exact size_le_freeBytes hc
    by_cases hlt : itemRequest n < s.heap.availableSize
    · exact (hk.free_iff (r := (· < itemRequest n))).mpr (hsearch hlt) q hq
    · by_contra hge
      exact hnot ⟨by omega, q, hq, by omega⟩

/-- `rt_memheap_alloc` answers rightly exactly if it serves the request. -/
theorem Kept.alloc_iff (hk : s.Kept P items frees) (hlt : n < 0x100000000) :
    ∃ heap r, rtMemheapAlloc s.heap n = some (heap, r) ∧
      (s.Answered P frees s.live n r ↔ s.AllocServes frees n) := by
  obtain ⟨heap, r, items', frees', halloc, hsound, hpool, hanswers⟩ :=
    rtMemheapAlloc_spec hk.sound n
  refine ⟨heap, r, halloc, ?_⟩
  have hfull := hsound.laid.full
  rw [hpool, hk.pool] at hfull
  by_cases hn : n ≤ lastAligned
  · rw [memheapRequest_eq hn] at hanswers
    cases r with
    | none => exact hk.null_iff hn hanswers.2
    | some p =>
      obtain ⟨havailable, k, hfit, hperm⟩ := hanswers
      rw [hk.pool] at hperm
      refine iff_of_true ?_ ?_
      · exact answered_of_region hfull hperm (Nat.le_trans (le_itemRequest n) hfit)
          fun q hq => hk.region hq
      · unfold AllocServes
        rw [if_pos hn]
        exact fun h => absurd h.1 (by omega)
  · have hwraps := memheapRequest_wraps (Nat.lt_of_not_le hn) hlt
    have hcond : s.AllocServes frees n ↔ s.heap.availableSize ≤ 12 := by
      unfold AllocServes
      rw [if_neg hn]
      rfl
    unfold lastAligned at hn
    rw [hwraps] at hanswers
    rw [hcond]
    cases r with
    | none =>
      refine iff_of_true (fun q hq => ?_) ?_
      · have hitem := le_itemRequest n
        have hspan := hk.sound.span_lt
        refine (hk.free_iff (r := (· < itemRequest n))).mpr ?_ q hq
        rintro c pre post rfl hc
        rw [itemSpan_append, itemSpan_cons] at hspan
        omega
      · by_contra hmore
        have hfree := hk.sound.available
        have hbytes : 0 < freeBytes items := by omega
        obtain ⟨c, pre, post, hitems, hc⟩ := exists_free hbytes
        have hsmall := hanswers.2 (Nat.lt_of_not_le hmore) c pre post hitems hc
        exact absurd c.large (by omega)
    | some p =>
      obtain ⟨havailable, k, hfit, hperm⟩ := hanswers
      rw [hk.pool] at hperm
      refine iff_of_false (not_answered_of_far ?_ (by omega)) (by omega)
      obtain ⟨u, hu, -, heq⟩ := mem_regions.mp (hperm.mem_iff.mpr List.mem_cons_self)
      have hbounds := (placed_bounds hu).1
      obtain ⟨rfl, -⟩ := Prod.mk.inj heq
      omega

/-- A growing `rt_memheap_realloc` answers rightly exactly if it grows the item in its pool or
`rt_memheap_alloc` serves the request. -/
theorem Kept.grow_iff (hk : s.Kept P items frees) (hp : p ∈ s.live) (hlt : n < 0x100000000)
    (hgrow : s.sizeAt p < memheapRequest n) :
    ∃ heap r, rtMemheapRealloc s.heap (some p) n = some (heap, r) ∧
      (s.Answered P frees (s.live.erase p) n r ↔ s.GrowServes frees p n) := by
  have hregion := hk.region hp
  obtain ⟨u, hu, -, heq⟩ := mem_regions.mp hregion
  obtain ⟨hat, hsize⟩ := Prod.mk.inj heq
  have hstart := (placed_bounds hu).1
  have hlarge := u.2.large
  have hn : n ≤ lastAligned := by
    by_contra hn
    have hwraps := memheapRequest_wraps (Nat.lt_of_not_le hn) hlt
    omega
  have hrequest := memheapRequest_eq hn
  have hne : n ≠ 0 := by
    rintro rfl
    have hleast : memheapRequest 0 = 12 := rfl
    omega
  have hle := le_itemRequest n
  by_cases hwrap : s.heap.expands (p - rtMemheapSize) (s.sizeAt p) (memheapRequest n) = true ∧
      ¬memheapRequest n + rtMemheapMinialloc < 0x100000000
  · -- the item grows over the end of the pool
    obtain ⟨hexpands, hover⟩ := hwrap
    have hspan := hk.sound.span_lt
    have hend := (placed_bounds hu).2
    rw [hk.pool] at hspan
    have hheader : sub32 p rtMemheapSize = p - rtMemheapSize :=
      sub32_of_le (by unfold rtMemheapSize; omega) (by omega)
    refine ⟨_, some p, rtMemheapRealloc_expands hne hheader hgrow hexpands, ?_⟩
    unfold GrowServes
    rw [if_pos hexpands]
    refine iff_of_false (not_answered_of_far (by omega) ?_) hover
    rw [hrequest] at hover
    unfold itemRequest rtMemheapMinialloc at hover
    omega
  · obtain ⟨heap, r, items', frees', hrealloc, hsound, hpool, hanswers⟩ :=
      rtMemheapRealloc_spec hk.sound (hk.pool_mem hp) hne
        fun _ hexpands => not_not.mp fun hover => hwrap ⟨hexpands, hover⟩
    refine ⟨heap, r, hrealloc, ?_⟩
    have hfull := hsound.laid.full
    rw [hpool, hk.pool] at hfull
    rw [hrequest] at hanswers
    unfold GrowServes
    cases r with
    | none =>
      obtain ⟨-, hstay, -, hsearch⟩ := hanswers
      rw [hrequest, if_neg (by unfold rtMemheapSize; exact hstay ▸ Bool.false_ne_true)]
      exact hk.null_iff hn hsearch
    | some q =>
      obtain ⟨hmore, k, rest, hfit, hold, hnew⟩ := hanswers
      rw [hk.pool] at hold hnew
      refine iff_of_true ?_ ?_
      · refine answered_of_region hfull hnew (Nat.le_trans hle hfit) fun q hq => ?_
        have hnodup : s.live.Nodup := hk.live.nodup_iff.mpr regions_nodup
        obtain ⟨hother, hq⟩ := hnodup.mem_erase_iff.mp hq
        rcases List.mem_cons.mp (hold.mem_iff.mp (hk.region hq)) with heq | hmem
        · exact absurd (Prod.mk.inj heq).1 hother
        · exact hmem
      · by_cases hexpands :
            s.heap.expands (p - rtMemheapSize) (s.sizeAt p) (memheapRequest n) = true
        · rw [if_pos hexpands]
          exact not_not.mp fun hover => hwrap ⟨hexpands, hover⟩
        · rw [if_neg hexpands]
          have hlarger := hmore (hrequest ▸ hgrow) (hrequest ▸ eq_false_of_ne_true hexpands)
          unfold AllocServes
          rw [if_pos hn]
          exact fun h => absurd h.1 (by omega)

end MemheapSystem

/-- In every state that calls lead to of which none grew an item over the end of the pool,
`rt_memheap_alloc` and a growing `rt_memheap_realloc` return, and answer rightly exactly if they
serve the request. -/
theorem memheap_serves_iff (h : (memheapMachine P m).Reach GrowsInPool s) :
    ∃ items frees, s.Structured P items frees ∧
      (∀ n < 0x100000000, ∃ heap r, rtMemheapAlloc s.heap n = some (heap, r) ∧
        (s.Answered P frees s.live n r ↔ s.AllocServes frees n)) ∧
      ∀ p ∈ s.live, ∀ n < 0x100000000, s.sizeAt p < memheapRequest n →
        ∃ heap r, rtMemheapRealloc s.heap (some p) n = some (heap, r) ∧
          (s.Answered P frees (s.live.erase p) n r ↔ s.GrowServes frees p n) := by
  obtain ⟨items, frees, hk⟩ := kept_of_reach h
  exact ⟨items, frees, hk.structured, fun n hn => hk.alloc_iff hn,
    fun p hp n hn hgrow => hk.grow_iff hp hn hgrow⟩

end Serves

/-- Two items are taken; the first one is then to grow, and another one to be taken. -/
theorem memheap_serves_two : ∃ (s : MemheapSystem) (items : List MemItem) (frees : List Nat),
    s.live = [0x1040, 0x1018] ∧ s.Structured shortPool items frees ∧
      (∃ heap r, rtMemheapAlloc s.heap 40 = some (heap, r) ∧
        (s.Answered shortPool frees s.live 40 r ↔ s.AllocServes frees 40)) ∧
      ∃ heap r, rtMemheapRealloc s.heap (some 0x1018) 40 = some (heap, r) ∧
        (s.Answered shortPool frees (s.live.erase 0x1018) 40 r ↔
          s.GrowServes frees 0x1018 40) := by
  obtain ⟨s, hs, hlive, hsize⟩ := Machine.exists_reach_of_run
    (memheapMachine shortPool fun _ => 0) GrowsInPool [.alloc 16, .alloc 16]
    (fun s => s.live = [0x1040, 0x1018] ∧ s.sizeAt 0x1018 = 16) (by decide +kernel)
  obtain ⟨items, frees, hstructured, halloc, hgrow⟩ := memheap_serves_iff hs
  refine ⟨s, items, frees, hlive, hstructured, halloc 40 (by decide), hgrow 0x1018 ?_ 40 (by decide)
    ?_⟩
  · rw [hlive]
    decide
  · rw [hsize]
    decide

/-- The smallest pool: one free item of 12 bytes. -/
def leastPool : Pool where
  self := 0x80
  freeList := 0xc0
  startAddr := 0x1000
  size := 60
  self_lt := shortPool.self_lt
  freeList_fits := shortPool.freeList_fits
  fits := by decide
  outside := by decide
  large := by decide

/-- The 12 free bytes are not handed out for a request of 12. -/
theorem exact_fit_refused : ∃ items frees heap r,
    (memheapMachine leastPool fun _ => 0).init.Structured leastPool items frees ∧
      rtMemheapAlloc (rtMemheapInit leastPool fun _ => 0) 12 = some (heap, r) ∧
      ¬(memheapMachine leastPool fun _ => 0).init.Answered leastPool frees [] 12 r := by
  have hrefused : (rtMemheapAlloc (rtMemheapInit leastPool fun _ => 0) 12).map Prod.snd =
      some none := by decide +kernel
  have hsize : memitemSize (rtMemheapInit leastPool fun _ => 0).memory 0x1000 = 12 := by
    decide +kernel
  obtain ⟨⟨heap, r⟩, halloc, hnull⟩ := Option.map_eq_some_iff.mp hrefused
  refine ⟨_, [0x1000], heap, r, (MemheapSystem.Kept.init (P := leastPool)).structured, halloc, ?_⟩
  cases hnull
  intro hanswered
  have hsmall : memitemSize _ 0x1000 < itemRequest 12 := hanswered 0x1000 List.mem_cons_self
  exact absurd hsize (Nat.ne_of_lt (hsmall.trans_le (by decide)))

end RtVcom.Kernel

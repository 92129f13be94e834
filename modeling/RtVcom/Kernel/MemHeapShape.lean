import RtVcom.Kernel.MemHeapItems

/-!
# The items of a memory heap

A heap as a row of items (`MemItem`: a size and whether it is in use) and a list of the addresses
in the free list. `Laid` says that the memory holds them: `next` and `prev` lead through the row
and around, `next_free` and `prev_free` through the free list, and each header has its magic number
and its pool.

Each group of stores is then an edit of the row or of the list: `laid_linkItem` splits an item,
`laid_absorbNext`, `laid_unlinkItem` and `laid_unlinkItemNext` join two, `laid_unlinkFree` and
`laid_pushFree` change the free list, `laid_mark` says whether an item is in use. In between, the
free list need not be that of the free items; what it is to be is said where an operation ends.
-/

namespace RtVcom.Kernel

open RtVcom.Lib

/-! ## Rows of items -/

/-- An item: the size of its data, and whether it is in use. -/
structure MemItem where
  size : Nat
  used : Bool
  large : 12 ≤ size

/-- The same data, in use or not. -/
def MemItem.mark (c : MemItem) (used : Bool) : MemItem := { c with used := used }

/-- Two neighbours as one item; the header of the second becomes data. -/
def MemItem.join (c d : MemItem) : MemItem where
  size := c.size + 24 + d.size
  used := c.used
  large := Nat.le_trans c.large (by omega)

/-- The bytes of a row, with the headers. -/
def itemSpan : List MemItem → Nat
  | [] => 0
  | c :: items => 24 + c.size + itemSpan items

/-- The items with their addresses, from `a` on. -/
def placed : Nat → List MemItem → List (Nat × MemItem)
  | _, [] => []
  | a, c :: items => (a, c) :: placed (a + (24 + c.size)) items

/-- Where the items begin. -/
def itemStarts (a : Nat) (items : List MemItem) : List Nat := (placed a items).map Prod.fst

@[simp] theorem itemSpan_nil : itemSpan [] = 0 := rfl
@[simp] theorem itemSpan_cons (c : MemItem) (items : List MemItem) :
    itemSpan (c :: items) = 24 + c.size + itemSpan items := rfl

/-- The bytes of two rows of items add up. -/
@[simp]
theorem itemSpan_append (xs ys : List MemItem) :
    itemSpan (xs ++ ys) = itemSpan xs + itemSpan ys := by
  induction xs with
  | nil => rw [List.nil_append, itemSpan_nil, Nat.zero_add]
  | cons c xs ih =>
    rw [List.cons_append, itemSpan_cons, itemSpan_cons, ih, Nat.add_assoc (24 + c.size)]

section Rows

variable {a p : Nat} {c d : MemItem} {items xs ys pre post : List MemItem}

@[simp] theorem placed_cons : placed a (c :: items) = (a, c) :: placed (a + (24 + c.size)) items :=
  rfl

/-- The second row begins where the first one ends. -/
@[simp]
theorem placed_append : placed a (xs ++ ys) = placed a xs ++ placed (a + itemSpan xs) ys := by
  induction xs generalizing a with
  | nil => rfl
  | cons c xs ih =>
    rw [List.cons_append, placed_cons, ih, placed_cons, List.cons_append, itemSpan_cons,
      Nat.add_assoc a]

theorem itemStarts_cons :
    itemStarts a (c :: items) = a :: itemStarts (a + (24 + c.size)) items := rfl

theorem itemStarts_append :
    itemStarts a (xs ++ ys) = itemStarts a xs ++ itemStarts (a + itemSpan xs) ys := by
  rw [itemStarts, placed_append, List.map_append]
  rfl

/-- The addresses around one of the items. -/
theorem itemStarts_mid : itemStarts a (pre ++ c :: post) = itemStarts a pre ++
    (a + itemSpan pre) :: itemStarts (a + itemSpan pre + (24 + c.size)) post := by
  rw [itemStarts_append, itemStarts_cons]

/-- Every item lies inside the row. -/
theorem placed_bounds {x : Nat × MemItem} (h : x ∈ placed a items) :
    a ≤ x.1 ∧ x.1 + (24 + x.2.size) ≤ a + itemSpan items := by
  induction items generalizing a with
  | nil => cases h
  | cons c items ih =>
    rw [itemSpan_cons]
    rcases List.mem_cons.mp h with rfl | hmem
    · exact ⟨Nat.le_refl _, by dsimp only; omega⟩
    · have := ih hmem
      omega

theorem itemStarts_bounds (h : p ∈ itemStarts a items) : a ≤ p ∧ p + 36 ≤ a + itemSpan items := by
  obtain ⟨x, hx, rfl⟩ := List.mem_map.mp h
  have hlarge := x.2.large
  have hbounds := placed_bounds hx
  omega

/-- Where an item stands there is one. -/
theorem placed_split {x : Nat × MemItem} (h : x ∈ placed a items) :
    ∃ pre post, items = pre ++ x.2 :: post ∧ x.1 = a + itemSpan pre := by
  induction items generalizing a with
  | nil => cases h
  | cons c items ih =>
    rcases List.mem_cons.mp h with rfl | hmem
    · exact ⟨[], items, rfl, rfl⟩
    · obtain ⟨pre, post, rfl, hat⟩ := ih hmem
      refine ⟨c :: pre, post, rfl, ?_⟩
      rw [hat, itemSpan_cons]
      omega

/-- An item in the middle is placed behind those in front of it. -/
theorem mem_placed_mid : (a + itemSpan pre, c) ∈ placed a (pre ++ c :: post) := by
  rw [placed_append]
  exact List.mem_append_right _ List.mem_cons_self

theorem mem_itemStarts_mid : a + itemSpan pre ∈ itemStarts a (pre ++ c :: post) :=
  List.mem_map.mpr ⟨_, mem_placed_mid, rfl⟩

/-- Two items do not overlap. -/
theorem placed_apart {x y : Nat × MemItem} (hx : x ∈ placed a items) (hy : y ∈ placed a items)
    (hne : x.1 ≠ y.1) : x.1 + (24 + x.2.size) ≤ y.1 ∨ y.1 + (24 + y.2.size) ≤ x.1 := by
  induction items generalizing a with
  | nil => cases hx
  | cons c items ih =>
    rcases List.mem_cons.mp hx with rfl | hx
    · rcases List.mem_cons.mp hy with rfl | hy
      · exact absurd rfl hne
      · exact .inl (placed_bounds hy).1
    · rcases List.mem_cons.mp hy with rfl | hy
      · exact .inr (placed_bounds hx).1
      · exact ih hx hy

/-- Two items are a header apart at least. -/
theorem itemStarts_apart {q : Nat} (hp : p ∈ itemStarts a items) (hq : q ∈ itemStarts a items)
    (hne : p ≠ q) : p + 24 ≤ q ∨ q + 24 ≤ p := by
  obtain ⟨x, hx, rfl⟩ := List.mem_map.mp hp
  obtain ⟨y, hy, rfl⟩ := List.mem_map.mp hq
  have := placed_apart hx hy hne
  omega

/-- No two items begin at the same address. -/
theorem itemStarts_nodup : (itemStarts a items).Nodup := by
  induction items generalizing a with
  | nil => exact List.nodup_nil
  | cons c items ih =>
    rw [itemStarts_cons, List.nodup_cons]
    refine ⟨fun hmem => ?_, ih⟩
    have := (itemStarts_bounds hmem).1
    omega

/-- Items at one address are one item. -/
theorem placed_unique {x y : Nat × MemItem} (hx : x ∈ placed a items) (hy : y ∈ placed a items)
    (h : x.1 = y.1) : x = y :=
  List.inj_on_of_nodup_map itemStarts_nodup hx hy h

end Rows

/-! ## The pool -/

namespace Pool

variable (P : Pool)

theorem poolSize_le : P.poolSize ≤ P.size := Nat.div_mul_le_self _ 4

theorem poolSize_large : 60 ≤ P.poolSize := by
  have := P.large
  unfold poolSize rtAlignDown
  omega

theorem poolSize_fits : P.poolSize + 24 ≤ 0x100000000 := by
  have hfits := P.fits
  have hle := P.poolSize_le
  have hout := P.outside
  have hlist := P.freeList_fits
  omega

/-- The tail item. -/
def tail : Nat := P.startAddr + P.poolSize - 24

theorem tail_fits : P.tail + 24 ≤ 0x100000000 := by
  have hfits := P.fits
  have hle := P.poolSize_le
  have hlarge := P.poolSize_large
  unfold tail
  omega

end Pool

/-- The headers a heap is made of. -/
def Node (P : Pool) (items : List MemItem) (frees : List Nat) (p : Nat) : Prop :=
  p = P.freeList ∨ p = P.tail ∨ p ∈ itemStarts P.startAddr items ∨ p ∈ frees

/-- Where all that is in the free list is an item, the headers do not overlap. -/
theorem spread_node {P : Pool} {items : List MemItem} {frees : List Nat}
    (hfull : itemSpan items + 24 = P.poolSize)
    (hin : ∀ p ∈ frees, p ∈ itemStarts P.startAddr items) : Spread (Node P items frees) := by
  have hfits := P.fits
  have hle := P.poolSize_le
  have houtside := P.outside
  have htail : P.tail = P.startAddr + itemSpan items := by
    rw [Pool.tail, ← hfull, ← Nat.add_assoc, Nat.add_sub_cancel]
  have hcases {p : Nat} (hp : Node P items frees p) :
      p = P.freeList ∨ p = P.tail ∨ p ∈ itemStarts P.startAddr items := by
    rcases hp with h | h | h | h
    · exact .inl h
    · exact .inr (.inl h)
    · exact .inr (.inr h)
    · exact .inr (.inr (hin p h))
  constructor
  · intro p hp
    rcases hcases hp with rfl | rfl | hp
    · exact P.freeList_fits
    · exact P.tail_fits
    · have := itemStarts_bounds hp
      omega
  · intro p q hp hq hne
    rcases hcases hp with rfl | rfl | hp <;> rcases hcases hq with rfl | rfl | hq
    · exact absurd rfl hne
    · omega
    · have := itemStarts_bounds hq
      omega
    · omega
    · exact absurd rfl hne
    · have := itemStarts_bounds hq
      omega
    · have := itemStarts_bounds hp
      omega
    · have := itemStarts_bounds hp
      omega
    · exact itemStarts_apart hp hq hne

/-! ## The memory holds the items -/

/-- The row of items and the free list that a view has. -/
structure Laid (P : Pool) (v : ItemView) (items : List MemItem) (frees : List Nat) : Prop where
  full : itemSpan items + 24 = P.poolSize
  itemRing : Segment v.items P.tail (itemStarts P.startAddr items) P.tail
  freeRing : Segment v.frees P.freeList frees P.freeList
  freeNodup : (P.freeList :: frees).Nodup
  spread : Spread (Node P items frees)
  magic : ∀ x ∈ placed P.startAddr items, v .magic x.1 = rtMemheapMagic + x.2.used.toNat
  tailMagic : v .magic P.tail = rtMemheapMagic + 1
  poolPtr : ∀ p ∈ itemStarts P.startAddr items, v .poolPtr p = P.self

namespace Laid

variable {P : Pool} {v w : ItemView} {items pre post : List MemItem} {frees front rest : List Nat}
  {c d : MemItem} {a p : Nat}

theorem tail_eq (h : Laid P v items frees) : P.tail = P.startAddr + itemSpan items := by
  rw [Pool.tail, ← h.full, ← Nat.add_assoc, Nat.add_sub_cancel]

theorem tail_nodup (h : Laid P v items frees) :
    (P.tail :: itemStarts P.startAddr items).Nodup := by
  refine List.nodup_cons.mpr ⟨fun hmem => ?_, itemStarts_nodup⟩
  have hbounds := itemStarts_bounds hmem
  have htail := h.tail_eq
  omega

theorem node_freeList : Node P items frees P.freeList := .inl rfl
theorem node_tail : Node P items frees P.tail := .inr (.inl rfl)
theorem node_item (h : p ∈ itemStarts P.startAddr items) : Node P items frees p :=
  .inr (.inr (.inl h))
theorem node_free (h : p ∈ frees) : Node P items frees p := .inr (.inr (.inr h))

/-- The links of an item lead to headers. -/
theorem node_next (h : Laid P v items frees) (hp : p ∈ itemStarts P.startAddr items) :
    Node P items frees (v .next p) := by
  have hmem := h.itemRing.next_mem (List.mem_cons_of_mem P.tail hp)
  rcases List.mem_append.mp hmem with hin | hin
  · exact node_item hin
  · exact .inr (.inl (List.mem_singleton.mp hin))

/-- The link to the item before leads to a node. -/
theorem node_prev (h : Laid P v items frees) (hp : p ∈ itemStarts P.startAddr items) :
    Node P items frees (v .prev p) := by
  have hmem := h.itemRing.prev_mem (List.mem_append_left [P.tail] hp)
  rcases List.mem_cons.mp hmem with hin | hin
  · exact .inr (.inl hin)
  · exact node_item hin

theorem node_nextFree (h : Laid P v items frees) (hp : p ∈ P.freeList :: frees) :
    Node P items frees (v .nextFree p) := by
  rcases List.mem_append.mp (h.freeRing.next_mem hp) with hin | hin
  · exact node_free hin
  · exact .inl (List.mem_singleton.mp hin)

theorem node_prevFree (h : Laid P v items frees) (hp : p ∈ frees) :
    Node P items frees (v .prevFree p) := by
  rcases List.mem_cons.mp (h.freeRing.prev_mem (List.mem_append_left [P.freeList] hp)) with
    hin | hin
  · exact .inl hin
  · exact node_free hin

/-- The same headers hold the same row. -/
theorem congr (h : Laid P v items frees)
    (hsame : ∀ f p, Node P items frees p → w f p = v f p) : Laid P w items frees where
  full := h.full
  itemRing := by
    refine h.itemRing.congr (fun z hz => ?_) fun z hz => ?_
    · rcases List.mem_cons.mp hz with rfl | hz
      · exact hsame .next _ node_tail
      · exact hsame .next _ (node_item hz)
    · rcases List.mem_append.mp hz with hz | hz
      · exact hsame .prev _ (node_item hz)
      · exact List.mem_singleton.mp hz ▸ hsame .prev _ node_tail
  freeRing := by
    refine h.freeRing.congr (fun z hz => ?_) fun z hz => ?_
    · rcases List.mem_cons.mp hz with rfl | hz
      · exact hsame .nextFree _ node_freeList
      · exact hsame .nextFree _ (node_free hz)
    · rcases List.mem_append.mp hz with hz | hz
      · exact hsame .prevFree _ (node_free hz)
      · exact List.mem_singleton.mp hz ▸ hsame .prevFree _ node_freeList
  freeNodup := h.freeNodup
  spread := h.spread
  magic x hx := (hsame .magic _ (node_item (List.mem_map_of_mem hx))).trans (h.magic x hx)
  tailMagic := (hsame .magic _ node_tail).trans h.tailMagic
  poolPtr p hp := (hsame .poolPtr _ (node_item hp)).trans (h.poolPtr p hp)

/-- What lies outside of the headers does not matter. -/
theorem of_agree {m : ByteMemory} {V : Nat → Prop} (h : Laid P v items frees) (hm : Agree V m v)
    (hV : ∀ p, Node P items frees p → V p) : Laid P (getField m) items frees :=
  h.congr fun f p hp => hm f p (hV p hp)

/-! ### Edits of the free list -/

/-- An item leaves the free list. -/
theorem bypassFree (h : Laid P v items (front ++ a :: rest)) :
    Laid P (v.withFrees (v.frees.bypass a)) items (front ++ rest) where
  full := h.full
  itemRing := h.itemRing
  freeRing := h.freeRing.bypass h.freeNodup (List.nodup_cons.mp h.freeNodup).1
  freeNodup := by
    have hsub : (P.freeList :: (front ++ rest)).Sublist (P.freeList :: (front ++ a :: rest)) :=
      List.Sublist.cons_cons _ (List.Sublist.append_left (List.sublist_cons_self a rest) front)
    exact h.freeNodup.sublist hsub
  spread := h.spread.mono fun p hp => by
    rcases hp with hp | hp | hp | hp
    · exact .inl hp
    · exact .inr (.inl hp)
    · exact node_item hp
    · refine node_free ?_
      rcases List.mem_append.mp hp with hp | hp
      · exact List.mem_append_left _ hp
      · exact List.mem_append_right _ (List.mem_cons_of_mem a hp)
  magic := h.magic
  tailMagic := h.tailMagic
  poolPtr := h.poolPtr

/-- The head of the free list is not an item. -/
theorem freeList_not_item (h : Laid P v items frees) :
    P.freeList ∉ itemStarts P.startAddr items := by
  intro hmem
  have hbounds := itemStarts_bounds hmem
  have houtside := P.outside
  have hfull := h.full
  have hle := P.poolSize_le
  omega

/-- An item is put at the front of the free list. -/
theorem insertFree (h : Laid P v items frees) (ha : a ∈ itemStarts P.startAddr items)
    (hout : a ∉ frees) :
    Laid P (v.withFrees (v.frees.insertAfter P.freeList a)) items (a :: frees) where
  full := h.full
  itemRing := h.itemRing
  freeRing := by
    have hne : a ≠ P.freeList := fun heq => h.freeList_not_item (heq ▸ ha)
    refine h.freeRing.insertAfter h.freeNodup (List.nodup_cons.mp h.freeNodup).1 ?_ hne
    exact fun hmem => (List.mem_cons.mp hmem).elim hne hout
  freeNodup := by
    obtain ⟨hhead, hnodup⟩ := List.nodup_cons.mp h.freeNodup
    refine List.nodup_cons.mpr ⟨fun hmem => ?_, List.nodup_cons.mpr ⟨hout, hnodup⟩⟩
    rcases List.mem_cons.mp hmem with heq | hmem
    · exact h.freeList_not_item (heq ▸ ha)
    · exact hhead hmem
  spread := h.spread.mono fun p hp => by
    rcases hp with hp | hp | hp | hp
    · exact .inl hp
    · exact .inr (.inl hp)
    · exact node_item hp
    · rcases List.mem_cons.mp hp with rfl | hp
      · exact node_item ha
      · exact node_free hp
  magic := h.magic
  tailMagic := h.tailMagic
  poolPtr := h.poolPtr

/-- The links of an item that is in no list are free. -/
theorem clear (h : Laid P v items frees) {x y : Nat} (ha : a ∈ itemStarts P.startAddr items)
    (hout : a ∉ frees) : Laid P ((v.set .nextFree a x).set .prevFree a y) items frees where
  full := h.full
  itemRing := h.itemRing
  freeRing := by
    have hne {z : Nat} (hz : z = P.freeList ∨ z ∈ frees) : z ≠ a := by
      rintro rfl
      rcases hz with rfl | hz
      · exact h.freeList_not_item ha
      · exact hout hz
    refine h.freeRing.congr (fun z hz => ?_) fun z hz => ?_
    · exact Function.update_of_ne (hne (List.mem_cons.mp hz)) ..
    · refine Function.update_of_ne (hne ?_) ..
      rcases List.mem_append.mp hz with hz | hz
      · exact .inr hz
      · exact .inl (List.mem_singleton.mp hz)
  freeNodup := h.freeNodup
  spread := h.spread
  magic := h.magic
  tailMagic := h.tailMagic
  poolPtr := h.poolPtr

/-! ### Edits of the row -/

/-- An item is marked in use or not. -/
theorem mark (h : Laid P v (pre ++ c :: post) frees) (used : Bool) :
    Laid P (v.set .magic (P.startAddr + itemSpan pre) (rtMemheapMagic + used.toNat))
      (pre ++ c.mark used :: post) frees := by
  have hstarts : itemStarts P.startAddr (pre ++ c.mark used :: post) =
      itemStarts P.startAddr (pre ++ c :: post) := by
    rw [itemStarts_mid, itemStarts_mid]
    rfl
  have hspan : itemSpan (pre ++ c.mark used :: post) = itemSpan (pre ++ c :: post) := by
    rw [itemSpan_append, itemSpan_append]
    rfl
  have hnode : Node P (pre ++ c.mark used :: post) frees = Node P (pre ++ c :: post) frees := by
    unfold Node
    rw [hstarts]
  refine ⟨by rw [hspan, h.full], hstarts.symm ▸ h.itemRing, h.freeRing, h.freeNodup,
    hnode.symm ▸ h.spread, fun x hx => ?_, ?_, hstarts.symm ▸ h.poolPtr⟩
  · by_cases hat : x.1 = P.startAddr + itemSpan pre
    · have hx' : x = (P.startAddr + itemSpan pre, c.mark used) :=
        placed_unique hx mem_placed_mid hat
      rw [hx']
      exact Function.update_self ..
    · have hold : x ∈ placed P.startAddr (pre ++ c :: post) := by
        rw [placed_append, placed_cons] at hx ⊢
        rcases List.mem_append.mp hx with hx | hx
        · exact List.mem_append_left _ hx
        · rcases List.mem_cons.mp hx with rfl | hx
          · exact absurd rfl hat
          · exact List.mem_append_right _ (List.mem_cons_of_mem _ hx)
      exact (Function.update_of_ne hat ..).trans (h.magic x hold)
  · refine (Function.update_of_ne ?_ ..).trans h.tailMagic
    intro heq
    have htail := h.tail_nodup
    rw [heq] at htail
    exact (List.nodup_cons.mp htail).1 mem_itemStarts_mid

/-- The addresses around two neighbours, and when they are one item. -/
theorem starts_pair : itemStarts P.startAddr (pre ++ c :: d :: post) =
    (itemStarts P.startAddr pre ++ [P.startAddr + itemSpan pre]) ++
      (P.startAddr + itemSpan pre + (24 + c.size)) ::
        itemStarts (P.startAddr + itemSpan pre + (24 + c.size) + (24 + d.size)) post := by
  rw [itemStarts_mid, itemStarts_cons, List.append_assoc, List.singleton_append]

/-- The starts of a row with two items joined are those without the second one. -/
theorem starts_join : itemStarts P.startAddr (pre ++ c.join d :: post) =
    (itemStarts P.startAddr pre ++ [P.startAddr + itemSpan pre]) ++
      itemStarts (P.startAddr + itemSpan pre + (24 + c.size) + (24 + d.size)) post := by
  have hbase : P.startAddr + itemSpan pre + (24 + (c.join d).size) =
      P.startAddr + itemSpan pre + (24 + c.size) + (24 + d.size) := by
    unfold MemItem.join
    dsimp only
    omega
  rw [itemStarts_mid, hbase, List.append_assoc, List.singleton_append]

theorem span_join : itemSpan (pre ++ c.join d :: post) = itemSpan (pre ++ c :: d :: post) := by
  rw [itemSpan_append, itemSpan_append, itemSpan_cons, itemSpan_cons, itemSpan_cons]
  unfold MemItem.join
  dsimp only
  omega

/-- Two neighbours become one item. -/
theorem join (h : Laid P v (pre ++ c :: d :: post) frees) :
    Laid P (v.withItems (v.items.bypass (P.startAddr + itemSpan pre + (24 + c.size))))
      (pre ++ c.join d :: post) frees := by
  have hsub : ∀ p ∈ itemStarts P.startAddr (pre ++ c.join d :: post),
      p ∈ itemStarts P.startAddr (pre ++ c :: d :: post) := by
    intro p hp
    rw [starts_join] at hp
    rw [starts_pair]
    rcases List.mem_append.mp hp with hp | hp
    · exact List.mem_append_left _ hp
    · exact List.mem_append_right _ (List.mem_cons_of_mem _ hp)
  have hnodup := h.tail_nodup
  have hring := h.itemRing
  rw [starts_pair] at hnodup hring
  refine ⟨by rw [span_join, h.full], ?_, h.freeRing, h.freeNodup, h.spread.mono ?_, ?_,
    h.tailMagic, fun p hp => h.poolPtr p (hsub p hp)⟩
  · rw [starts_join]
    exact hring.bypass hnodup (List.nodup_cons.mp hnodup).1
  · intro p hp
    rcases hp with hp | hp | hp | hp
    · exact .inl hp
    · exact .inr (.inl hp)
    · exact node_item (hsub p hp)
    · exact node_free hp
  · intro x hx
    rw [placed_append, placed_cons] at hx
    rcases List.mem_append.mp hx with hx | hx
    · exact h.magic x (by rw [placed_append]; exact List.mem_append_left _ hx)
    · rcases List.mem_cons.mp hx with rfl | hx
      · exact h.magic (_, c) mem_placed_mid
      · refine h.magic x ?_
        have hbase : P.startAddr + itemSpan pre + (24 + (c.join d).size) =
            P.startAddr + itemSpan pre + (24 + c.size) + (24 + d.size) := by
          unfold MemItem.join
          dsimp only
          omega
        rw [hbase] at hx
        rw [placed_append, placed_cons, placed_cons]
        exact List.mem_append_right _ (List.mem_cons_of_mem _ (List.mem_cons_of_mem _ hx))

/-- An item is split, and its end is a free item that is in no list yet. -/
theorem split (h : Laid P v (pre ++ c.join d :: post) frees) (hd : d.used = false)
    (hin : ∀ p ∈ frees, p ∈ itemStarts P.startAddr (pre ++ c.join d :: post)) :
    Laid P (((v.set .magic (P.startAddr + itemSpan pre + (24 + c.size)) rtMemheapMagic).set
        .poolPtr (P.startAddr + itemSpan pre + (24 + c.size)) P.self).withItems
          (v.items.insertAfter (P.startAddr + itemSpan pre)
            (P.startAddr + itemSpan pre + (24 + c.size)))) (pre ++ c :: d :: post) frees := by
  have hfull : itemSpan (pre ++ c :: d :: post) + 24 = P.poolSize := by rw [← span_join, h.full]
  have hsub : ∀ p ∈ itemStarts P.startAddr (pre ++ c.join d :: post),
      p ∈ itemStarts P.startAddr (pre ++ c :: d :: post) := by
    intro p hp
    rw [starts_join] at hp
    rw [starts_pair]
    rcases List.mem_append.mp hp with hp | hp
    · exact List.mem_append_left _ hp
    · exact List.mem_append_right _ (List.mem_cons_of_mem _ hp)
  generalize hq : P.startAddr + itemSpan pre + (24 + c.size) = q
  -- the new header is none of the old ones
  have hnew : (P.tail :: itemStarts P.startAddr (pre ++ c :: d :: post)).Nodup := by
    refine List.nodup_cons.mpr ⟨fun hmem => ?_, itemStarts_nodup⟩
    have hbounds := itemStarts_bounds hmem
    have htail := h.tail_eq
    rw [span_join] at htail
    omega
  rw [starts_pair, hq] at hnew
  obtain ⟨hqtail, hqout⟩ : q ≠ P.tail ∧ q ∉ itemStarts P.startAddr (pre ++ c.join d :: post) := by
    obtain ⟨htail, hnodup⟩ := List.nodup_cons.mp hnew
    constructor
    · rintro rfl
      exact htail (List.mem_append_right _ List.mem_cons_self)
    · rw [starts_join, hq]
      exact (List.nodup_cons.mp (List.perm_middle.nodup_iff.mp hnodup)).1
  have hring : Segment v.items P.tail (itemStarts P.startAddr pre ++ (P.startAddr + itemSpan pre) ::
      itemStarts (q + (24 + d.size)) post) P.tail := by
    have hold := h.itemRing
    rwa [starts_join, hq, List.append_assoc, List.singleton_append] at hold
  have hnodup := h.tail_nodup
  rw [starts_join, hq, List.append_assoc, List.singleton_append] at hnodup hqout
  refine ⟨hfull, ?_, h.freeRing, h.freeNodup, spread_node hfull fun p hp => hsub p (hin p hp),
    fun x hx => ?_, ?_, fun p hp => ?_⟩
  · rw [starts_pair, hq, List.append_assoc, List.singleton_append]
    exact hring.insertAfter_mid hnodup (List.nodup_cons.mp hnodup).1
      (fun hmem => (List.mem_cons.mp hmem).elim hqtail hqout) hqtail
  · have hold (hne : x.1 ≠ q) {y : MemItem} (hy : y.used = x.2.used)
        (hmem : (x.1, y) ∈ placed P.startAddr (pre ++ c.join d :: post)) :
        Function.update (v .magic) q rtMemheapMagic x.1 = rtMemheapMagic + x.2.used.toNat := by
      rw [Function.update_of_ne hne, ← hy]
      exact h.magic _ hmem
    have hne {x : Nat × MemItem} (hx : x.1 ∈ itemStarts P.startAddr (pre ++ c.join d :: post)) :
        x.1 ≠ q := by
      rintro rfl
      rw [starts_join, hq, List.append_assoc, List.singleton_append] at hx
      exact hqout hx
    have hbase : P.startAddr + itemSpan pre + (24 + (c.join d).size) = q + (24 + d.size) := by
      rw [← hq]
      unfold MemItem.join
      dsimp only
      omega
    rw [placed_append, placed_cons, placed_cons, hq] at hx
    rcases List.mem_append.mp hx with hx | hx
    · have hmem : x ∈ placed P.startAddr (pre ++ c.join d :: post) := by
        rw [placed_append]
        exact List.mem_append_left _ hx
      exact hold (hne (List.mem_map_of_mem hmem)) rfl hmem
    rcases List.mem_cons.mp hx with rfl | hx
    · exact hold (hne (x := (_, c)) mem_itemStarts_mid) (y := c.join d) rfl mem_placed_mid
    rcases List.mem_cons.mp hx with rfl | hx
    · rw [hd]
      exact Function.update_self ..
    · have hmem : x ∈ placed P.startAddr (pre ++ c.join d :: post) := by
        rw [placed_append, placed_cons, hbase]
        exact List.mem_append_right _ (List.mem_cons_of_mem _ hx)
      exact hold (hne (List.mem_map_of_mem hmem)) rfl hmem
  · exact (Function.update_of_ne hqtail.symm ..).trans h.tailMagic
  · by_cases hpq : p = q
    · subst hpq
      exact Function.update_self ..
    · refine (Function.update_of_ne hpq ..).trans (h.poolPtr p ?_)
      rw [starts_pair, hq] at hp
      rw [starts_join, hq]
      rcases List.mem_append.mp hp with hp | hp
      · exact List.mem_append_left _ hp
      · exact List.mem_append_right _ ((List.mem_cons.mp hp).resolve_left hpq)

end Laid

/-! ## Reading the headers -/

section Reading

variable {P : Pool} {m : ByteMemory} {items pre post : List MemItem} {frees front rest : List Nat}
  {c d : MemItem} {a : Nat}

/-- `next` leads to the end of an item. -/
theorem getField_next (h : Laid P (getField m) (pre ++ c :: post) frees) :
    getField m .next (P.startAddr + itemSpan pre) =
      P.startAddr + itemSpan pre + (24 + c.size) := by
  have hring := h.itemRing
  rw [itemStarts_mid] at hring
  have hrest := (Segment.append_iff.mp hring).2
  cases post with
  | nil =>
    have htail := h.tail_eq
    rw [itemSpan_append, itemSpan_cons, itemSpan_nil] at htail
    refine hrest.1.trans (htail.trans ?_)
    omega
  | cons d post => exact hrest.1.1

/-- `prev` leads to the item in front of an item. -/
theorem getField_prev (h : Laid P (getField m) (pre ++ c :: d :: post) frees) :
    getField m .prev (P.startAddr + itemSpan pre + (24 + c.size)) = P.startAddr + itemSpan pre := by
  have hring := h.itemRing
  rw [Laid.starts_pair, List.append_assoc, List.singleton_append] at hring
  exact (Segment.append_iff.mp hring).2.1.2

/-- In front of the first item there is the tail. -/
theorem getField_prev_first (h : Laid P (getField m) (c :: post) frees) :
    getField m .prev P.startAddr = P.tail := h.itemRing.1.2

/-- `MEMITEM_SIZE` is the size of the item. -/
theorem memitemSize_eq (h : Laid P (getField m) (pre ++ c :: post) frees) :
    memitemSize m (P.startAddr + itemSpan pre) = c.size := by
  have htail := h.tail_eq
  have hfits := P.tail_fits
  rw [itemSpan_append, itemSpan_cons] at htail
  unfold memitemSize rtMemheapSize
  have hspan : sub32 (P.startAddr + itemSpan pre + (24 + c.size)) (P.startAddr + itemSpan pre) =
      24 + c.size := (sub32_of_le (by omega) (by omega)).trans (by omega)
  rw [getField_next h, hspan, sub32_of_le (by omega) (by omega), Nat.add_sub_cancel_left]

/-- The magic word says whether an item is in use. -/
theorem getField_magic (h : Laid P (getField m) (pre ++ c :: post) frees) :
    getField m .magic (P.startAddr + itemSpan pre) = rtMemheapMagic + c.used.toNat :=
  h.magic (_, c) mem_placed_mid

/-- The mark is read back from the magic word. -/
theorem isUsed_of_magic {p : Nat} {used : Bool}
    (h : getField m .magic p = rtMemheapMagic + used.toNat) : rtMemheapIsUsed m p = used := by
  rw [rtMemheapIsUsed, h]
  cases used <;> rfl

theorem rtMemheapIsUsed_eq (h : Laid P (getField m) (pre ++ c :: post) frees) :
    rtMemheapIsUsed m (P.startAddr + itemSpan pre) = c.used := isUsed_of_magic (getField_magic h)

theorem rtMemheapIsUsed_tail (h : Laid P (getField m) items frees) :
    rtMemheapIsUsed m P.tail = true := isUsed_of_magic h.tailMagic

theorem getField_poolPtr (h : Laid P (getField m) (pre ++ c :: post) frees) :
    getField m .poolPtr (P.startAddr + itemSpan pre) = P.self := h.poolPtr _ mem_itemStarts_mid

end Reading

/-! ## The groups of stores as edits -/

section Edits

variable {P : Pool} {m : ByteMemory} {items pre post : List MemItem} {frees front rest : List Nat}
  {c d : MemItem} {a : Nat}

/-- An item that leaves the free list. -/
theorem laid_unlinkFree (h : Laid P (getField m) items (front ++ a :: rest)) :
    Laid P (getField (unlinkFree m a)) items (front ++ rest) := by
  have ha : a ∈ front ++ a :: rest := List.mem_append_right front List.mem_cons_self
  refine h.bypassFree.of_agree (agree_unlinkFree h.spread (Agree.refl _ m) (Laid.node_free ha)
    (h.node_nextFree (List.mem_cons_of_mem _ ha)) (h.node_prevFree ha)) fun p hp => ?_
  rcases hp with hp | hp | hp | hp
  · exact .inl hp
  · exact .inr (.inl hp)
  · exact Laid.node_item hp
  · refine Laid.node_free ?_
    rcases List.mem_append.mp hp with hp | hp
    · exact List.mem_append_left _ hp
    · exact List.mem_append_right _ (List.mem_cons_of_mem a hp)

theorem laid_pushFree (h : Laid P (getField m) items frees)
    (ha : a ∈ itemStarts P.startAddr items) (hout : a ∉ frees) :
    Laid P (getField (pushFree P.freeList m a)) items (a :: frees) := by
  have hnext : a ≠ getField m .nextFree P.freeList := by
    intro heq
    rcases List.mem_append.mp (h.freeRing.next_mem List.mem_cons_self) with hin | hin
    · exact hout (Eq.mpr (congrArg (· ∈ frees) heq) hin)
    · have hself : a = P.freeList := heq.trans (List.mem_singleton.mp hin)
      exact h.freeList_not_item (hself ▸ ha)
  refine (h.insertFree ha hout).of_agree (agree_pushFree h.spread (Agree.refl _ m)
    (Laid.node_item ha) Laid.node_freeList (h.node_nextFree List.mem_cons_self) hnext)
    fun p hp => ?_
  rcases hp with hp | hp | hp | hp
  · exact .inl hp
  · exact .inr (.inl hp)
  · exact Laid.node_item hp
  · rcases List.mem_cons.mp hp with rfl | hp
    · exact Laid.node_item ha
    · exact Laid.node_free hp

/-- The free links of an item that is not on the list do not matter. -/
theorem laid_clearFree (h : Laid P (getField m) items frees)
    (ha : a ∈ itemStarts P.startAddr items) (hout : a ∉ frees) :
    Laid P (getField (clearFree m a)) items frees :=
  (h.clear ha hout).of_agree (agree_clearFree h.spread (Agree.refl _ m) (Laid.node_item ha))
    fun _ hp => hp

/-- The magic number is written with the mark that is asked for. -/
theorem laid_mark (h : Laid P (getField m) (pre ++ c :: post) frees) {x : Nat} {used : Bool}
    (hx : x = rtMemheapMagic + used.toNat) :
    Laid P (getField (setField m .magic (P.startAddr + itemSpan pre) x))
      (pre ++ c.mark used :: post) frees := by
  subst hx
  refine (h.mark used).of_agree ((Agree.refl _ m).store h.spread
    (Laid.node_item mem_itemStarts_mid) (by cases used <;> decide)) fun p hp => ?_
  unfold Node at hp ⊢
  rwa [itemStarts_mid] at hp ⊢

/-- An item that is bypassed is joined with the one before it. -/
theorem laid_join {m' : ByteMemory} (h : Laid P (getField m) (pre ++ c :: d :: post) frees)
    (hm : Agree (Node P (pre ++ c :: d :: post) frees) m' (ItemView.withItems (getField m)
      ((ItemView.items (getField m)).bypass (P.startAddr + itemSpan pre + (24 + c.size))))) :
    Laid P (getField m') (pre ++ c.join d :: post) frees := by
  refine h.join.of_agree hm fun p hp => ?_
  rcases hp with hp | hp | hp | hp
  · exact .inl hp
  · exact .inr (.inl hp)
  · refine Laid.node_item ?_
    rw [Laid.starts_join] at hp
    rw [Laid.starts_pair]
    rcases List.mem_append.mp hp with hp | hp
    · exact List.mem_append_left _ hp
    · exact List.mem_append_right _ (List.mem_cons_of_mem _ hp)
  · exact Laid.node_free hp

/-- The second of two neighbours. -/
theorem mem_itemStarts_second :
    P.startAddr + itemSpan pre + (24 + c.size) ∈
      itemStarts P.startAddr (pre ++ c :: d :: post) := by
  rw [Laid.starts_pair]
  exact List.mem_append_right _ List.mem_cons_self

theorem laid_unlinkItem (h : Laid P (getField m) (pre ++ c :: d :: post) frees) :
    Laid P (getField (unlinkItem m (P.startAddr + itemSpan pre + (24 + c.size))))
      (pre ++ c.join d :: post) frees :=
  laid_join h (agree_unlinkItem h.spread (Agree.refl _ m) (Laid.node_item mem_itemStarts_second)
    (h.node_next mem_itemStarts_second) (h.node_prev mem_itemStarts_second))

theorem laid_unlinkItemNext (h : Laid P (getField m) (pre ++ c :: d :: post) frees) :
    Laid P (getField (unlinkItemNext m (P.startAddr + itemSpan pre + (24 + c.size))))
      (pre ++ c.join d :: post) frees :=
  laid_join h (agree_unlinkItemNext h.spread (Agree.refl _ m)
    (Laid.node_item mem_itemStarts_second) (h.node_next mem_itemStarts_second)
    (h.node_prev mem_itemStarts_second))

theorem laid_absorbNext (h : Laid P (getField m) (pre ++ c :: d :: post) frees) :
    Laid P (getField (absorbNext m (P.startAddr + itemSpan pre))) (pre ++ c.join d :: post) frees :=
  laid_join h (agree_absorbNext h.spread (Agree.refl _ m) (Laid.node_item mem_itemStarts_mid)
    (Laid.node_item mem_itemStarts_second) (getField_next h) (getField_prev h)
    (h.node_next mem_itemStarts_second))

/-- An item is split where its first part ends. -/
theorem laid_linkItem (h : Laid P (getField m) (pre ++ c.join d :: post) frees)
    (hd : d.used = false)
    (hin : ∀ p ∈ frees, p ∈ itemStarts P.startAddr (pre ++ c.join d :: post)) :
    Laid P (getField (linkItem P.self m (P.startAddr + itemSpan pre)
      (P.startAddr + itemSpan pre + (24 + c.size)))) (pre ++ c :: d :: post) frees := by
  have hnew := h.split hd hin
  have hsub : ∀ p, Node P (pre ++ c.join d :: post) frees p →
      Node P (pre ++ c :: d :: post) frees p := by
    intro p hp
    rcases hp with hp | hp | hp | hp
    · exact .inl hp
    · exact .inr (.inl hp)
    · refine Laid.node_item ?_
      rw [Laid.starts_join] at hp
      rw [Laid.starts_pair]
      rcases List.mem_append.mp hp with hp | hp
      · exact List.mem_append_left _ hp
      · exact List.mem_append_right _ (List.mem_cons_of_mem _ hp)
    · exact Laid.node_free hp
  refine hnew.of_agree (agree_linkItem hnew.spread (Agree.refl _ m) P.self_lt
    (Laid.node_item mem_itemStarts_mid) (Laid.node_item mem_itemStarts_second) (by omega)
    (hsub _ (h.node_next mem_itemStarts_mid)) ?_) fun _ hp => hp
  have hlarge := d.large
  rw [getField_next h]
  unfold MemItem.join
  dsimp only
  omega

/-- What is written to the data of an item does not matter. -/
theorem laid_data {m' : ByteMemory} (h : Laid P (getField m) (pre ++ c :: post) frees)
    (hin : ∀ p ∈ frees, p ∈ itemStarts P.startAddr (pre ++ c :: post))
    (hm : ∀ x, x < P.startAddr + itemSpan pre + 24 ∨
      P.startAddr + itemSpan pre + (24 + c.size) ≤ x → m' x = m x) :
    Laid P (getField m') (pre ++ c :: post) frees := by
  refine h.congr fun f p hp => getField_congr (fun x hx hlt => hm x ?_) f
  have htail := h.tail_eq
  have hfull := h.full
  have hle := P.poolSize_le
  have houtside := P.outside
  rw [itemSpan_append, itemSpan_cons] at htail hfull
  have hitem (hp : p ∈ itemStarts P.startAddr (pre ++ c :: post)) :
      x < P.startAddr + itemSpan pre + 24 ∨ P.startAddr + itemSpan pre + (24 + c.size) ≤ x := by
    obtain ⟨y, hy, rfl⟩ := List.mem_map.mp hp
    by_cases hat : P.startAddr + itemSpan pre = y.1
    · exact .inl (hat ▸ hlt)
    · have hmid : (P.startAddr + itemSpan pre, c) ∈ placed P.startAddr (pre ++ c :: post) :=
        mem_placed_mid
      rcases placed_apart hmid hy hat with hbehind | hbefore
      · exact .inr (by dsimp only at hbehind; omega)
      · exact .inl (by dsimp only at hbefore; omega)
  rcases hp with rfl | rfl | hp | hp
  · omega
  · omega
  · exact hitem hp
  · exact hitem (hin p hp)

end Edits

end RtVcom.Kernel

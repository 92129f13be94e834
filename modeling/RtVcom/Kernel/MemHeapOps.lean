import Mathlib.Data.List.Chain
import RtVcom.Kernel.MemHeapShape

/-!
# The operations of a memory heap

What holds of a heap whenever its semaphore is released (`MemHeap.Sound`), and what each operation
does to its row of items: an item is taken whole or its front is (`sound_takeWhole`,
`sound_takeFront`), an item grows into the free one behind it (`sound_expand`), its end is split off
(`sound_shrink`), an item is freed and joined with its free neighbours (`sound_free`). Each of them
is a few edits of `MemHeapShape`, one after the other, and the count of the free bytes that goes
with them.
-/

namespace RtVcom.Kernel

open RtVcom.Lib

/-! ## Counting the items -/

/-- Where the free items begin. -/
def freeStarts : Nat → List MemItem → List Nat
  | _, [] => []
  | a, c :: items =>
    if c.used then freeStarts (a + (24 + c.size)) items
    else a :: freeStarts (a + (24 + c.size)) items

/-- The data of the items in use: where it begins, and its size. -/
def regions : Nat → List MemItem → List (Nat × Nat)
  | _, [] => []
  | a, c :: items =>
    if c.used then (a + 24, c.size) :: regions (a + (24 + c.size)) items
    else regions (a + (24 + c.size)) items

/-- The bytes of the free items, without the headers. -/
def freeBytes : List MemItem → Nat
  | [] => 0
  | c :: items => (if c.used then 0 else c.size) + freeBytes items

section Counting

variable {a p : Nat} {used : Bool} {c d : MemItem} {items xs ys pre post : List MemItem}

@[simp] theorem MemItem.mark_size : (c.mark used).size = c.size := rfl
@[simp] theorem MemItem.mark_used : (c.mark used).used = used := rfl
@[simp] theorem MemItem.join_size : (c.join d).size = c.size + 24 + d.size := rfl
@[simp] theorem MemItem.join_used : (c.join d).used = c.used := rfl

theorem join_end : a + (24 + (c.join d).size) = a + (24 + c.size) + (24 + d.size) := by
  rw [MemItem.join_size]
  omega

/-- The free items of two rows of items. -/
theorem freeStarts_append :
    freeStarts a (xs ++ ys) = freeStarts a xs ++ freeStarts (a + itemSpan xs) ys := by
  induction xs generalizing a with
  | nil => rfl
  | cons c xs ih =>
    rw [List.cons_append, freeStarts, freeStarts, ih, itemSpan_cons, Nat.add_assoc]
    split <;> rfl

theorem freeStarts_used (h : c.used = true) :
    freeStarts a (c :: items) = freeStarts (a + (24 + c.size)) items := if_pos h

theorem freeStarts_free (h : c.used = false) :
    freeStarts a (c :: items) = a :: freeStarts (a + (24 + c.size)) items :=
  if_neg (h ▸ Bool.false_ne_true)

/-- The regions of two rows of items. -/
theorem regions_append : regions a (xs ++ ys) = regions a xs ++ regions (a + itemSpan xs) ys := by
  induction xs generalizing a with
  | nil => rfl
  | cons c xs ih =>
    rw [List.cons_append, regions, regions, ih, itemSpan_cons, Nat.add_assoc]
    split <;> rfl

/-- An item in use has a region behind its header. -/
theorem regions_used (h : c.used = true) :
    regions a (c :: items) = (a + 24, c.size) :: regions (a + (24 + c.size)) items := if_pos h

theorem regions_free (h : c.used = false) :
    regions a (c :: items) = regions (a + (24 + c.size)) items := if_neg (h ▸ Bool.false_ne_true)

/-- The free starts are those of the placed items that are free. -/
theorem freeStarts_eq :
    freeStarts a items = ((placed a items).filter fun x => !x.2.used).map Prod.fst := by
  induction items generalizing a with
  | nil => rfl
  | cons c items ih =>
    rw [placed_cons, List.filter_cons]
    cases hc : c.used with
    | true => rw [freeStarts_used hc, ih]; rfl
    | false => rw [freeStarts_free hc, ih]; rfl

theorem mem_freeStarts :
    p ∈ freeStarts a items ↔ ∃ x ∈ placed a items, x.1 = p ∧ x.2.used = false := by
  rw [freeStarts_eq, List.mem_map]
  constructor
  · rintro ⟨x, hmem, rfl⟩
    obtain ⟨hmem, hused⟩ := List.mem_filter.mp hmem
    exact ⟨x, hmem, rfl, Bool.not_eq_true' _ ▸ hused⟩
  · rintro ⟨x, hmem, rfl, hused⟩
    exact ⟨x, List.mem_filter.mpr ⟨hmem, by rw [hused]; rfl⟩, rfl⟩

/-- A region belongs to a placed item in use. -/
theorem mem_regions {x : Nat × Nat} :
    x ∈ regions a items ↔
      ∃ y ∈ placed a items, y.2.used = true ∧ x = (y.1 + 24, y.2.size) := by
  induction items generalizing a with
  | nil => exact iff_of_false List.not_mem_nil fun ⟨_, hmem, _⟩ => List.not_mem_nil hmem
  | cons c items ih =>
    rw [placed_cons]
    simp only [List.mem_cons, or_and_right, exists_or, exists_eq_left]
    rw [← ih]
    cases hc : c.used with
    | true => rw [regions_used hc, List.mem_cons, and_iff_right rfl]
    | false =>
      rw [regions_free hc]
      exact (or_iff_right fun h => absurd h.1 Bool.false_ne_true).symm

theorem freeStarts_sublist : (freeStarts a items).Sublist (itemStarts a items) := by
  rw [freeStarts_eq, itemStarts]
  exact List.filter_sublist.map _

/-- A region splits the row at its item. -/
theorem regions_split {x : Nat × Nat} (h : x ∈ regions a items) : ∃ pre c post,
    items = pre ++ c :: post ∧ c.used = true ∧ x = (a + itemSpan pre + 24, c.size) := by
  obtain ⟨y, hmem, hused, rfl⟩ := mem_regions.mp h
  obtain ⟨pre, post, hitems, hat⟩ := placed_split hmem
  exact ⟨pre, y.2, post, hitems, hused, by rw [hat]⟩

theorem freeStarts_split (h : p ∈ freeStarts a items) : ∃ pre c post,
    items = pre ++ c :: post ∧ c.used = false ∧ p = a + itemSpan pre := by
  obtain ⟨x, hmem, rfl, hused⟩ := mem_freeStarts.mp h
  obtain ⟨pre, post, hitems, hat⟩ := placed_split hmem
  exact ⟨pre, x.2, post, hitems, hused, hat⟩

theorem mem_itemStarts_of_free (h : p ∈ freeStarts a items) : p ∈ itemStarts a items :=
  freeStarts_sublist.subset h

theorem freeStarts_nodup : (freeStarts a items).Nodup := itemStarts_nodup.sublist freeStarts_sublist

/-- Every item takes 36 bytes at least. -/
theorem length_freeStarts : 36 * (freeStarts a items).length ≤ itemSpan items := by
  induction items generalizing a with
  | nil => exact Nat.le_refl 0
  | cons c items ih =>
    have hlarge := c.large
    have hrest := @ih (a + (24 + c.size))
    rw [itemSpan_cons]
    cases hc : c.used with
    | true =>
      rw [freeStarts_used hc]
      omega
    | false =>
      rw [freeStarts_free hc, List.length_cons]
      omega

/-- The free bytes of two rows add up. -/
theorem freeBytes_append : freeBytes (xs ++ ys) = freeBytes xs + freeBytes ys := by
  induction xs with
  | nil => exact (Nat.zero_add _).symm
  | cons c xs ih => rw [List.cons_append, freeBytes, freeBytes, ih, Nat.add_assoc]

theorem freeBytes_used (h : c.used = true) : freeBytes (c :: items) = freeBytes items := by
  rw [freeBytes, if_pos h, Nat.zero_add]

theorem freeBytes_free (h : c.used = false) :
    freeBytes (c :: items) = c.size + freeBytes items := by
  rw [freeBytes, h, if_neg Bool.false_ne_true]

/-- There are no more free bytes than bytes. -/
theorem freeBytes_le : freeBytes items ≤ itemSpan items := by
  induction items with
  | nil => exact Nat.le_refl 0
  | cons c items ih =>
    rw [freeBytes, itemSpan_cons]
    split <;> omega

/-- Two free items do not lie side by side. -/
def Scattered (items : List MemItem) : Prop :=
  items.IsChain fun c d => c.used = true ∨ d.used = true

/-- Around an item in use, anything may lie. -/
theorem scattered_used (h : c.used = true) :
    Scattered (pre ++ c :: post) ↔ Scattered pre ∧ Scattered post := by
  unfold Scattered
  rw [List.isChain_append, List.isChain_cons]
  constructor
  · exact fun ⟨hpre, ⟨_, hpost⟩, _⟩ => ⟨hpre, hpost⟩
  · refine fun ⟨hpre, hpost⟩ => ⟨hpre, ⟨fun _ _ => .inl h, hpost⟩, fun _ _ d hd => .inr ?_⟩
    cases hd
    exact h

/-- Around a free item, the items are in use. -/
theorem scattered_free (h : c.used = false) :
    Scattered (pre ++ c :: post) ↔ Scattered pre ∧ Scattered post ∧
      (∀ b ∈ pre.getLast?, b.used = true) ∧ ∀ d ∈ post.head?, d.used = true := by
  have hne : ¬c.used = true := h ▸ Bool.false_ne_true
  unfold Scattered
  rw [List.isChain_append, List.isChain_cons]
  constructor
  · intro ⟨hpre, ⟨hhead, hpost⟩, hlast⟩
    exact ⟨hpre, hpost, fun b hb => (hlast b hb c rfl).resolve_right hne,
      fun d hd => (hhead d hd).resolve_left hne⟩
  · intro ⟨hpre, hpost, hlast, hhead⟩
    refine ⟨hpre, ⟨fun d hd => .inr (hhead d hd), hpost⟩, fun b hb d hd => ?_⟩
    exact .inl (hlast b hb)

end Counting

/-- The maximum of a record with one more entry. -/
theorem max?_cons_of_eq {u m : Nat} {record : List Nat} (h : record.max? = some m) :
    (u :: record).max? = some (max u m) := by
  rw [List.max?_cons, h]
  rfl

/-! ## The variables of a heap -/

namespace MemHeap

variable (h : MemHeap) (n : Nat) (f : ByteMemory → ByteMemory)

@[simp] theorem onMemory_pool : (h.onMemory f).pool = h.pool := rfl
@[simp] theorem onMemory_memory : (h.onMemory f).memory = f h.memory := rfl
@[simp] theorem onMemory_availableSize : (h.onMemory f).availableSize = h.availableSize := rfl
@[simp] theorem onMemory_maxUsedSize : (h.onMemory f).maxUsedSize = h.maxUsedSize := rfl
@[simp] theorem onMemory_usedRecord : (h.onMemory f).usedRecord = h.usedRecord := rfl
@[simp] theorem onMemory_used : (h.onMemory f).used = h.used := rfl

@[simp] theorem rtSemRelease_pool : h.rtSemRelease.pool = h.pool := rfl

/-- `account` changes the count of the free bytes and the record only. -/
theorem account_eq : h.account n =
    { h with
      availableSize := n
      maxUsedSize := max h.maxUsedSize (sub32 h.pool.poolSize n) } := by
  unfold account used
  dsimp only
  by_cases hlt : h.maxUsedSize < sub32 h.pool.poolSize n
  · rw [if_pos hlt, Nat.max_eq_right (Nat.le_of_lt hlt)]
  · rw [if_neg hlt, Nat.max_eq_left (Nat.le_of_not_lt hlt)]

@[simp] theorem account_pool : (h.account n).pool = h.pool := by rw [account_eq]
@[simp] theorem account_memory : (h.account n).memory = h.memory := by rw [account_eq]
@[simp] theorem account_availableSize : (h.account n).availableSize = n := by rw [account_eq]
@[simp] theorem account_usedRecord : (h.account n).usedRecord = h.usedRecord := by rw [account_eq]

/-- `max_used_size` is raised to what is now in use. -/
@[simp]
theorem account_maxUsedSize :
    (h.account n).maxUsedSize = max h.maxUsedSize (h.account n).used := by
  rw [account_eq, used]

/-! `markFree` gives back the data of an item. -/

/-- `markFree` writes the mark and nothing else. -/
theorem markFree_eq (p : Nat) : h.markFree p =
    { pool := h.pool
      availableSize := add32 h.availableSize (memitemSize
        (setField h.memory .magic p (getField h.memory .magic p &&& 0xfffffffe)) p)
      maxUsedSize := h.maxUsedSize
      memory := setField h.memory .magic p (getField h.memory .magic p &&& 0xfffffffe)
      usedRecord := h.usedRecord } := rfl

/-- What holds of a heap whenever its semaphore is released. -/
structure Sound (h : MemHeap) (items : List MemItem) (frees : List Nat) : Prop where
  laid : Laid h.pool (getField h.memory) items frees
  freePerm : frees.Perm (freeStarts h.pool.startAddr items)
  scattered : Scattered items
  available : h.availableSize = freeBytes items
  greatest : h.usedRecord.max? = some h.maxUsedSize
  used_le : h.used ≤ h.maxUsedSize

namespace Sound

variable {h h' : MemHeap} {items items' pre post : List MemItem} {frees frees' : List Nat}
  {c d : MemItem} {p : Nat}

/-- What is on the free list is the start of an item. -/
theorem free_isItem (hs : h.Sound items frees) :
    ∀ p ∈ frees, p ∈ itemStarts h.pool.startAddr items :=
  fun _ hp => mem_itemStarts_of_free (hs.freePerm.mem_iff.mp hp)

theorem lt_word (h : MemHeap) : h.pool.poolSize < 0x100000000 := by
  have hfits := h.pool.poolSize_fits
  omega

/-- The free bytes leave room for the last header. -/
theorem available_le (hs : h.Sound items frees) : h.availableSize + 24 ≤ h.pool.poolSize := by
  have hfree := @freeBytes_le items
  have hfull := hs.laid.full
  rw [hs.available]
  omega

/-- Where an operation releases the semaphore. -/
theorem release (hs : h.Sound items frees) (hpool : h'.pool = h.pool)
    (hrecord : h'.usedRecord = h.usedRecord) (hmax : h'.maxUsedSize = max h.maxUsedSize h'.used)
    (hlaid : Laid h.pool (getField h'.memory) items' frees')
    (hperm : frees'.Perm (freeStarts h.pool.startAddr items'))
    (hscattered : Scattered items') (havailable : h'.availableSize = freeBytes items') :
    h'.rtSemRelease.Sound items' frees' where
  laid := hpool ▸ hlaid
  freePerm := hpool ▸ hperm
  scattered := hscattered
  available := havailable
  greatest := by
    have hgreatest : h'.usedRecord.max? = some h.maxUsedSize := hrecord ▸ hs.greatest
    have hraised : max h'.used h.maxUsedSize = h'.maxUsedSize := (Nat.max_comm ..).trans hmax.symm
    exact (max?_cons_of_eq hgreatest).trans (congrArg some hraised)
  used_le := by
    change h'.used ≤ h'.maxUsedSize
    rw [hmax]
    exact Nat.le_max_right ..

/-- Where bytes were given back, less is in use than before. -/
theorem max_of_le (hs : h.Sound items frees) (hpool : h'.pool = h.pool)
    (hmax : h'.maxUsedSize = h.maxUsedSize) (hle : h.availableSize ≤ h'.availableSize)
    (hfit : h'.availableSize ≤ h.pool.poolSize) :
    h'.maxUsedSize = max h.maxUsedSize h'.used := by
  have hword := lt_word h
  have hold := hs.used_le
  have hless : h'.used ≤ h.used := by
    unfold used
    rw [hpool, sub32_of_le hfit hword, sub32_of_le (Nat.le_trans hle hfit) hword]
    omega
  rw [hmax, Nat.max_eq_left (Nat.le_trans hless hold)]

end Sound

end MemHeap

/-! ## Taking an item -/

section Lists

variable {front rest xs ys : List Nat} {a : Nat}

theorem perm_drop (h : (front ++ a :: rest).Perm (xs ++ a :: ys)) :
    (front ++ rest).Perm (xs ++ ys) :=
  ((List.perm_middle.symm.trans h).trans List.perm_middle).cons_inv

theorem perm_drop_second {b : Nat} (h : (front ++ b :: rest).Perm (xs ++ a :: b :: ys)) :
    (front ++ rest).Perm (xs ++ a :: ys) := by
  have hsplit : (front ++ b :: rest).Perm ((xs ++ [a]) ++ b :: ys) := by
    rwa [← List.append_cons]
  rw [List.append_cons]
  exact perm_drop hsplit

theorem perm_put (h : rest.Perm (xs ++ ys)) : (a :: rest).Perm (xs ++ a :: ys) :=
  (h.cons a).trans List.perm_middle.symm

/-- What is in a list without repetition is not in the rest of it. -/
theorem not_mem_of_nodup {b : Nat} (h : (b :: (front ++ a :: rest)).Nodup) : a ∉ front ++ rest :=
  (List.nodup_cons.mp (List.perm_middle.nodup_iff.mp (List.nodup_cons.mp h).2)).1

end Lists

/-- No item begins inside of another one. -/
theorem inside_not_start {a q : Nat} {c : MemItem} {pre post : List MemItem}
    (hle : a + itemSpan pre < q) (hlt : q < a + itemSpan pre + (24 + c.size)) :
    q ∉ itemStarts a (pre ++ c :: post) := by
  rw [itemStarts_mid]
  intro hmem
  rcases List.mem_append.mp hmem with hmem | hmem
  · have := itemStarts_bounds hmem
    omega
  · rcases List.mem_cons.mp hmem with heq | hmem
    · omega
    · have := itemStarts_bounds hmem
      omega

namespace MemHeap

variable {h : MemHeap} {items pre post : List MemItem} {frees front rest : List Nat}
  {c d e : MemItem} {a size : Nat}

/-- The items end in the address space. -/
theorem Sound.span_lt (hs : h.Sound items frees) :
    h.pool.startAddr + itemSpan items + 24 ≤ 0x100000000 := by
  have htail := hs.laid.tail_eq
  have hfits := h.pool.tail_fits
  omega

/-- The branch that hands out a whole item. -/
theorem takeItem_whole (h : MemHeap) (a : Nat) (hlt : c.size < size + 36)
    (hsize : size + 36 < 0x100000000) :
    h.takeItem a c.size size =
      ((h.account (sub32 h.availableSize c.size)).onMemory fun m =>
        clearFree (unlinkFree m a) a).onMemory fun m =>
          setField m .magic a (getField m .magic a ||| rtMemheapUsed) := by
  have hwhole : ¬add32 (add32 size rtMemheapSize) rtMemheapMinialloc ≤ c.size := by
    unfold rtMemheapSize rtMemheapMinialloc
    rw [add32_of_lt (a := size) (by omega), add32_of_lt (by omega)]
    omega
  unfold takeItem
  rw [if_neg hwhole]

/-- An item that is not much larger than the request is taken whole. -/
theorem sound_takeWhole (hs : h.Sound (pre ++ c :: post)
      (front ++ (h.pool.startAddr + itemSpan pre) :: rest)) (hfree : c.used = false)
    (hlt : c.size < size + 36) (hsize : size + 36 < 0x100000000) :
    (h.takeItem (h.pool.startAddr + itemSpan pre) c.size size).rtSemRelease.Sound
      (pre ++ c.mark true :: post) (front ++ rest) := by
  have hout := not_mem_of_nodup hs.laid.freeNodup
  have hcleared := laid_clearFree (laid_unlinkFree hs.laid) mem_itemStarts_mid hout
  have hmagic : _ = rtMemheapMagic + true.toNat :=
    (congrArg (· ||| rtMemheapUsed) (getField_magic hcleared)).trans (by rw [hfree]; decide)
  have hmarked := laid_mark hcleared hmagic
  have hperm := hs.freePerm
  have hscattered := (scattered_free hfree).mp hs.scattered
  have hword := Sound.lt_word h
  have havailable := hs.available
  have hle := hs.available_le
  rw [freeStarts_append, freeStarts_free hfree] at hperm
  rw [freeBytes_append, freeBytes_free hfree] at havailable
  rw [takeItem_whole h _ hlt hsize]
  refine hs.release ?_ ?_ ?_ ?_ ?_ ?_ ?_
  · rw [onMemory_pool, onMemory_pool, account_pool]
  · rw [onMemory_usedRecord, onMemory_usedRecord, account_usedRecord]
  · rw [onMemory_maxUsedSize, onMemory_maxUsedSize, account_maxUsedSize, onMemory_used,
      onMemory_used]
  · rw [onMemory_memory, onMemory_memory, account_memory]
    exact hmarked
  · rw [freeStarts_append, freeStarts_used rfl]
    exact perm_drop hperm
  · exact (scattered_used rfl).mpr ⟨hscattered.1, hscattered.2.1⟩
  · rw [onMemory_availableSize, onMemory_availableSize, account_availableSize, freeBytes_append,
      freeBytes_used rfl, havailable, sub32_of_le (by omega) (by omega)]
    omega

/-- The branch that hands out the front of an item. -/
theorem takeItem_front (h : MemHeap) {a : Nat} (hroom : a + (24 + c.size) < 0x100000000)
    (hfit : (c.join d).size < 0x100000000) :
    h.takeItem a (c.join d).size c.size =
      ((h.onMemory fun m => pushFree h.pool.freeList (clearFree (unlinkFree
        (linkItem h.pool.self m a (a + (24 + c.size))) a) a) (a + (24 + c.size))).account
          (sub32 (sub32 h.availableSize c.size) 24)).onMemory fun m =>
            setField m .magic a (getField m .magic a ||| rtMemheapUsed) := by
  have hlarge := d.large
  rw [MemItem.join_size] at hfit
  have hsplit : add32 (add32 c.size rtMemheapSize) rtMemheapMinialloc ≤ (c.join d).size := by
    unfold rtMemheapSize rtMemheapMinialloc
    rw [add32_of_lt (a := c.size) (by omega), add32_of_lt (by omega), MemItem.join_size]
    omega
  have hnew : add32 (add32 a c.size) rtMemheapSize = a + (24 + c.size) := by
    unfold rtMemheapSize
    rw [add32_of_lt (a := a) (by omega), add32_of_lt (by omega)]
    omega
  unfold takeItem
  rw [if_pos hsplit, hnew]
  rfl

/-- The front of a larger item is taken, and what is left of it is a free item. -/
theorem sound_takeFront (hs : h.Sound (pre ++ c.join d :: post)
      (front ++ (h.pool.startAddr + itemSpan pre) :: rest)) (hfree : c.used = false)
    (hd : d.used = false) :
    (h.takeItem (h.pool.startAddr + itemSpan pre) (c.join d).size c.size).rtSemRelease.Sound
      (pre ++ c.mark true :: d :: post)
      ((h.pool.startAddr + itemSpan pre + (24 + c.size)) :: (front ++ rest)) := by
  have hjoin : (c.join d).used = false := hfree
  have hdlarge := d.large
  have hspan := hs.span_lt
  rw [itemSpan_append, itemSpan_cons, MemItem.join_size] at hspan
  have hout := not_mem_of_nodup hs.laid.freeNodup
  have hnewOut : h.pool.startAddr + itemSpan pre + (24 + c.size) ∉ front ++ rest := by
    have hnot : h.pool.startAddr + itemSpan pre + (24 + c.size) ∉
        itemStarts h.pool.startAddr (pre ++ c.join d :: post) :=
      inside_not_start (by omega) (by rw [MemItem.join_size]; omega)
    intro hmem
    refine hnot (hs.free_isItem _ ?_)
    rcases List.mem_append.mp hmem with hmem | hmem
    · exact List.mem_append_left _ hmem
    · exact List.mem_append_right _ (List.mem_cons_of_mem _ hmem)
  have hlinked := laid_linkItem hs.laid hd hs.free_isItem
  have hcleared := laid_clearFree (laid_unlinkFree hlinked) mem_itemStarts_mid hout
  have hpushed := laid_pushFree hcleared mem_itemStarts_second hnewOut
  have hmagic : _ = rtMemheapMagic + true.toNat :=
    (congrArg (· ||| rtMemheapUsed) (getField_magic hpushed)).trans (by rw [hfree]; decide)
  have hmarked := laid_mark hpushed hmagic
  have hperm := hs.freePerm
  have hscattered := (scattered_free hjoin).mp hs.scattered
  have hword := Sound.lt_word h
  have havailable := hs.available
  have hle := hs.available_le
  rw [freeStarts_append, freeStarts_free hjoin, join_end] at hperm
  rw [freeBytes_append, freeBytes_free hjoin, MemItem.join_size] at havailable
  rw [takeItem_front h (by omega) (by rw [MemItem.join_size]; omega)]
  refine hs.release ?_ ?_ ?_ ?_ ?_ ?_ ?_
  · rw [onMemory_pool, account_pool, onMemory_pool]
  · rw [onMemory_usedRecord, account_usedRecord, onMemory_usedRecord]
  · rw [onMemory_maxUsedSize, account_maxUsedSize, onMemory_used, onMemory_maxUsedSize]
  · rw [onMemory_memory, account_memory, onMemory_memory]
    exact hmarked
  · rw [freeStarts_append, freeStarts_used rfl, MemItem.mark_size,
      freeStarts_free hd]
    exact perm_put (perm_drop hperm)
  · refine (scattered_used rfl).mpr ⟨hscattered.1, ?_⟩
    have hrest : Scattered ([] ++ d :: post) := (scattered_free hd).mpr
      ⟨List.isChain_nil, hscattered.2.1, fun _ hb => absurd hb (by simp), hscattered.2.2.2⟩
    exact hrest
  · rw [onMemory_availableSize, account_availableSize, freeBytes_append, freeBytes_used rfl,
      freeBytes_free hd, havailable, sub32_of_le (b := c.size) (by omega) (by omega),
      sub32_of_le (by omega) (by omega)]
    omega

/-! ## Freeing an item -/

/-- `rt_memheap_free` under way: the item at `pre` is marked free, and `pending` is what is still to
be put in the free list. -/
structure Freeing (h : MemHeap) (pending : List Nat) (pre : List MemItem) (c : MemItem)
    (post : List MemItem) (frees : List Nat) : Prop where
  laid : Laid h.pool (getField h.memory) (pre ++ c :: post) frees
  free : c.used = false
  freePerm : (pending ++ frees).Perm (freeStarts h.pool.startAddr (pre ++ c :: post))
  available : h.availableSize = freeBytes (pre ++ c :: post)
  before : Scattered pre
  after : Scattered post

/-- Bytes are given back, and nothing else changes but the memory. -/
structure GivesBack (h h' : MemHeap) : Prop where
  pool : h'.pool = h.pool
  usedRecord : h'.usedRecord = h.usedRecord
  maxUsedSize : h'.maxUsedSize = h.maxUsedSize
  le : h.availableSize ≤ h'.availableSize

theorem GivesBack.refl (h : MemHeap) : GivesBack h h := ⟨rfl, rfl, rfl, Nat.le_refl _⟩

/-- Two steps that give back are one. -/
theorem GivesBack.trans {h h' h'' : MemHeap} (hb : GivesBack h h') (hb' : GivesBack h' h'') :
    GivesBack h h'' where
  pool := hb'.pool.trans hb.pool
  usedRecord := hb'.usedRecord.trans hb.usedRecord
  maxUsedSize := hb'.maxUsedSize.trans hb.maxUsedSize
  le := Nat.le_trans hb.le hb'.le

/-- What lies behind an item, the tail if there is none, is in use or not. -/
theorem isUsed_next {P : Pool} {m : ByteMemory}
    (hl : Laid P (getField m) (pre ++ c :: post) frees) :
    rtMemheapIsUsed m (P.startAddr + itemSpan pre + (24 + c.size)) =
      post.head?.all MemItem.used := by
  cases post with
  | nil =>
    have htail := hl.tail_eq
    rw [itemSpan_append, itemSpan_cons, itemSpan_nil, Nat.add_zero, ← Nat.add_assoc] at htail
    rw [← htail, rtMemheapIsUsed_tail hl]
    rfl
  | cons e post =>
    rw [List.append_cons] at hl
    have hused := rtMemheapIsUsed_eq hl
    rw [itemSpan_append, itemSpan_cons, itemSpan_nil, Nat.add_zero, ← Nat.add_assoc] at hused
    rw [hused]
    rfl

/-- What lies in front of an item, around the end if there is none. -/
theorem isUsed_prev {P : Pool} {m : ByteMemory}
    (hl : Laid P (getField m) (pre ++ c :: post) frees) :
    rtMemheapIsUsed m (getField m .prev (P.startAddr + itemSpan pre)) =
      pre.getLast?.all MemItem.used := by
  rcases List.eq_nil_or_concat pre with rfl | ⟨pre, b, rfl⟩
  · rw [itemSpan_nil, Nat.add_zero, getField_prev_first hl, rtMemheapIsUsed_tail hl]
    rfl
  · rw [List.concat_eq_append, List.append_assoc, List.singleton_append] at hl
    have hprev := getField_prev hl
    rw [List.concat_eq_append, itemSpan_append, itemSpan_cons, itemSpan_nil, Nat.add_zero,
      ← Nat.add_assoc, hprev, rtMemheapIsUsed_eq hl, List.getLast?_append_cons]
    rfl

/-- An item that was passed over still leads to the one in front of it. -/
theorem getField_prev_unlinked {P : Pool} {m : ByteMemory}
    (hl : Laid P (getField m) (pre ++ c :: d :: post) frees) :
    getField (unlinkItemNext m (P.startAddr + itemSpan pre + (24 + c.size))) .prev
      (P.startAddr + itemSpan pre + (24 + c.size)) = P.startAddr + itemSpan pre := by
  have hagree := agree_unlinkItemNext hl.spread (Agree.refl _ m)
    (Laid.node_item mem_itemStarts_second) (hl.node_next mem_itemStarts_second)
    (hl.node_prev mem_itemStarts_second)
  exact (hagree .prev _ (Laid.node_item mem_itemStarts_second)).trans
    ((update_at_self fun _ => rfl).trans (getField_prev hl))

namespace Freeing

variable {pending : List Nat}

/-- The items end in the address space. -/
theorem span_lt (hf : Freeing h pending pre c post frees) :
    h.pool.startAddr + itemSpan (pre ++ c :: post) + 24 ≤ 0x100000000 := by
  have htail := hf.laid.tail_eq
  have hfits := h.pool.tail_fits
  omega

/-- The item is joined with a free one behind it. -/
theorem mergeNext (hf : Freeing h pending pre c post frees)
    (ha : a = h.pool.startAddr + itemSpan pre) (hpending : a + (24 + c.size) ∉ pending) :
    ∃ c' post' frees', Freeing (h.mergeNext a) pending pre c' post' frees' ∧
      (∀ e ∈ post'.head?, e.used = true) ∧
      (∀ b, regions b (c' :: post') = regions b (c :: post)) ∧ GivesBack h (h.mergeNext a) := by
  subst ha
  have hspan := hf.span_lt
  unfold MemHeap.mergeNext
  dsimp only
  rw [getField_next hf.laid, isUsed_next hf.laid]
  by_cases hused : post.head?.all MemItem.used = true
  · rw [if_pos hused]
    refine ⟨c, post, frees, hf, fun e he => ?_, fun _ => rfl, .refl h⟩
    rw [he] at hused
    exact hused
  · rw [if_neg hused]
    cases post with
    | nil => exact absurd rfl hused
    | cons e post =>
      have he : e.used = false := eq_false_of_ne_true hused
      have hperm := hf.freePerm
      rw [freeStarts_append, freeStarts_free hf.free, freeStarts_free he] at hperm
      have hmem : h.pool.startAddr + itemSpan pre + (24 + c.size) ∈ pending ++ frees :=
        hperm.mem_iff.mpr (List.mem_append_right _ (List.mem_cons_of_mem _ List.mem_cons_self))
      obtain ⟨front, rest, rfl⟩ :=
        List.append_of_mem ((List.mem_append.mp hmem).resolve_left hpending)
      have hjoined := laid_unlinkFree (laid_absorbNext hf.laid)
      have havailable := hf.available
      have hbytes := @freeBytes_le post
      have hfirst := @freeBytes_le pre
      rw [itemSpan_append, itemSpan_cons, itemSpan_cons] at hspan
      rw [freeBytes_append, freeBytes_free hf.free, freeBytes_free he] at havailable
      have hsum : add32 h.availableSize rtMemheapSize = h.availableSize + 24 :=
        add32_of_lt (by unfold rtMemheapSize; omega)
      refine ⟨c.join e, post, front ++ rest, ⟨hjoined, hf.free, ?_, ?_, hf.before, ?_⟩,
        ?_, ?_, rfl, rfl, rfl, ?_⟩
      · rw [← List.append_assoc] at hperm ⊢
        rw [onMemory_pool, freeStarts_append, freeStarts_free (by exact hf.free), join_end]
        exact perm_drop_second hperm
      · rw [onMemory_availableSize]
        dsimp only
        rw [hsum, freeBytes_append, freeBytes_free (by exact hf.free), MemItem.join_size,
          havailable]
        omega
      · exact (List.isChain_cons.mp hf.after).2
      · exact fun d hd => ((List.isChain_cons.mp hf.after).1 d hd).resolve_left
          (he ▸ Bool.false_ne_true)
      · intro a
        rw [regions_free (by exact hf.free), regions_free hf.free, regions_free he, join_end]
      · rw [onMemory_availableSize]
        dsimp only
        omega

/-- The item is joined with a free one in front of it, and is in the free list then. -/
theorem mergePrev (hf : Freeing h [a] pre c post frees)
    (ha : a = h.pool.startAddr + itemSpan pre) :
    ∃ h' pre' c' insert, h.mergePrev a = (h', h.pool.startAddr + itemSpan pre', insert) ∧
      Freeing h' (if insert then [h.pool.startAddr + itemSpan pre'] else []) pre' c' post frees ∧
      (∀ b ∈ pre'.getLast?, b.used = true) ∧
      (∀ b, regions b (pre' ++ c' :: post) = regions b (pre ++ c :: post)) ∧ GivesBack h h' := by
  subst ha
  have hspan := hf.span_lt
  unfold MemHeap.mergePrev
  dsimp only
  rw [isUsed_prev hf.laid]
  by_cases hused : pre.getLast?.all MemItem.used = true
  · rw [if_pos hused]
    refine ⟨h, pre, c, true, rfl, hf, fun b hb => ?_, fun _ => rfl, .refl h⟩
    rw [hb] at hused
    exact hused
  · rw [if_neg hused]
    rcases List.eq_nil_or_concat pre with rfl | ⟨pre, b, rfl⟩
    · exact absurd rfl hused
    rw [List.concat_eq_append] at hf hspan hused ⊢
    have hb : b.used = false := by
      rw [List.getLast?_concat] at hused
      exact eq_false_of_ne_true hused
    have hat : h.pool.startAddr + itemSpan (pre ++ [b]) =
        h.pool.startAddr + itemSpan pre + (24 + b.size) := by
      rw [itemSpan_append, itemSpan_cons, itemSpan_nil, Nat.add_zero, Nat.add_assoc]
    have hlaid := hf.laid
    have hperm := hf.freePerm
    have havailable := hf.available
    have hbytes := @freeBytes_le post
    have hfirst := @freeBytes_le pre
    have hscattered := (scattered_free hb).mp hf.before
    rw [← List.append_cons] at hlaid hperm havailable hspan
    rw [hat, freeStarts_append, freeStarts_free hb, freeStarts_free hf.free] at hperm
    rw [itemSpan_append, itemSpan_cons, itemSpan_cons] at hspan
    rw [freeBytes_append, freeBytes_free hb, freeBytes_free hf.free] at havailable
    have hsum : add32 h.availableSize rtMemheapSize = h.availableSize + 24 :=
      add32_of_lt (by unfold rtMemheapSize; omega)
    rw [hat, onMemory_memory]
    dsimp only
    rw [getField_prev_unlinked hlaid]
    refine ⟨_, pre, b.join c, false, rfl, ⟨laid_unlinkItemNext hlaid, hb, ?_, ?_, hscattered.1,
      hf.after⟩, hscattered.2.2.1, fun a => ?_, rfl, rfl, rfl, ?_⟩
    · rw [onMemory_pool, freeStarts_append, freeStarts_free (by exact hb), join_end]
      have hcons : ([] ++ (h.pool.startAddr + itemSpan pre + (24 + b.size)) :: frees).Perm _ :=
        hperm
      exact perm_drop_second hcons
    · rw [onMemory_availableSize]
      dsimp only
      rw [hsum, freeBytes_append, freeBytes_free (by exact hb), MemItem.join_size, havailable]
      omega
    · rw [← List.append_cons, regions_append, regions_append, regions_free (by exact hb),
        regions_free hb, regions_free hf.free, join_end]
    · rw [onMemory_availableSize]
      dsimp only
      omega

/-- The item is put in the free list. -/
theorem push (hf : Freeing h [a] pre c post frees) (ha : a = h.pool.startAddr + itemSpan pre) :
    Freeing (h.onMemory fun m => pushFree h.pool.freeList m a) [] pre c post (a :: frees) where
  laid := by
    have hnodup : (a :: frees).Nodup := hf.freePerm.nodup_iff.mpr freeStarts_nodup
    subst ha
    exact laid_pushFree hf.laid mem_itemStarts_mid (List.nodup_cons.mp hnodup).1
  free := hf.free
  freePerm := hf.freePerm
  available := hf.available
  before := hf.before
  after := hf.after

/-- Nothing is left to be done. -/
theorem release {h₀ : MemHeap} {items₀ : List MemItem} {frees₀ : List Nat}
    (hs : h₀.Sound items₀ frees₀) (hgives : GivesBack h₀ h) (hf : Freeing h [] pre c post frees)
    (hlast : ∀ b ∈ pre.getLast?, b.used = true) (hhead : ∀ d ∈ post.head?, d.used = true) :
    h.rtSemRelease.Sound (pre ++ c :: post) frees := by
  have hscattered := (scattered_free hf.free).mpr ⟨hf.before, hf.after, hlast, hhead⟩
  have hfree := @freeBytes_le (pre ++ c :: post)
  have hfull := hf.laid.full
  have hle := hgives.le
  have hfit : h.availableSize ≤ h₀.pool.poolSize := by
    rw [hf.available, ← hgives.pool]
    omega
  refine hs.release hgives.pool hgives.usedRecord
    (hs.max_of_le hgives.pool hgives.maxUsedSize hle hfit) ?_ ?_ hscattered hf.available
  · rw [← hgives.pool]
    exact hf.laid
  · rw [← hgives.pool]
    exact hf.freePerm

/-- From the mark on: the item is joined with its free neighbours, and is in the free list. -/
theorem run {h₀ : MemHeap} {items₀ : List MemItem} {frees₀ : List Nat}
    (hf : Freeing h [a] pre c post frees) (ha : a = h.pool.startAddr + itemSpan pre)
    (hs : h₀.Sound items₀ frees₀) (hgives : GivesBack h₀ h) :
    ∃ items' frees', (h.coalesce a).rtSemRelease.Sound items' frees' ∧
      (h.coalesce a).pool = h₀.pool ∧
      ∀ b, regions b items' = regions b (pre ++ c :: post) := by
  obtain ⟨h₁, pre', c', insert, hprev, hf₁, hlast, hregions₁, hgives₁⟩ := hf.mergePrev ha
  have hp : h.pool.startAddr + itemSpan pre' = h₁.pool.startAddr + itemSpan pre' := by
    rw [hgives₁.pool]
  generalize h.pool.startAddr + itemSpan pre' = p at hprev hf₁ hp
  have hfar : p + (24 + c'.size) ∉ (if insert then [p] else []) := by
    cases insert with
    | false => exact List.not_mem_nil
    | true => exact fun hmem => absurd (List.mem_singleton.mp hmem) (by omega)
  obtain ⟨c'', post', frees', hf₂, hhead, hregions₂, hgives₂⟩ := hf₁.mergeNext hp hfar
  have hall := hgives.trans (hgives₁.trans hgives₂)
  have hregions (b : Nat) : regions b (pre' ++ c'' :: post') = regions b (pre ++ c :: post) := by
    rw [← hregions₁, regions_append, regions_append, hregions₂]
  unfold coalesce
  rw [hprev]
  cases insert with
  | false => exact ⟨_, _, hf₂.release hs hall hlast hhead, hall.pool, hregions⟩
  | true =>
    have hpushed := hf₂.push (hp.trans (by rw [hgives₂.pool]))
    have hgives₃ : GivesBack h₀ ((h₁.mergeNext p).onMemory fun m =>
      pushFree (h₁.mergeNext p).pool.freeList m p) :=
        hall.trans ⟨rfl, rfl, rfl, Nat.le_refl _⟩
    exact ⟨_, _, hpushed.release hs hgives₃ hlast hhead, hall.pool, hregions⟩

end Freeing

/-- Freeing an item in use takes its region away, and no other one. -/
theorem sound_free (hs : h.Sound (pre ++ c :: post) frees) (hused : c.used = true) :
    ∃ h' items' frees', rtMemheapFree h (some (h.pool.startAddr + itemSpan pre + 24)) = some h' ∧
      h'.Sound items' frees' ∧ h'.pool = h.pool ∧
      regions h.pool.startAddr items' = regions h.pool.startAddr pre ++
        regions (h.pool.startAddr + itemSpan pre + (24 + c.size)) post := by
  have hspan := hs.span_lt
  have hword := Sound.lt_word h
  have havailable := hs.available
  have hscattered := (scattered_used hused).mp hs.scattered
  have hbytes := @freeBytes_le post
  have hfirst := @freeBytes_le pre
  have hfull := hs.laid.full
  have hperm := hs.freePerm
  rw [itemSpan_append, itemSpan_cons] at hspan hfull
  rw [freeBytes_append, freeBytes_used hused] at havailable
  rw [freeStarts_append, freeStarts_used hused] at hperm
  have hat : sub32 (h.pool.startAddr + itemSpan pre + 24) rtMemheapSize =
      h.pool.startAddr + itemSpan pre := sub32_of_le (by unfold rtMemheapSize; omega) (by omega)
  have hmagic : _ = rtMemheapMagic + false.toNat :=
    (congrArg (· &&& 0xfffffffe) (getField_magic hs.laid)).trans (by rw [hused]; decide)
  have hmarked := laid_mark hs.laid hmagic
  have hsize := memitemSize_eq hmarked
  have hsum : add32 h.availableSize (c.mark false).size = h.availableSize + c.size :=
    add32_of_lt (by rw [MemItem.mark_size]; omega)
  have hmark : GivesBack h (h.markFree (h.pool.startAddr + itemSpan pre)) := by
    rw [markFree_eq, hsize, hsum]
    exact ⟨rfl, rfl, rfl, Nat.le_add_right ..⟩
  have hfreeing : Freeing (h.markFree (h.pool.startAddr + itemSpan pre))
      [h.pool.startAddr + itemSpan pre] pre (c.mark false) post frees := by
    rw [markFree_eq, hsize, hsum]
    refine ⟨hmarked, rfl, ?_, ?_, hscattered.1, hscattered.2⟩
    · dsimp only
      rw [freeStarts_append, freeStarts_free rfl]
      exact perm_put hperm
    · dsimp only
      rw [freeBytes_append, freeBytes_free rfl, MemItem.mark_size]
      omega
  obtain ⟨items', frees', hsound, hpool, hregions⟩ := hfreeing.run (by rw [hmark.pool]) hs hmark
  refine ⟨_, items', frees', ?_, hsound, hpool, ?_⟩
  · unfold rtMemheapFree
    dsimp only
    rw [hat, getField_poolPtr hs.laid, if_neg fun hne => hne rfl]
  · rw [hregions, regions_append, regions_free rfl, MemItem.mark_size]

/-! ## Growing in place -/

/-- `expand` as the links and the account that it writes. -/
theorem expand_eq (h : MemHeap) {a q p oldsize newsize : Nat}
    (hnext : getField h.memory .next a = q)
    (hnew : add32 (add32 a rtMemheapSize) newsize = p) :
    h.expand a oldsize newsize =
      (h.account (sub32 h.availableSize (sub32 newsize oldsize))).onMemory fun m =>
        pushFree h.pool.freeList (linkItem h.pool.self (unlinkItem (unlinkFree m q) q) a p) p := by
  unfold expand
  dsimp only
  rw [hnext, hnew, account_pool]

/-- An item grows into the free one behind it, what is left of that is a free item. -/
theorem sound_expand {c' : MemItem} (hs : h.Sound (pre ++ c :: e :: post)
      (front ++ (h.pool.startAddr + itemSpan pre + (24 + c.size)) :: rest))
    (hcut : c.join e = c'.join d) (hc : c.used = true) (he : e.used = false)
    (hd : d.used = false) (hgrow : c.size ≤ c'.size) :
    (h.expand (h.pool.startAddr + itemSpan pre) c.size c'.size).rtSemRelease.Sound
      (pre ++ c' :: d :: post)
      ((h.pool.startAddr + itemSpan pre + (24 + c'.size)) :: (front ++ rest)) := by
  have hsizes : c.size + 24 + e.size = c'.size + 24 + d.size := congrArg MemItem.size hcut
  have hc' : c'.used = true := (congrArg MemItem.used hcut).symm.trans hc
  have hspan := hs.span_lt
  have hword := Sound.lt_word h
  have hle := hs.available_le
  have havailable := hs.available
  have hperm := hs.freePerm
  have hscattered := (scattered_used hc).mp hs.scattered
  have hhead := List.isChain_cons.mp hscattered.2
  rw [itemSpan_append, itemSpan_cons, itemSpan_cons] at hspan
  rw [freeBytes_append, freeBytes_used hc, freeBytes_free he] at havailable
  rw [freeStarts_append, freeStarts_used hc, freeStarts_free he] at hperm
  have hdropped := perm_drop hperm
  have hjoined := laid_unlinkItem (laid_unlinkFree hs.laid)
  rw [hcut] at hjoined
  have hbase : h.pool.startAddr + itemSpan pre + (24 + c.size) + (24 + e.size) =
      h.pool.startAddr + itemSpan pre + (24 + c'.size) + (24 + d.size) := by omega
  -- what is left in the free list are items of the row with the two joined
  have hin : ∀ p ∈ front ++ rest, p ∈ itemStarts h.pool.startAddr (pre ++ c'.join d :: post) := by
    intro p hp
    refine mem_itemStarts_of_free ?_
    rw [freeStarts_append, freeStarts_used (by exact hc'), join_end, ← hbase]
    exact hdropped.mem_iff.mp hp
  have hlinked := laid_linkItem hjoined hd hin
  have hout : h.pool.startAddr + itemSpan pre + (24 + c'.size) ∉ front ++ rest := by
    have hdlarge := d.large
    have hnot : h.pool.startAddr + itemSpan pre + (24 + c'.size) ∉
        itemStarts h.pool.startAddr (pre ++ c'.join d :: post) :=
      inside_not_start (by omega) (by rw [MemItem.join_size]; omega)
    exact fun hmem => hnot (hin _ hmem)
  have hpushed := laid_pushFree hlinked mem_itemStarts_second hout
  have hnew : add32 (add32 (h.pool.startAddr + itemSpan pre) rtMemheapSize) c'.size =
      h.pool.startAddr + itemSpan pre + (24 + c'.size) := by
    unfold rtMemheapSize
    rw [add32_of_lt (b := 24) (by omega), add32_of_lt (by omega)]
    omega
  rw [expand_eq h (getField_next hs.laid) hnew]
  refine hs.release ?_ ?_ ?_ ?_ ?_ ?_ ?_
  · rw [onMemory_pool, account_pool]
  · rw [onMemory_usedRecord, account_usedRecord]
  · rw [onMemory_maxUsedSize, account_maxUsedSize, onMemory_used]
  · rw [onMemory_memory, account_memory]
    exact hpushed
  · rw [freeStarts_append, freeStarts_used hc', freeStarts_free hd, ← hbase]
    exact perm_put hdropped
  · refine (scattered_used hc').mpr ⟨hscattered.1, List.isChain_cons.mpr ⟨fun y hy => ?_, hhead.2⟩⟩
    exact .inr ((hhead.1 y hy).resolve_left (he ▸ Bool.false_ne_true))
  · rw [onMemory_availableSize, account_availableSize, freeBytes_append, freeBytes_used hc',
      freeBytes_free hd, havailable, sub32_of_le hgrow (by omega),
      sub32_of_le (by omega) (by omega)]
    omega

/-! ## Shrinking -/

/-- The size of the item behind another one. -/
theorem memitemSize_second {P : Pool} {m : ByteMemory}
    (hl : Laid P (getField m) (pre ++ c :: d :: post) frees) :
    memitemSize m (P.startAddr + itemSpan pre + (24 + c.size)) = d.size := by
  rw [List.append_cons] at hl
  have hsize := memitemSize_eq hl
  rwa [itemSpan_append, itemSpan_cons, itemSpan_nil, Nat.add_zero, ← Nat.add_assoc] at hsize

/-- `rt_memheap_realloc` where it shrinks: the item at `pre` is free, and in no list. -/
structure Detached (h : MemHeap) (pre : List MemItem) (d : MemItem) (post : List MemItem)
    (frees : List Nat) : Prop where
  laid : Laid h.pool (getField h.memory) (pre ++ d :: post) frees
  free : d.used = false
  freePerm : frees.Perm (freeStarts h.pool.startAddr pre ++
    freeStarts (h.pool.startAddr + itemSpan pre + (24 + d.size)) post)
  available : h.availableSize = freeBytes pre + freeBytes post
  after : Scattered post

/-- It is joined with a free item behind it. -/
theorem Detached.absorbFree (hd : Detached h pre d post frees)
    (ha : a = h.pool.startAddr + itemSpan pre) :
    ∃ d' post' frees', Detached (h.absorbFree a) pre d' post' frees' ∧
      (∀ e ∈ post'.head?, e.used = true) ∧ freeBytes post ≤ d'.size + freeBytes post' ∧
      (∀ b, regions b (d' :: post') = regions b (d :: post)) ∧ (h.absorbFree a).pool = h.pool ∧
      (h.absorbFree a).usedRecord = h.usedRecord ∧
      (h.absorbFree a).maxUsedSize = h.maxUsedSize := by
  subst ha
  have htail := hd.laid.tail_eq
  have hfits := h.pool.tail_fits
  unfold MemHeap.absorbFree
  dsimp only
  rw [getField_next hd.laid, isUsed_next hd.laid]
  by_cases hused : post.head?.all MemItem.used = true
  · rw [if_pos hused]
    refine ⟨d, post, frees, hd, fun e he => ?_, Nat.le_add_left .., fun _ => rfl, rfl, rfl, rfl⟩
    rw [he] at hused
    exact hused
  · rw [if_neg hused]
    cases post with
    | nil => exact absurd rfl hused
    | cons e post =>
      have he : e.used = false := eq_false_of_ne_true hused
      have hperm := hd.freePerm
      have havailable := hd.available
      have hafter := List.isChain_cons.mp hd.after
      have hbytes := @freeBytes_le post
      have hfirst := @freeBytes_le pre
      rw [freeStarts_free he] at hperm
      rw [freeBytes_free he] at havailable ⊢
      rw [itemSpan_append, itemSpan_cons, itemSpan_cons] at htail
      obtain ⟨front, rest, rfl⟩ := List.append_of_mem
        (hperm.mem_iff.mpr (List.mem_append_right _ List.mem_cons_self))
      have hsum : sub32 h.availableSize e.size = freeBytes pre + freeBytes post :=
        (sub32_of_le (by omega) (by omega)).trans (by omega)
      rw [memitemSize_second hd.laid, hsum]
      refine ⟨d.join e, post, front ++ rest, ⟨?_, hd.free, ?_, rfl, hafter.2⟩, fun y hy => ?_, ?_,
        fun b => ?_, rfl, rfl, rfl⟩
      · exact laid_unlinkFree (laid_absorbNext hd.laid)
      · rw [onMemory_pool, join_end]
        exact perm_drop hperm
      · exact (hafter.1 y hy).resolve_left (he ▸ Bool.false_ne_true)
      · rw [MemItem.join_size]
        omega
      · rw [regions_free (by exact hd.free), regions_free hd.free, regions_free he, join_end]

/-- A detached item is not on the free list. -/
theorem Detached.not_free (hd : Detached h pre d post frees) :
    h.pool.startAddr + itemSpan pre ∉ frees := by
  intro hmem
  rcases List.mem_append.mp (hd.freePerm.mem_iff.mp hmem) with hmem | hmem
  · have := itemStarts_bounds (mem_itemStarts_of_free hmem)
    omega
  · have := itemStarts_bounds (mem_itemStarts_of_free hmem)
    omega

/-- It is put in the free list, and its bytes are given back. -/
theorem Detached.release {h₀ : MemHeap} {items₀ : List MemItem} {frees₀ : List Nat}
    (hs : h₀.Sound items₀ frees₀) (hd : Detached h pre d post frees)
    (ha : a = h.pool.startAddr + itemSpan pre) (hpool : h.pool = h₀.pool)
    (hrecord : h.usedRecord = h₀.usedRecord) (hmax : h.maxUsedSize = h₀.maxUsedSize)
    (hmore : h₀.availableSize ≤ freeBytes pre + (d.size + freeBytes post))
    (hscattered : Scattered (pre ++ d :: post)) :
    ({ pool := h.pool
       availableSize := add32 h.availableSize (memitemSize (pushFree h.pool.freeList h.memory a) a)
       maxUsedSize := h.maxUsedSize
       memory := pushFree h.pool.freeList h.memory a
       usedRecord := h.usedRecord } : MemHeap).rtSemRelease.Sound (pre ++ d :: post)
      (a :: frees) := by
  have hpushed := laid_pushFree hd.laid mem_itemStarts_mid hd.not_free
  rw [← ha] at hpushed
  have hsize : memitemSize (pushFree h.pool.freeList h.memory a) a = d.size := by
    have hat := memitemSize_eq hpushed
    rwa [← ha] at hat
  have hword := Sound.lt_word h₀
  have hbytes := @freeBytes_le post
  have hfirst := @freeBytes_le pre
  have hfull := hd.laid.full
  rw [itemSpan_append, itemSpan_cons, hpool] at hfull
  have hsum : add32 h.availableSize d.size = freeBytes pre + (d.size + freeBytes post) := by
    rw [hd.available, add32_of_lt (by omega)]
    omega
  rw [hsize, hsum]
  have hperm := perm_put (a := a) hd.freePerm
  rw [ha, ← freeStarts_free hd.free, ← freeStarts_append, ← ha, hpool] at hperm
  rw [hpool] at hpushed
  refine hs.release hpool hrecord (hs.max_of_le hpool hmax hmore (by dsimp only; omega)) ?_ hperm
    hscattered ?_
  · dsimp only
    rw [hpool]
    exact hpushed
  · rw [freeBytes_append, freeBytes_free hd.free]

/-- `shrink` as the item that it splits off and joins with a free one behind. -/
theorem shrink_eq (h : MemHeap) {a p newsize : Nat} {h' : MemHeap}
    (hnew : add32 (add32 a newsize) rtMemheapSize = p)
    (habsorb : (h.onMemory fun m => linkItem h.pool.self m a p).absorbFree p = h') :
    h.shrink a newsize =
      { pool := h'.pool
        availableSize := add32 h'.availableSize
          (memitemSize (pushFree h'.pool.freeList h'.memory p) p)
        maxUsedSize := h'.maxUsedSize
        memory := pushFree h'.pool.freeList h'.memory p
        usedRecord := h'.usedRecord } := by
  subst habsorb
  unfold shrink
  rw [hnew]
  dsimp only [onMemory_pool, onMemory_availableSize, onMemory_maxUsedSize, onMemory_memory,
    onMemory_usedRecord]

/-- The end of an item is split off, and is in the free list with a free item behind it. -/
theorem sound_shrink (hs : h.Sound (pre ++ c.join d :: post) frees) (hc : c.used = true)
    (hd : d.used = false) :
    ∃ d' post' frees',
      (h.shrink (h.pool.startAddr + itemSpan pre) c.size).rtSemRelease.Sound
        (pre ++ c :: d' :: post') frees' ∧
      (∀ b, regions b (d' :: post') = regions b (d :: post)) ∧
      (h.shrink (h.pool.startAddr + itemSpan pre) c.size).pool = h.pool := by
  have hjoin : (c.join d).used = true := hc
  have hspan := hs.span_lt
  have havailable := hs.available
  have hperm := hs.freePerm
  have hscattered := (scattered_used hjoin).mp hs.scattered
  have hword := Sound.lt_word h
  rw [itemSpan_append, itemSpan_cons, MemItem.join_size] at hspan
  rw [freeBytes_append, freeBytes_used hjoin] at havailable
  rw [freeStarts_append, freeStarts_used hjoin, join_end] at hperm
  have hat : h.pool.startAddr + itemSpan (pre ++ [c]) =
      h.pool.startAddr + itemSpan pre + (24 + c.size) := by
    rw [itemSpan_append, itemSpan_cons, itemSpan_nil, Nat.add_zero, ← Nat.add_assoc]
  have hnew : add32 (add32 (h.pool.startAddr + itemSpan pre) c.size) rtMemheapSize =
      h.pool.startAddr + itemSpan (pre ++ [c]) := by
    unfold rtMemheapSize
    rw [add32_of_lt (b := c.size) (by omega), add32_of_lt (by omega), hat]
    omega
  have hfirst : freeStarts h.pool.startAddr (pre ++ [c]) = freeStarts h.pool.startAddr pre := by
    rw [freeStarts_append, freeStarts_used hc]
    exact List.append_nil _
  have hfirstBytes : freeBytes (pre ++ [c]) = freeBytes pre := by
    rw [freeBytes_append, freeBytes_used hc]
    rfl
  have hlinked := laid_linkItem hs.laid hd hs.free_isItem
  rw [List.append_cons, ← hat] at hlinked
  have hdetached : Detached (h.onMemory fun m => linkItem h.pool.self m
      (h.pool.startAddr + itemSpan pre) (h.pool.startAddr + itemSpan (pre ++ [c]))) (pre ++ [c]) d
      post frees := by
    refine ⟨hlinked, hd, ?_, ?_, hscattered.2⟩
    · rw [onMemory_pool, hfirst, hat]
      exact hperm
    · rw [onMemory_availableSize, hfirstBytes, havailable]
  obtain ⟨d', post', frees', hdetached', hhead, hmore, hregions, hpool, hrecord, hmax⟩ :=
    hdetached.absorbFree (a := h.pool.startAddr + itemSpan (pre ++ [c])) rfl
  generalize hh' : (h.onMemory _).absorbFree _ = h' at hdetached' hpool hrecord hmax
  replace hpool : h'.pool = h.pool := hpool
  have hlast : ∀ b ∈ (pre ++ [c]).getLast?, b.used = true := by
    intro b hb
    rw [List.getLast?_concat] at hb
    exact Option.mem_some.mp hb ▸ hc
  have hbefore : Scattered (pre ++ [c]) :=
    (scattered_used hc).mpr ⟨hscattered.1, List.isChain_nil⟩
  have hall := (scattered_free hdetached'.free).mpr
    ⟨hbefore, hdetached'.after, hlast, hhead⟩
  have hsound := hdetached'.release hs (by rw [hpool]) hpool hrecord hmax (by
    rw [hfirstBytes]
    omega) hall
  rw [shrink_eq h hnew hh']
  rw [← List.append_cons] at hsound
  exact ⟨d', post', _, hsound, hregions, hpool⟩

end MemHeap

end RtVcom.Kernel

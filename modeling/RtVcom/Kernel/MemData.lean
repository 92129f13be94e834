import RtVcom.Kernel.MemLaws

/-!
# The bytes of the blocks

What the allocator's functions leave of the bytes that the callers keep in their blocks. The
functions write headers, and headers stand at the heads of blocks (`Head`): every byte that is not
one of a header is what it was (`Writes`), and the bytes of a used block are not
(`Head.apart_data`).

From that the law of `rt_realloc` (`heap_realloc_iff`): where it answers with a block, this has the
size asked for and the content of the old one, as far as both go, and where it does not the heap is
as it was. Sizes that `RT_ALIGN` wraps to 0 are taken for a `rt_free`.
-/

namespace RtVcom.Kernel

open RtVcom.Lib

/-! ## Writing headers -/

/-- Nothing is written but headers at positions of `P`. -/
def Heap.Writes (P : Nat → Prop) (h h' : Heap) : Prop :=
  ∀ x, (∀ q, P q → x < q ∨ q + 12 ≤ x) → h'.memory x = h.memory x

namespace Heap.Writes

variable {P : Nat → Prop} {h h' h'' : Heap} {p : Nat}

theorem of_memory (hmem : h'.memory = h.memory) : Writes P h h' := fun x _ => congrFun hmem x

theorem refl (h : Heap) : Writes P h h := of_memory rfl

/-- Two steps that write in the same blocks only. -/
theorem trans (hw : Writes P h h') (hw' : Writes P h' h'') : Writes P h h'' :=
  fun x hx => (hw' x hx).trans (hw x hx)

/-- A write inside the header at `p`. -/
theorem store {a k v : Nat} (hp : P p) (ha : p ≤ a) (hk : a + k ≤ p + 12) :
    Writes P h { h with memory := h.memory.store a v k } :=
  fun x hx => ByteMemory.store_outside (by have := hx p hp; omega)

/-- Writing the header of a block writes in it only. -/
theorem setMagic (hp : P p) (v : Nat) : Writes P h (h.setMagic p v) :=
  store hp (Nat.le_refl p) (by omega)

theorem setUsed (hp : P p) (v : Nat) : Writes P h (h.setUsed p v) :=
  store hp (Nat.le_add_right p 2) (by omega)

theorem setNext (hp : P p) (v : Nat) : Writes P h (h.setNext p v) :=
  store hp (Nat.le_add_right p 4) (by omega)

theorem setPrev (hp : P p) (v : Nat) : Writes P h (h.setPrev p v) :=
  store hp (Nat.le_add_right p 8) (by omega)

theorem setHdr (hp : P p) (x : HeapMem) : Writes P h (h.setHdr p x) :=
  (((setMagic hp x.magic).trans (setUsed hp x.used)).trans (setNext hp x.next)).trans
    (setPrev hp x.prev)

/-- What lies apart from the positions stays. -/
theorem data (hw : Writes P h h') {o m : Nat} (hapart : ∀ q, P q → q ≤ o ∨ o + m ≤ q) {x : Nat}
    (hlow : o + 12 ≤ x) (hhigh : x < o + m) : h'.memory x = h.memory x :=
  hw x fun q hq => by
    have := hapart q hq
    omega

/-! ## The parts of the functions -/

/-- `combine` writes the headers that it merges and links. -/
theorem combine {first second : Nat} (hfirst : P first) (hnext : P (h.hdr second).next)
    (hapart : first + 12 ≤ second ∨ second + 12 ≤ first) :
    Writes P h (combine h first second) := by
  have hsame : (if h.lfree = second then { h with lfree := first } else h).memory = h.memory := by
    split <;> rfl
  unfold Kernel.combine
  dsimp only
  generalize (if h.lfree = second then { h with lfree := first } else h) = g at hsame ⊢
  have hsecond : g.hdr second = h.hdr second := Heap.hdr_congr fun x _ _ => congrFun hsame x
  rw [Heap.hdr_setNext_other hapart, hsecond]
  exact ((of_memory hsame).trans (setNext hfirst _)).trans (setPrev hnext first)

/-- `splitBlock` writes the two headers. -/
theorem splitBlock {size : Nat} (hp : P p) (hbehind : P (add32 (add32 p sizeofStructMem) size)) :
    Writes P h (splitBlock h p size) :=
  (setHdr hbehind _).trans (setNext hp _)

/-- `linkBehind` writes the header behind the block. -/
theorem linkBehind (hnext : P (h.hdr p).next) : Writes P h (linkBehind h p) := by
  unfold Kernel.linkBehind
  dsimp only
  split
  · exact setPrev hnext p
  · exact refl h

end Heap.Writes

/-! ## Heads of blocks -/

/-- A block begins here, or the blocks end here. -/
def Head (blocks : List Block) (q : Nat) : Prop := ∃ xs ys, blocks = xs ++ ys ∧ q = span xs

section Heads

variable {blocks pre post : List Block} {b : Block} {h : Heap} {o m q : Nat}

theorem head_span (xs ys : List Block) : Head (xs ++ ys) (span xs) := ⟨xs, ys, rfl, rfl⟩

/-- The head behind a block. -/
theorem head_behind : Head (pre ++ b :: post) (span pre + b.size) := by
  refine ⟨pre ++ [b], post, ?_, ?_⟩
  · rw [List.append_assoc, List.singleton_append]
  · rw [span_append, span_cons, span_nil, Nat.add_zero]

/-- The head of the block before one. -/
theorem head_lastStart : Head (pre ++ b :: post) (lastStart 0 0 pre) := by
  cases pre using List.reverseRecOn with
  | nil => exact head_span [] (b :: post)
  | append_singleton init a =>
    rw [lastStart_concat, Nat.zero_add, List.append_assoc]
    exact head_span init _

/-- No block has a head in it. -/
theorem Head.apart_data {used : Bool} (hq : Head blocks q) (hat : (o, m) ∈ starts used 0 blocks) :
    q ≤ o ∨ o + m ≤ q := by
  obtain ⟨xs, ys, rfl, rfl⟩ := hq
  rw [starts_append, List.mem_append] at hat
  rcases hat with hat | hat
  · have := starts_bounds hat
    omega
  · have := starts_bounds hat
    omega

/-- The block before one lies apart from it, or is it itself. -/
theorem lastStart_le (pre : List Block) : lastStart 0 0 pre = span pre ∨
    lastStart 0 0 pre + 12 ≤ span pre := by
  cases pre using List.reverseRecOn with
  | nil => exact .inl rfl
  | append_singleton init a =>
    have hlarge := a.large
    rw [lastStart_concat, span_append, span_cons, span_nil]
    omega

/-! ## Joining -/

/-- `plug_holes` forward: the block keeps its head, and its end is a head that was there. -/
theorem writes_plugForward (ht : Tiles h (pre ++ b :: post)) (hplaced : h.Placed) :
    Heap.Writes (Head (pre ++ b :: post)) h (plugForward h (span pre)) ∧
      ((plugForward h (span pre)).hdr (span pre)).prev = lastStart 0 0 pre ∧
      Head (pre ++ b :: post) ((plugForward h (span pre)).hdr (span pre)).next := by
  have hlarge := b.large
  have hstays : Heap.Writes (Head (pre ++ b :: post)) h h ∧
      (h.hdr (span pre)).prev = lastStart 0 0 pre ∧
      Head (pre ++ b :: post) (h.hdr (span pre)).next := by
    rw [ht.hdr]
    exact ⟨.refl h, rfl, head_behind⟩
  unfold plugForward
  simp only [ht.hdr]
  cases post with
  | nil =>
    have hend : span pre + b.size = h.heapEnd := by
      have hfull := ht.full
      rwa [span_append, span_cons, span_nil, Nat.add_zero] at hfull
    rw [if_neg (fun hjoin => hjoin.2.2 hend)]
    exact hstays
  | cons c cs =>
    split
    · have hclarge := c.large
      have hfits := hplaced.fits
      have hle := ht.shift.le_end
      rw [span_append, span_cons, span_nil, Nat.add_zero] at hle
      have hhead : Head (pre ++ b :: c :: cs) (span pre + b.size + c.size) := by
        have hbehind := @head_behind (pre ++ [b]) cs c
        rwa [List.append_assoc, List.singleton_append, span_append, span_cons, span_nil,
          Nat.add_zero] at hbehind
      have hhdr : (combine h (span pre) (span pre + b.size)).hdr (span pre) =
          { h.hdr (span pre) with next := span pre + b.size + c.size } := by
        rw [combine_eq ht]
        change ((h.setNext _ _).setPrev _ _).hdr (span pre) = _
        rw [Heap.hdr_setPrev_other (by omega), Heap.hdr_setNext (by omega)]
      rw [hhdr, ht.hdr]
      refine ⟨?_, rfl, hhead⟩
      rw [combine_eq ht]
      exact ((Heap.Writes.setNext (head_span pre _) _).trans
        (Heap.Writes.setPrev hhead _)).trans (.of_memory rfl)
    · exact hstays

/-- `plug_holes` writes headers that stand at heads. -/
theorem writes_plugHoles (ht : Tiles h (pre ++ b :: post)) (hplaced : h.Placed) :
    Heap.Writes (Head (pre ++ b :: post)) h (plugHoles h (span pre)) := by
  obtain ⟨hforward, hprev, hnext⟩ := writes_plugForward ht hplaced
  unfold plugHoles plugBackward
  generalize plugForward h (span pre) = g at hforward hprev hnext ⊢
  dsimp only
  rw [hprev]
  split
  · next hjoin =>
    have hapart := (lastStart_le pre).resolve_left hjoin.1
    exact hforward.trans (.combine head_lastStart hnext (.inl hapart))
  · exact hforward

end Heads

/-! ## The bytes of the used blocks -/

section Data

variable {h : Heap} {pre post blocks : List Block} {b : Block} {ptr n o m size a : Nat}

/-- `rt_free` leaves the bytes of the other used blocks. -/
theorem rtFree_data (hs : Sound h blocks) (hused : (ptr, n) ∈ starts true 0 blocks)
    (hat : (o, m) ∈ starts true 0 blocks) (hne : o ≠ ptr) (hlow : o + 12 ≤ a) (hhigh : a < o + m) :
    (rtFree h (some (h.heapPtr + ptr + sizeofStructMem))).memory a = h.memory a := by
  obtain ⟨pre, b, post, rfl, hb, hptr, rfl⟩ := exists_of_starts hused
  rw [Nat.zero_add] at hptr
  subst hptr
  obtain ⟨g, hfree, hmemory, hframe, -⟩ := rtFree_plugs hs hb
  have hmark := tiles_setMagic (tiles_mark hs.tiles false)
  have hhead := head_span pre (b.mark false :: post)
  have hwrites : Heap.Writes (Head (pre ++ b.mark false :: post)) h g :=
    ((Heap.Writes.setUsed hhead 0).trans (.setMagic hhead heapMagic)).trans (.of_memory hmemory)
  have hplug := writes_plugHoles (hmark.of_memory hmemory hframe.heapEnd) (hs.placed.frame hframe)
  rw [hfree]
  exact (hwrites.trans hplug).data
    (fun q hq => hq.apart_data ((starts_mark hb (o, m)).mpr ⟨hat, hne⟩)) hlow hhigh

/-- The two headers of a block that is split. -/
theorem writes_splitBlock {P : Nat → Prop} {p : Nat} (hptr : P p) (hback : P (p + (size + 12)))
    (hfits : p + size + 12 < 0x100000000) : h.Writes P (splitBlock h p size) := by
  rw [← add32_behind hfits] at hback
  exact .splitBlock hptr hback

/-- Giving the end of a block back leaves the bytes of the used blocks, those of the end apart. -/
theorem shrinkBlock_data (hs : Sound h blocks) (hused : (ptr, n) ∈ starts true 0 blocks)
    (haligned : size % 4 = 0) (hsize : size + 36 < n) (hat : (o, m) ∈ starts true 0 blocks)
    (hlow : o + 12 ≤ a) (hhigh : a < o + m) (hfront : o = ptr → a < ptr + (size + 12)) :
    (shrinkBlock h ptr size).memory a = h.memory a := by
  obtain ⟨pre, b, post, rfl, hb, hptr, rfl⟩ := exists_of_starts hused
  rw [Nat.zero_add] at hptr
  subst hptr
  have hle := hs.tiles.le_end
  have hfits := hs.placed.fits
  have hfits' : span pre + size + 12 < 0x100000000 := by omega
  unfold shrinkBlock
  simp only [add32_behind hfits']
  generalize sub32 h.usedMem _ = used
  have hframe := frame_shrink h used (span pre) size (span pre + (size + 12))
  have hmemory : Heap.memory { h with usedMem := used } = h.memory := rfl
  have hplaced := hs.placed.frame (frame_usedMem h used)
  have htiles : Tiles { h with usedMem := used } (pre ++ b :: post) := hs.tiles.of_memory rfl rfl
  generalize { h with usedMem := used } = g at hframe hmemory hplaced htiles ⊢
  obtain ⟨hhdr, hback, -⟩ := hdr_splitBlock htiles hplaced (show size + 24 ≤ b.size by omega)
  rw [hb] at hhdr
  obtain ⟨front, back, hfused, hfsize, hbused, htotal, ht⟩ :=
    tiles_splitBlock htiles hplaced haligned (by omega) (frame_splitBlock _ _ _) hhdr fun p _ => rfl
  -- the heads of the two halves and of the block behind
  have hlist : pre ++ front :: back :: post = (pre ++ [front]) ++ back :: post := by
    rw [List.append_assoc, List.singleton_append]
  have hspan : span (pre ++ [front]) = span pre + (size + 12) := by
    rw [span_append, span_cons, span_nil, Nat.add_zero, hfsize]
  have hfirst : Head (pre ++ front :: back :: post) (span pre) := head_span pre _
  have hsecond : Head (pre ++ front :: back :: post) (span pre + (size + 12)) := by
    rw [hlist, ← hspan]
    exact head_span (pre ++ [front]) (back :: post)
  have hthird : Head (pre ++ front :: back :: post) (span pre + b.size) := by
    have hbehind : Head ((pre ++ [front]) ++ back :: post) (span (pre ++ [front]) + back.size) :=
      head_behind
    rwa [hspan, ← hlist, ← hfsize, Nat.add_assoc, htotal] at hbehind
  have hlink : Heap.Writes (Head (pre ++ front :: back :: post)) (splitBlock g (span pre) size)
      (linkBehind (splitBlock g (span pre) size) (span pre + (size + 12))) := by
    refine .linkBehind ?_
    rw [hback]
    exact hthird
  have hplug := writes_plugHoles (hlist ▸ ht) (hs.placed.frame hframe)
  rw [hspan, ← hlist] at hplug
  have hall := ((Heap.Writes.of_memory hmemory).trans
    (writes_splitBlock hfirst hsecond hfits')).trans (hlink.trans hplug)
  have hstarts (x : Nat × Nat) : x ∈ starts true 0 (pre ++ front :: back :: post) ↔
      x ∈ starts true 0 (pre ++ b :: post) ∧ x.1 ≠ span pre ∨ x = (span pre, front.size) :=
    starts_split hb hfused hbused htotal x
  by_cases hother : o = span pre
  · have hfrontAt := (hstarts (span pre, front.size)).mpr (.inr rfl)
    have := hfront hother
    exact hall.data (fun q hq => hq.apart_data hfrontAt) (by omega) (by omega)
  · exact hall.data (fun q hq => hq.apart_data ((hstarts (o, m)).mpr (.inl ⟨hat, hother⟩)))
      hlow hhigh

/-- Taking a block writes its header, that of a block that is split from it, and that of the block
behind. -/
theorem writes_takeBlock {P : Nat → Prop} (ht : Tiles h (pre ++ b :: post)) (hplaced : h.Placed)
    (hsize : size + 12 ≤ b.size) (hptr : P (span pre)) (hback : P (span pre + (size + 12)))
    (hbehind : P (span pre + b.size)) : h.Writes P (takeBlock h (span pre) size) := by
  have hfits := hplaced.fits
  have hle := ht.le_end
  rw [takeBlock_eq ht hplaced hsize]
  split
  · next hlarge =>
    obtain ⟨-, hhdr, -⟩ := hdr_splitBlock ht hplaced (show size + 24 ≤ b.size by omega)
    have hsplit := writes_splitBlock (h := h) hptr hback (by omega)
    have hlink : Heap.Writes P ((splitBlock h (span pre) size).setUsed (span pre) 1)
        (linkBehind ((splitBlock h (span pre) size).setUsed (span pre) 1)
          (span pre + (size + 12))) := by
      refine .linkBehind ?_
      rw [Heap.hdr_setUsed_other (by omega), hhdr]
      exact hbehind
    exact (hsplit.trans (.setUsed hptr 1)).trans (hlink.trans (.of_memory (account_memory _ _)))
  · exact (Heap.Writes.setUsed hptr 1).trans (.of_memory (account_memory _ _))

/-- `handOut` writes the block, its remainder and the header behind. -/
theorem writes_handOut {P : Nat → Prop} {h' : Heap} {p : Option Nat}
    (ht : Tiles h (pre ++ b :: post)) (hplaced : h.Placed) (hsize : size + 12 ≤ b.size)
    (hptr : P (span pre)) (hback : P (span pre + (size + 12))) (hbehind : P (span pre + b.size))
    (hout : handOut h (span pre) size = some (h', p)) : h.Writes P h' := by
  have htake := writes_takeBlock ht hplaced hsize hptr hback hbehind
  unfold handOut at hout
  dsimp only at hout
  generalize takeBlock h (span pre) size = g at htake hout
  obtain ⟨lfree, -, heq⟩ := Option.map_eq_some_iff.mp hout
  cases heq
  exact (htake.trans (.setMagic hptr heapMagic)).trans (.of_memory rfl)

/-- `rt_malloc` leaves the bytes of the used blocks. -/
theorem rtMalloc_data {h' : Heap} {p : Option Nat} (hs : Sound h blocks)
    (hmin : 12 ≤ h.memSizeAligned) (hmalloc : rtMalloc h n = some (h', p))
    (hat : (o, m) ∈ starts true 0 blocks) (hlow : o + 12 ≤ a) (hhigh : a < o + m) :
    h'.memory a = h.memory a := by
  rcases rtMalloc_found hs hmin n with ⟨hnone, -⟩ | ⟨pre, b, post, rfl, hb, hholds, -, hfound⟩
  · rw [hnone] at hmalloc
    cases hmalloc
    rfl
  · rw [hfound] at hmalloc
    have hne : o ≠ span pre := fun heq => starts_disjoint (mem_starts hb) (heq ▸ hat)
    have hapart := (starts_apart hat).resolve_left hne
    exact (writes_handOut (P := fun q => q ≤ o ∨ o + m ≤ q) hs.tiles hs.placed hholds (by omega)
      (by omega) (by omega) hmalloc).data (fun q => id) hlow hhigh

end Data

/-! ## Moving a block -/

/-- The byte `i` behind a pointer. -/
def MemSystem.byte (s : MemSystem) (p i : Nat) : BitVec 8 :=
  s.heap.memory (p - s.heap.heapPtr + i)

/-- A pointer that is still live, with the same bytes behind it. -/
structure Unchanged (s t : MemSystem) (o : Nat) : Prop where
  live : o ∈ t.live.map Prod.fst
  capacity : t.capacity o = s.capacity o
  content : ∀ i < s.capacity o, t.byte o i = s.byte o i

/-- The block at `p` has become one of at least `n` bytes at `q`, with its content as far as both
go, and the other blocks are what they were. -/
structure Resized (s t : MemSystem) (p q n : Nat) : Prop where
  live : q ∈ t.live.map Prod.fst
  room : n ≤ t.capacity q
  content : ∀ i < min (s.capacity p) n, t.byte q i = s.byte p i
  others : ∀ o ∈ s.live.map Prod.fst, o ≠ p → Unchanged s t o

/-- What `rt_realloc` owes its caller: the block with another size, or NULL and nothing has
happened. -/
def ReallocSafe (s : MemSystem) (p newsize : Nat) : Prop :=
  ∃ heap nmem, rtRealloc s.heap (some p) newsize = some (heap, nmem) ∧
    match nmem with
    | some q => Resized s ⟨heap, MemSystem.move s.live (some p) newsize (some q)⟩ p q newsize
    | none => 0 < newsize → heap = s.heap ∧ MemSystem.move s.live (some p) newsize none = s.live

/-- A used block of both heaps, with the same bytes. -/
structure Kept (h h' : Heap) (blocks blocks' : List Block) (o m : Nat) : Prop where
  before : (o, m) ∈ starts true 0 blocks
  after : (o, m) ∈ starts true 0 blocks'
  data : ∀ a, o + 12 ≤ a → a < o + m → h'.memory a = h.memory a

section Moving

variable {s t : MemSystem} {blocks blocks' : List Block} {ptr n o m k : Nat} {heap : Heap}

/-- A byte of a live region is one of the memory behind its header. -/
theorem byte_block {p : Nat} (hp : p = s.heap.heapPtr + ptr + sizeofStructMem) (i : Nat) :
    s.byte p i = s.heap.memory (ptr + 12 + i) := by
  subst hp
  unfold MemSystem.byte sizeofStructMem
  rw [Nat.add_assoc s.heap.heapPtr, Nat.add_sub_cancel_left]

theorem capacity_block {p : Nat} (ht : Tiles s.heap blocks) (hat : (ptr, n) ∈ starts true 0 blocks)
    (hp : p = s.heap.heapPtr + ptr + sizeofStructMem) : s.capacity p = n - sizeofStructMem := by
  subst hp
  exact capacity_of_tiles ht hat

/-- A block that is kept keeps its bytes. -/
theorem Kept.unchanged (h : Kept s.heap t.heap blocks blocks' o m) (ht : Tiles s.heap blocks)
    (ht' : Tiles t.heap blocks') (hframe : s.heap.Frame t.heap)
    (hlive : s.heap.heapPtr + o + sizeofStructMem ∈ t.live.map Prod.fst) :
    Unchanged s t (s.heap.heapPtr + o + sizeofStructMem) := by
  have hptr := hframe.heapPtr
  have hbefore := capacity_of_tiles ht h.before
  have hafter := capacity_block ht' h.after (congrArg (· + o + sizeofStructMem) hptr.symm)
  refine ⟨hlive, hafter.trans hbefore.symm, fun i hi => ?_⟩
  rw [hbefore] at hi
  unfold sizeofStructMem at hi
  have hbyte : t.byte (s.heap.heapPtr + o + sizeofStructMem) i = t.heap.memory (o + 12 + i) :=
    byte_block (congrArg (· + o + sizeofStructMem) hptr.symm) i
  rw [hbyte, byte_block rfl]
  exact h.data _ (by omega) (by omega)

/-- The other pointers are those of other blocks. -/
theorem others_unchanged {q : Nat} (hs : Held s blocks) (ht' : Tiles heap blocks')
    (hframe : s.heap.Frame heap)
    (hkept : ∀ o m, (o, m) ∈ starts true 0 blocks → o ≠ ptr → Kept s.heap heap blocks blocks' o m) :
    ∀ o ∈ s.live.map Prod.fst, o ≠ s.heap.heapPtr + ptr + sizeofStructMem →
      Unchanged s ⟨heap, (q, k) ::
        MemSystem.drop s.live (some (s.heap.heapPtr + ptr + sizeofStructMem))⟩ o := by
  intro o ho hne
  obtain ⟨o, m, hat, rfl⟩ := hs.block ho
  refine (hkept o m hat fun heq => hne (by rw [heq])).unchanged hs.sound.tiles ht' hframe ?_
  exact List.mem_cons_of_mem _ (mem_map_drop.mpr ⟨ho, hne⟩)

/-- A block that has the size already. -/
theorem resized_same (hs : Held s blocks) (hat : (ptr, n) ∈ starts true 0 blocks)
    (hk : k ≤ n - 12) :
    Resized s ⟨s.heap, (s.heap.heapPtr + ptr + sizeofStructMem, k) ::
        MemSystem.drop s.live (some (s.heap.heapPtr + ptr + sizeofStructMem))⟩
      (s.heap.heapPtr + ptr + sizeofStructMem) (s.heap.heapPtr + ptr + sizeofStructMem) k := by
  refine ⟨List.mem_cons_self, ?_, fun _ _ => rfl,
    others_unchanged hs hs.sound.tiles (.refl _) fun o m hat _ => ⟨hat, hat, fun _ _ _ => rfl⟩⟩
  have hcapacity := hs.capacity hat
  exact hk.trans (Nat.le_of_eq hcapacity.symm)

/-- A block that gives its end back. -/
theorem resized_shrink {size : Nat} (hs : Held s blocks) (hat : (ptr, n) ∈ starts true 0 blocks)
    (haligned : size % 4 = 0) (hpos : 0 < size) (hsize : size + 36 < n) (hk : k ≤ size) :
    Resized s ⟨shrinkBlock s.heap ptr size, (s.heap.heapPtr + ptr + sizeofStructMem, k) ::
        MemSystem.drop s.live (some (s.heap.heapPtr + ptr + sizeofStructMem))⟩
      (s.heap.heapPtr + ptr + sizeofStructMem) (s.heap.heapPtr + ptr + sizeofStructMem) k := by
  obtain ⟨blocks', hshrinks⟩ := shrinkBlock_spec hs.sound hat haligned hpos hsize
  have hptr := hshrinks.frame.heapPtr
  have hdata {o m a : Nat} (hat' : (o, m) ∈ starts true 0 blocks) (hlow : o + 12 ≤ a)
      (hhigh : a < o + m) (hfront : o = ptr → a < ptr + (size + 12)) :
      (shrinkBlock s.heap ptr size).memory a = s.heap.memory a :=
    shrinkBlock_data hs.sound hat haligned hsize hat' hlow hhigh hfront
  generalize shrinkBlock s.heap ptr size = heap at hshrinks hptr hdata ⊢
  refine ⟨List.mem_cons_self, ?_, fun i hi => ?_,
    others_unchanged hs hshrinks.sound.tiles hshrinks.frame fun o m hat' hne => ?_⟩
  · have hfront := (hshrinks.used _).mpr (.inr rfl)
    refine hk.trans (Nat.le_of_eq (Eq.symm (capacity_block hshrinks.sound.tiles hfront ?_)))
    rw [hptr]
  · rw [hs.capacity hat] at hi
    unfold sizeofStructMem at hi
    refine (byte_block (congrArg (· + ptr + sizeofStructMem) hptr.symm) i).trans ?_
    rw [byte_block rfl]
    exact hdata hat (by omega) (by omega) fun _ => by omega
  · refine ⟨hat', (hshrinks.used _).mpr (.inl ⟨hat', hne⟩), fun a hlow hhigh => ?_⟩
    exact hdata hat' hlow hhigh fun heq => absurd heq hne

/-- What became of the blocks when one was copied into a new one and freed. -/
structure Copied (h h' : Heap) (blocks blocks' : List Block) (ptr ptr' size count : Nat) : Prop where
  tiles : Tiles h' blocks'
  frame : h.Frame h'
  room : ∃ m, size + 12 ≤ m ∧ (ptr', m) ∈ starts true 0 blocks'
  content : ∀ i < count, h'.memory (ptr' + 12 + i) = h.memory (ptr + 12 + i)
  others : ∀ o m, (o, m) ∈ starts true 0 blocks → o ≠ ptr → Kept h h' blocks blocks' o m

/-- `rt_malloc`, the copy and `rt_free`. -/
theorem copied_expand {count q : Nat} (hs : Held s blocks) (hmin : 12 ≤ s.heap.memSizeAligned)
    (hat : (ptr, n) ∈ starts true 0 blocks) (hmalloc : rtMalloc s.heap k = some (heap, some q))
    (hcount : count ≤ n - 12) (hfits : count ≤ mallocSize k) :
    ∃ ptr' blocks', q = s.heap.heapPtr + ptr' + sizeofStructMem ∧
      Copied s.heap
        (rtFree (heap.withMemory (heap.memory.copy (q - heap.heapPtr)
          (s.heap.heapPtr + ptr + sizeofStructMem - heap.heapPtr) count))
          (some (s.heap.heapPtr + ptr + sizeofStructMem)))
        blocks blocks' ptr ptr' (mallocSize k) count := by
  have hdata : 12 < n := hs.sound.holds _ hat
  rcases rtMalloc_spec hs.sound hmin k with ⟨hnone, -⟩ | ⟨h₁, ptr', blocks₁, hsome, -, halloc⟩
  · rw [hnone] at hmalloc
    cases hmalloc
  cases hsome.symm.trans hmalloc
  obtain ⟨m', hm', hused⟩ := halloc.region
  have hptr := halloc.frame.heapPtr
  have hnew : (ptr', m') ∈ starts true 0 blocks₁ := (hused _).mpr (.inr rfl)
  have hold : (ptr, n) ∈ starts true 0 blocks₁ := (hused _).mpr (.inl hat)
  have hkeep {o m a : Nat} (ho : (o, m) ∈ starts true 0 blocks) (hlow : o + 12 ≤ a)
      (hhigh : a < o + m) : heap.memory a = s.heap.memory a :=
    rtMalloc_data hs.sound hmin hmalloc ho hlow hhigh
  have hne : ptr' ≠ ptr := fun heq => halloc.fresh n (heq ▸ hat)
  have hdest : s.heap.heapPtr + ptr' + sizeofStructMem - heap.heapPtr = ptr' + 12 := by
    unfold sizeofStructMem
    omega
  have hsrc : s.heap.heapPtr + ptr + sizeofStructMem - heap.heapPtr = ptr + 12 := by
    unfold sizeofStructMem
    omega
  rw [hdest, hsrc]
  have hwrite := moves_write (m := heap.memory.copy (ptr' + 12) (ptr + 12) count)
    (halloc.moves hs k).held hnew fun x hx => by
      refine ByteMemory.copy_outside ?_
      unfold sizeofStructMem at hx
      omega
  have hsound := hwrite.held.sound
  have hframe := halloc.frame.trans hwrite.frame
  dsimp only at hsound hframe
  obtain ⟨blocks₂, hfrees⟩ := rtFree_spec hsound hold
  have hfreed {o m a : Nat} (ho : (o, m) ∈ starts true 0 blocks₁) (hother : o ≠ ptr)
      (hlow : o + 12 ≤ a) (hhigh : a < o + m) := rtFree_data hsound hold ho hother hlow hhigh
  have hptr₂ : (heap.withMemory (heap.memory.copy (ptr' + 12) (ptr + 12) count)).heapPtr =
      s.heap.heapPtr := hptr
  rw [hptr₂] at hfrees hfreed
  refine ⟨ptr', blocks₂, rfl, ⟨hfrees.sound.tiles, hframe.trans hfrees.frame,
    ⟨m', hm', (hfrees.used _).mpr ⟨hnew, hne⟩⟩, fun i hi => ?_, fun o m ho hother => ?_⟩⟩
  · rw [hfreed hnew hne (by omega) (by omega)]
    change heap.memory.copy (ptr' + 12) (ptr + 12) count (ptr' + 12 + i) = _
    rw [ByteMemory.copy, if_pos (by omega), Nat.add_sub_cancel_left]
    exact hkeep hat (by omega) (by omega)
  · have ho₁ : (o, m) ∈ starts true 0 blocks₁ := (hused _).mpr (.inl ho)
    refine ⟨ho, (hfrees.used _).mpr ⟨ho₁, hother⟩, fun a hlow hhigh => ?_⟩
    -- the copy goes into another block
    have hapart : o + m ≤ ptr' ∨ ptr' + m' ≤ o := by
      obtain ⟨pre, c, post, rfl, -, hstart, rfl⟩ := exists_of_starts hnew
      rw [Nat.zero_add] at hstart
      subst hstart
      exact (starts_apart ho₁).resolve_left fun heq => halloc.fresh m (heq ▸ ho)
    have hcopy : (heap.withMemory (heap.memory.copy (ptr' + 12) (ptr + 12) count)).memory a =
        heap.memory a := ByteMemory.copy_outside (by omega)
    rw [hfreed ho₁ hother hlow hhigh, hcopy]
    exact hkeep ho hlow hhigh

/-- A size that `RT_ALIGN` does not wrap is served, or refused with nothing done. -/
theorem reallocSafe_of_le {p newsize : Nat} (hs : Held s blocks)
    (hmin : 12 ≤ s.heap.memSizeAligned) (hp : p ∈ s.live.map Prod.fst)
    (hle : newsize ≤ alignMax) : ReallocSafe s p newsize := by
  unfold alignMax at hle
  rcases Nat.eq_zero_or_pos newsize with rfl | hpos
  · exact ⟨_, none, rtRealloc_none (.inr rfl) _, fun hlt => absurd hlt (Nat.lt_irrefl 0)⟩
  have hround : newsize ≤ rtAlign newsize ∧ rtAlign newsize ≠ 0 := by
    unfold rtAlign add32
    omega
  have halign : rtAlign newsize % 4 = 0 := rtAlign_aligned newsize
  have hkept : MemSystem.move s.live (some p) newsize none = s.live := if_pos ⟨rfl, hround.2⟩
  by_cases hlarge : s.heap.memSizeAligned < rtAlign newsize
  · refine ⟨_, none, rtRealloc_none (.inl hlarge) _, fun _ => ⟨if_neg hround.2, hkept⟩⟩
  obtain ⟨ptr, n, hat, rfl⟩ := hs.block hp
  have hrealloc := rtRealloc_held hs hat hlarge hround.2
  split at hrealloc
  · next hsame =>
    refine ⟨_, _, hrealloc, ?_⟩
    dsimp only
    rw [move_some]
    exact resized_same hs hat (by omega)
  split at hrealloc
  · next hsmall =>
    refine ⟨_, _, hrealloc, ?_⟩
    dsimp only
    rw [move_some]
    exact resized_shrink hs hat halign (Nat.pos_of_ne_zero hround.2) (by omega) hround.1
  next hsmall =>
  rcases rtMalloc_spec hs.sound hmin (rtAlign newsize) with ⟨hnone, -⟩ | ⟨h₁, ptr', -, hsome, -, -⟩
  · rw [hnone] at hrealloc
    exact ⟨_, _, hrealloc, fun _ => ⟨rfl, hkept⟩⟩
  have hgot : rtAlign newsize ≤ mallocSize (rtAlign newsize) := by
    refine le_mallocSize_of ?_
    unfold rtAlign add32 alignMax
    omega
  rw [hsome] at hrealloc
  dsimp only at hrealloc
  refine ⟨_, _, hrealloc, ?_⟩
  dsimp only
  rw [move_some]
  obtain ⟨ptr', blocks', hq, hcopied⟩ := copied_expand hs hmin hat hsome
    (show (if n - 12 < rtAlign newsize then n - 12 else rtAlign newsize) ≤ n - 12 by
      split <;> omega) (by split <;> omega)
  obtain ⟨m, hm, hnew⟩ := hcopied.room
  have hframe := hcopied.frame
  rw [hq] at hcopied hframe ⊢
  refine ⟨List.mem_cons_self, ?_, fun i hi => ?_,
    others_unchanged hs hcopied.tiles hframe hcopied.others⟩
  · refine Nat.le_trans ?_ (Nat.le_of_eq (Eq.symm (capacity_block hcopied.tiles hnew ?_)))
    · unfold sizeofStructMem
      omega
    · rw [hframe.heapPtr]
  · rw [hs.capacity hat] at hi
    unfold sizeofStructMem at hi
    refine (byte_block (congrArg (· + ptr' + sizeofStructMem) hframe.heapPtr.symm) i).trans ?_
    rw [byte_block rfl]
    refine hcopied.content i ?_
    split <;> omega

/-- A size that `RT_ALIGN` wraps is taken for 0, and the block is freed. -/
theorem not_reallocSafe {p newsize : Nat} (hs : Held s blocks) (hp : p ∈ s.live.map Prod.fst)
    (hlarge : alignMax < newsize) (hlt : newsize < 0x100000000) : ¬ReallocSafe s p newsize := by
  obtain ⟨hzero, -⟩ := mallocSize_wraps hlarge hlt
  rintro ⟨heap, nmem, hrealloc, hsafe⟩
  rw [rtRealloc_none (.inr hzero), if_pos hzero] at hrealloc
  cases hrealloc
  obtain ⟨hsame, -⟩ := hsafe (Nat.zero_lt_of_lt hlarge)
  -- the block is gone from `used_mem`
  obtain ⟨ptr, n, hat, rfl⟩ := hs.block hp
  obtain ⟨pre, b, post, rfl, hb, hptr, rfl⟩ := exists_of_starts hat
  rw [Nat.zero_add] at hptr
  subst hptr
  obtain ⟨g, hfree, -, -, -, hused, -⟩ := rtFree_plugs hs.sound hb
  have hfits := hs.sound.placed.fits
  have hle := hs.sound.tiles.le_end
  have hdata := b.large
  rw [hfree] at hsame
  have hstats := (stats_plugHoles g (span pre)).usedMem
  rw [hsame, hused] at hstats
  unfold sub32 at hstats
  omega

end Moving

/-! ## The law of `rt_realloc` -/

/-- **`rt_realloc` keeps the content and fails without a trace**, in every state of any heap, if no
call of `rt_calloc` clears more than it got, for every pointer that was handed out, exactly for the
sizes that `RT_ALIGN` does not wrap. -/
theorem heap_realloc_iff {heap : Heap} {s : MemSystem} {memory : ByteMemory}
    {beginAddr endAddr : BitVec 32}
    (hinit : rtSystemHeapInit memory beginAddr.toNat endAddr.toNat = some heap)
    (hr : (memMachine heap).Reach KeepsHeaders s) {p : Nat} (hp : p ∈ s.live.map Prod.fst)
    (newsize : BitVec 32) : ReallocSafe s p newsize.toNat ↔ newsize.toNat ≤ alignMax := by
  obtain ⟨b, hfresh⟩ := rtSystemHeapInit_spec hinit
  rcases Nat.lt_or_ge heap.memSizeAligned 12 with htiny | hmin
  · rw [eq_of_run_tiny hfresh htiny hr] at hp
    exact absurd hp List.not_mem_nil
  have hrun : ∃ blocks, Moves ⟨heap, []⟩ s [b] blocks False False :=
    moves_of_run hfresh hmin (fun _ _ => id) False.elim False.elim hr
  obtain ⟨blocks, hmoves⟩ := hrun
  have hmin' : 12 ≤ s.heap.memSizeAligned := by
    rw [hmoves.frame.memSizeAligned]
    exact hmin
  constructor
  · intro hsafe
    refine Nat.le_of_not_lt fun hlarge => ?_
    exact not_reallocSafe hmoves.held hp hlarge newsize.isLt hsafe
  · exact reallocSafe_of_le hmoves.held hmin' hp

/-- A block with two bytes in it grows between two others. -/
theorem heap_realloc_iff_grown : ∃ s, (memMachine smallHeap).Reach KeepsHeaders s ∧
    s.byte 0x1024 1 = 7 ∧ ReallocSafe s 0x1024 (40 : BitVec 32).toNat := by
  obtain ⟨s, hr, hp, hbyte⟩ := (memMachine smallHeap).exists_reach_of_run KeepsHeaders
    [.malloc 12, .malloc 5, .malloc 20, .store 0x1024 0 9, .store 0x1024 1 7]
    (fun s => 0x1024 ∈ s.live.map Prod.fst ∧ s.byte 0x1024 1 = 7) (by decide +kernel)
  exact ⟨s, hr, hbyte, (heap_realloc_iff smallHeap_init hr hp 40).mpr (by decide)⟩

/-- `rt_realloc` to 0xFFFFFFFD bytes answers NULL, and the block is free. -/
theorem heap_realloc_freed : ∃ s, (memMachine smallHeap).Reach Machine.any s ∧
    0x100C ∈ s.live.map Prod.fst ∧ ¬ReallocSafe s 0x100C (0xFFFFFFFD : BitVec 32).toNat ∧
      ∃ heap, rtRealloc s.heap (some 0x100C) (0xFFFFFFFD : BitVec 32).toNat = some (heap, none) ∧
        (heap.hdr 0).used = 0 := by
  obtain ⟨s, hr, hp, hused⟩ := (memMachine smallHeap).exists_reach_of_run KeepsHeaders
    [.malloc 20] (fun s => 0x100C ∈ s.live.map Prod.fst ∧
      ((rtFree s.heap (some 0x100C)).hdr 0).used = 0) (by decide +kernel)
  obtain ⟨b, hfresh⟩ := rtSystemHeapInit_spec smallHeap_init
  have hrun : ∃ blocks, Moves ⟨smallHeap, []⟩ s [b] blocks False False :=
    moves_of_run hfresh (by decide) (fun _ _ => id) False.elim False.elim hr
  obtain ⟨blocks, hmoves⟩ := hrun
  have hzero : rtAlign (0xFFFFFFFD : BitVec 32).toNat = 0 := by decide
  have hrealloc := rtRealloc_none (h := s.heap) (.inr hzero) (some 0x100C)
  rw [if_pos hzero] at hrealloc
  exact ⟨s, hr.mono fun _ _ _ => trivial, hp,
    not_reallocSafe hmoves.held hp (by decide) (by decide), _, hrealloc, hused⟩

end RtVcom.Kernel

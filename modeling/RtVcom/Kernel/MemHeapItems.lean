import RtVcom.Lib.Ring
import RtVcom.Kernel.MemHeap

/-!
# What the stores to the items do

The fields of items that do not overlap (`Spread`) are variables of their own: a view gives each
field of each item a value, and a memory agrees with it on the items (`Agree`). A store is then an
update of the view (`Agree.store`), and each group of stores of `memheap.c` is a change of one
pair of links: an item is passed over (`Links.bypass`) or put behind another one
(`Links.insertAfter`).

Where an item is made, and where its header lies over that of an item that was there before, is of
no account here: the view may give any address a value.
-/

namespace RtVcom.Kernel

open RtVcom.Lib

/-! ## Views -/

/-- A value for each field of the item at each address. -/
abbrev ItemView := ItemField → Nat → Nat

namespace ItemView

variable (v : ItemView)

/-- `next` and `prev`. -/
def items : Links Nat := ⟨v .next, v .prev⟩

/-- `next_free` and `prev_free`. -/
def frees : Links Nat := ⟨v .nextFree, v .prevFree⟩

/-- One field of one item is changed. -/
def set (f : ItemField) (p x : Nat) : ItemView :=
  Function.update v f (Function.update (v f) p x)

/-- All fields of one item. -/
def put (p magic poolPtr next prev nextFree prevFree : Nat) : ItemView
  | .magic => Function.update (v .magic) p magic
  | .poolPtr => Function.update (v .poolPtr) p poolPtr
  | .next => Function.update (v .next) p next
  | .prev => Function.update (v .prev) p prev
  | .nextFree => Function.update (v .nextFree) p nextFree
  | .prevFree => Function.update (v .prevFree) p prevFree

def withItems (k : Links Nat) : ItemView :=
  Function.update (Function.update v .next k.next) .prev k.prev

def withFrees (k : Links Nat) : ItemView :=
  Function.update (Function.update v .nextFree k.next) .prevFree k.prev

end ItemView

/-- Items at these addresses lie in memory and do not overlap. -/
structure Spread (V : Nat → Prop) : Prop where
  fits : ∀ p, V p → p + 24 ≤ 0x100000000
  apart : ∀ p q, V p → V q → p ≠ q → p + 24 ≤ q ∨ q + 24 ≤ p

theorem Spread.mono {V W : Nat → Prop} (h : Spread V) (hle : ∀ p, W p → V p) : Spread W :=
  ⟨fun p hp => h.fits p (hle p hp), fun p q hp hq => h.apart p q (hle p hp) (hle q hq)⟩

theorem Spread.lt {V : Nat → Prop} (h : Spread V) {p : Nat} (hp : V p) : p < 0x100000000 := by
  have := h.fits p hp
  omega

/-- The memory holds the fields of these items. -/
def Agree (V : Nat → Prop) (m : ByteMemory) (v : ItemView) : Prop :=
  ∀ f p, V p → getField m f p = v f p

theorem Agree.refl (V : Nat → Prop) (m : ByteMemory) : Agree V m (getField m) := fun _ _ _ => rfl

/-- Two different fields of an item do not overlap. -/
theorem ItemField.offset_apart {f g : ItemField} (h : f ≠ g) :
    f.offset + 4 ≤ g.offset ∨ g.offset + 4 ≤ f.offset := by
  cases f <;> cases g <;> first | exact absurd rfl h | decide

theorem ItemField.offset_le (f : ItemField) : f.offset + 4 ≤ 24 := by cases f <;> decide

/-- What lies outside of a header does not matter to it. -/
theorem getField_congr {m m' : ByteMemory} {p : Nat} (h : ∀ x, p ≤ x → x < p + 24 → m' x = m x)
    (f : ItemField) : getField m' f p = getField m f p := by
  have hle := f.offset_le
  exact ByteMemory.load_congr fun x hx hlt => h x (by omega) (by omega)

section Stores

variable {V : Nat → Prop} {m : ByteMemory} {v : ItemView} {f : ItemField} {p q x fl self : Nat}

/-- A store to a field of one of the items. -/
theorem Agree.store (hV : Spread V) (h : Agree V m v) (hp : V p) (hx : x < 0x100000000) :
    Agree V (setField m f p x) (v.set f p x) := by
  intro g q hq
  unfold ItemView.set
  by_cases hfg : g = f
  · subst hfg
    rw [Function.update_self]
    by_cases hqp : q = p
    · subst hqp
      rw [Function.update_self]
      exact ByteMemory.load_store_of_lt (k := 4) hx
    · have hle := g.offset_le
      have hapart := hV.apart q p hq hp hqp
      rw [Function.update_of_ne hqp, ← h g q hq]
      exact ByteMemory.load_store_other (by omega)
  · rw [Function.update_of_ne hfg, ← h g q hq]
    have hf := f.offset_le
    have hg := g.offset_le
    have hfields := ItemField.offset_apart hfg
    refine ByteMemory.load_store_other ?_
    by_cases hqp : q = p
    · subst hqp
      omega
    · have hapart := hV.apart q p hq hp hqp
      omega

/-- A view that is the same on the items. -/
theorem Agree.congr {w : ItemView} (h : Agree V m v) (hsame : ∀ f p, V p → w f p = v f p) :
    Agree V m w := fun f p hp => (h f p hp).trans (hsame f p hp).symm

end Stores

/-! ## The groups of stores -/

namespace ItemView

variable {v : ItemView} {k : Links Nat} {p q x y : Nat}

/-- Stores to different fields commute. -/
theorem set_comm {f g : ItemField} (h : f ≠ g) :
    (v.set f p x).set g q y = (v.set g q y).set f p x := by
  unfold set
  rw [Function.update_of_ne h.symm, Function.update_of_ne h, Function.update_comm h]

@[simp] theorem items_withItems : (v.withItems k).items = k := rfl
@[simp] theorem frees_withItems : (v.withItems k).frees = v.frees := rfl
@[simp] theorem items_withFrees : (v.withFrees k).items = v.items := rfl
@[simp] theorem frees_withFrees : (v.withFrees k).frees = k := rfl
@[simp] theorem magic_withItems : (v.withItems k) .magic = v .magic := rfl
@[simp] theorem magic_withFrees : (v.withFrees k) .magic = v .magic := rfl
@[simp] theorem poolPtr_withItems : (v.withItems k) .poolPtr = v .poolPtr := rfl
@[simp] theorem poolPtr_withFrees : (v.withFrees k) .poolPtr = v .poolPtr := rfl

end ItemView

section Groups

variable {V : Nat → Prop} {m : ByteMemory} {v : ItemView} {p q fl self : Nat}

/-- A link that is set to what it is set to already reads the same. -/
theorem update_at_self {f : Nat → Nat} {p q x : Nat} (h : p = q → x = f q) :
    Function.update f p x q = f q := by
  by_cases heq : q = p
  · subst heq
    rw [Function.update_self]
    exact h rfl
  · rw [Function.update_of_ne heq]

/-- `unlinkFree` passes an item over in the free list. -/
theorem agree_unlinkFree (hV : Spread V) (h : Agree V m v) (hp : V p) (hnext : V (v .nextFree p))
    (hprev : V (v .prevFree p)) :
    Agree V (unlinkFree m p) (v.withFrees (v.frees.bypass p)) := by
  have hfirst := h.store (f := .prevFree) hV hnext (hV.lt hprev)
  have hback : Function.update (v .prevFree) (v .nextFree p) (v .prevFree p) p = v .prevFree p :=
    update_at_self fun _ => rfl
  have hreadPrev := (hfirst .prevFree p hp).trans hback
  have hreadNext := hfirst .nextFree p hp
  have hsecond := hfirst.store (f := .nextFree) hV hprev (hV.lt hnext)
  rw [ItemView.set_comm (by decide)] at hsecond
  unfold unlinkFree
  dsimp only
  rw [h .nextFree p hp, h .prevFree p hp, hreadPrev, hreadNext]
  exact hsecond

/-- An item that leaves the row is passed over, whichever of its neighbours is told first. -/
theorem agree_unlinkItem (hV : Spread V) (h : Agree V m v) (hp : V p) (hnext : V (v .next p))
    (hprev : V (v .prev p)) :
    Agree V (unlinkItem m p) (v.withItems (v.items.bypass p)) := by
  have hfirst := h.store (f := .prev) hV hnext (hV.lt hprev)
  have hback : Function.update (v .prev) (v .next p) (v .prev p) p = v .prev p :=
    update_at_self fun _ => rfl
  have hreadPrev := (hfirst .prev p hp).trans hback
  have hreadNext := hfirst .next p hp
  have hsecond := hfirst.store (f := .next) hV hprev (hV.lt hnext)
  rw [ItemView.set_comm (by decide)] at hsecond
  unfold unlinkItem
  dsimp only
  rw [h .next p hp, h .prev p hp, hreadPrev, hreadNext]
  exact hsecond

/-- `unlinkItemNext` bypasses its item. -/
theorem agree_unlinkItemNext (hV : Spread V) (h : Agree V m v) (hp : V p) (hnext : V (v .next p))
    (hprev : V (v .prev p)) :
    Agree V (unlinkItemNext m p) (v.withItems (v.items.bypass p)) := by
  have hfirst := h.store (f := .next) hV hprev (hV.lt hnext)
  have hback : Function.update (v .next) (v .prev p) (v .next p) p = v .next p :=
    update_at_self fun _ => rfl
  have hreadNext := (hfirst .next p hp).trans hback
  have hreadPrev := hfirst .prev p hp
  have hsecond := hfirst.store (f := .prev) hV hnext (hV.lt hprev)
  unfold unlinkItemNext
  dsimp only
  rw [h .next p hp, h .prev p hp, hreadPrev, hreadNext]
  exact hsecond

/-- The item behind `p` is passed over. -/
theorem agree_absorbNext (hV : Spread V) (h : Agree V m v) (hp : V p) (hq : V q)
    (hpq : v .next p = q) (hqp : v .prev q = p) (hnext : V (v .next q)) :
    Agree V (absorbNext m p) (v.withItems (v.items.bypass q)) := by
  have hfirst := h.store (f := .prev) hV hnext (hV.lt hp)
  have hreadNext := hfirst .next q hq
  have hsecond := hfirst.store (f := .next) hV hp (hV.lt hnext)
  rw [ItemView.set_comm (by decide)] at hsecond
  unfold absorbNext
  dsimp only
  rw [h .next p hp, hpq, h .next q hq, hreadNext]
  unfold ItemView.items Links.bypass
  dsimp only
  rw [hqp]
  exact hsecond

/-- `pushFree` puts an item behind the header of the free list. -/
theorem agree_pushFree (hV : Spread V) (h : Agree V m v) (hp : V p) (hfl : V fl)
    (hnext : V (v .nextFree fl)) (hne : p ≠ v .nextFree fl) :
    Agree V (pushFree fl m p) (v.withFrees (v.frees.insertAfter fl p)) := by
  have h₁ := h.store (f := .nextFree) hV hp (hV.lt hnext)
  have h₂ := h₁.store (f := .prevFree) hV hp (hV.lt hfl)
  have hfirst : Function.update (v .nextFree) p (v .nextFree fl) fl = v .nextFree fl :=
    update_at_self fun _ => rfl
  have hread := (h₂ .nextFree fl hfl).trans hfirst
  have h₃ := h₂.store (f := .prevFree) hV hnext (hV.lt hp)
  have h₄ := h₃.store (f := .nextFree) hV hfl (hV.lt hp)
  unfold pushFree
  dsimp only
  rw [h .nextFree fl hfl, hread]
  refine h₄.congr fun f q _ => ?_
  unfold ItemView.frees ItemView.withFrees Links.insertAfter
  dsimp only
  rw [Function.update_comm hne.symm]
  cases f <;> rfl

/-- `linkItem` puts an item behind another one in the row, with its magic number and its pool. -/
theorem agree_linkItem (hV : Spread V) (h : Agree V m v) (hself : self < 0x100000000) (hp : V p)
    (hq : V q) (hpq : p ≠ q) (hnext : V (v .next p)) (hne : q ≠ v .next p) :
    Agree V (linkItem self m p q)
      (((v.set .magic q rtMemheapMagic).set .poolPtr q self).withItems
        (v.items.insertAfter p q)) := by
  have h₁ := h.store (f := .magic) hV hq (show rtMemheapMagic < _ by decide)
  have h₂ := h₁.store (f := .poolPtr) hV hq hself
  have h₃ := h₂.store (f := .prev) hV hq (hV.lt hp)
  have hsame : (((v.set .magic q rtMemheapMagic).set .poolPtr q self).set .prev q p) .next p =
      v .next p := rfl
  have hread₃ := (h₃ .next p hp).trans hsame
  have h₄ := h₃.store (f := .next) hV hq (hV.lt hnext)
  have hread₄ := (h₄ .next p hp).trans (Function.update_of_ne hpq ..)
  have h₅ := h₄.store (f := .prev) hV hnext (hV.lt hq)
  have h₆ := h₅.store (f := .next) hV hp (hV.lt hq)
  unfold linkItem
  dsimp only
  rw [hread₃, hread₄]
  refine h₆.congr fun f x _ => ?_
  unfold ItemView.items ItemView.withItems Links.insertAfter
  dsimp only
  rw [Function.update_comm hne.symm]
  cases f <;> rfl

theorem agree_clearFree (hV : Spread V) (h : Agree V m v) (hp : V p) :
    Agree V (clearFree m p) ((v.set .nextFree p 0).set .prevFree p 0) :=
  (h.store hV hp (by decide)).store hV hp (by decide)

/-- All fields of a header are written. -/
theorem agree_initItem {magic poolPtr next prev nextFree prevFree : Nat} (hV : Spread V)
    (h : Agree V m v) (hp : V p) (hmagic : magic < 0x100000000) (hpool : poolPtr < 0x100000000)
    (hnext : next < 0x100000000) (hprev : prev < 0x100000000) (hnextFree : nextFree < 0x100000000)
    (hprevFree : prevFree < 0x100000000) :
    Agree V (initItem m p magic poolPtr next prev nextFree prevFree)
      (v.put p magic poolPtr next prev nextFree prevFree) := by
  have h₁ := h.store (f := .magic) hV hp hmagic
  have h₂ := h₁.store (f := .poolPtr) hV hp hpool
  have h₃ := h₂.store (f := .next) hV hp hnext
  have h₄ := h₃.store (f := .prev) hV hp hprev
  have h₅ := h₄.store (f := .nextFree) hV hp hnextFree
  refine (h₅.store (f := .prevFree) hV hp hprevFree).congr fun f q _ => ?_
  cases f <;> rfl

end Groups

end RtVcom.Kernel

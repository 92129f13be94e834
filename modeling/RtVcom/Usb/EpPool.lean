import RtVcom.Kernel.Ipc
import RtVcom.Lib.Object

/-!
# The endpoint pool

The endpoints that a controller has are the entries of `dcd->ep_pool`. `rt_usbd_ep_assign` gives
an endpoint the first free entry of its type and direction and puts the entry's number into the
address of the endpoint's descriptor; `rt_usbd_ep_unassign` gives the entry back. The number is
OR-ed into the address and never taken out again, the entry that an endpoint had is forgotten
when it is given another, and an entry is given back by whoever had it last.

**The law** (`ep_pool_iff`): every endpoint has the address of its own entry, and the entries in
use are those that are marked, in every state of a run exactly if every call meets
`EpPool.Proper` in the state it is made in.
-/

namespace RtVcom.Usb

open RtVcom.Lib RtVcom.Kernel

/-! ## The model -/

/-- `struct ep_id`; `assigned` is `status == ID_ASSIGNED`. -/
structure EpId where
  addr : BitVec 8
  type : BitVec 8
  dir : BitVec 8
  maxpacket : Nat
  assigned : Bool
deriving Repr, DecidableEq

/-- An endpoint, as the pool sees it: two fields of its descriptor, and the entry that `id` points
to, if it points to one. -/
structure PoolEp where
  bEndpointAddress : BitVec 8
  bmAttributes : BitVec 8
  id : Option Nat
deriving Repr, DecidableEq

/-- `rt_usbd_endpoint_new`, which does not write `id`. -/
def rtUsbdEndpointNew (bEndpointAddress bmAttributes : BitVec 8) : PoolEp :=
  { bEndpointAddress, bmAttributes, id := none }

/-- An entry is free and of the endpoint's type and direction. -/
def PoolEp.Takes (ep : PoolEp) (id : EpId) : Prop :=
  id.assigned = false ∧ ep.bmAttributes = id.type ∧ ep.bEndpointAddress &&& 0x80 = id.dir

instance (ep : PoolEp) (id : EpId) : Decidable (ep.Takes id) :=
  inferInstanceAs (Decidable (_ ∧ _ ∧ _))

/-- The loop of `rt_usbd_ep_assign`: the entry that it finds, with its place. -/
def epFind (ep : PoolEp) : List EpId → Option (Nat × EpId)
  | [] => none
  | id :: rest =>
    if id.addr = 0xFF then none
    else if ep.Takes id then some (0, id)
    else (epFind ep rest).map fun (i, id) => (i + 1, id)

/-- `status` of one entry. -/
def setAssigned (pool : List EpId) (i : Nat) (assigned : Bool) : List EpId :=
  pool.modify i fun id => { id with assigned }

/-- `rt_usbd_ep_assign`. -/
def rtUsbdEpAssign (pool : List EpId) (ep : PoolEp) : List EpId × PoolEp × Int :=
  match epFind ep pool with
  | some (i, id) =>
    (setAssigned pool i true,
      { ep with bEndpointAddress := ep.bEndpointAddress ||| id.addr, id := some i }, rtEok)
  | none => (pool, ep, -rtError)

/-- `rt_usbd_ep_unassign`. Without a result `id` does not point to an entry. -/
def rtUsbdEpUnassign (pool : List EpId) (ep : PoolEp) : Option (List EpId × Int) :=
  ep.id.map fun i => (setAssigned pool i false, rtEok)

/-! ## The run -/

/-- An endpoint with the entry it holds: what it was given last, until it gives it back. -/
structure HeldEp where
  ep : PoolEp
  holds : Option Nat
deriving Repr, DecidableEq

/-- The pool and the endpoints. `fault` is set by a call that uses an `id` that points nowhere. -/
structure EpPool where
  pool : List EpId
  eps : List HeldEp
  fault : Bool
deriving Repr, DecidableEq

/-- A call for one of the endpoints. -/
inductive EpCall
  | assign (e : Nat)
  | unassign (e : Nat)
deriving Repr, DecidableEq

def EpPool.assign (s : EpPool) (e : Nat) (x : HeldEp) : EpPool × Int :=
  let (pool, ep, result) := rtUsbdEpAssign s.pool x.ep
  let holds := if result = rtEok then ep.id else x.holds
  ({ s with pool, eps := s.eps.set e { ep, holds } }, result)

def EpPool.unassign (s : EpPool) (e : Nat) (x : HeldEp) : EpPool × Int :=
  match rtUsbdEpUnassign s.pool x.ep with
  | some (pool, result) => ({ s with pool, eps := s.eps.set e { x with holds := none } }, result)
  | none => ({ s with fault := true }, rtEok)

/-- A call, and its result. -/
def EpPool.call (s : EpPool) : EpCall → EpPool × Int
  | .assign e =>
    match s.eps[e]? with
    | some x => s.assign e x
    | none => (s, rtEok)
  | .unassign e =>
    match s.eps[e]? with
    | some x => s.unassign e x
    | none => (s, rtEok)

/-- A pool, and new endpoints for some descriptors, of which the address and the attributes are
given. They hold nothing. -/
def epPoolObject (pool : List EpId) (descs : List (BitVec 8 × BitVec 8)) :
    Object EpPool EpCall Int where
  init := {
    pool
    eps := descs.map fun desc => ⟨rtUsbdEndpointNew desc.1 desc.2, none⟩
    fault := false }
  call := EpPool.call

/-- An entry that is assigned from the start. -/
def Reserved (pool : List EpId) (i : Nat) : Prop :=
  ∃ id, pool[i]? = some id ∧ id.assigned = true

/-- The endpoint has the address of an entry, and its type and direction. -/
structure PoolEp.Has (ep : PoolEp) (id : EpId) : Prop where
  address : ep.bEndpointAddress = id.addr ||| id.dir
  dir : ep.bEndpointAddress &&& 0x80 = id.dir
  type : ep.bmAttributes = id.type

/-- What the pool is for: the addresses in use are those of the entries held, and differ, and an
entry is assigned exactly while an endpoint holds it, or if it was reserved. -/
structure EpPool.Allocated (s : EpPool) (pool : List EpId) : Prop where
  unfaulted : s.fault = false
  distinct : ∀ (e f : Nat) (x y : HeldEp) (i j : Nat), s.eps[e]? = some x →
    s.eps[f]? = some y → x.holds = some i → y.holds = some j → e ≠ f →
    x.ep.bEndpointAddress ≠ y.ep.bEndpointAddress
  has : ∀ (e : Nat) (x : HeldEp) (i : Nat), s.eps[e]? = some x → x.holds = some i →
    ∃ id, s.pool[i]? = some id ∧ x.ep.Has id
  status : ∀ (i : Nat) (id : EpId), s.pool[i]? = some id →
    (id.assigned = true ↔
      (∃ (e : Nat) (x : HeldEp), s.eps[e]? = some x ∧ x.holds = some i) ∨ Reserved pool i)

/-- No entry that is held makes the address that this one makes. -/
def EpPool.NumberFree (s : EpPool) (id : EpId) : Prop :=
  ∀ y ∈ s.eps, ∀ k ∈ y.holds, ∀ held ∈ s.pool[k]?,
    held.addr ||| held.dir ≠ id.addr ||| id.dir

instance (s : EpPool) (id : EpId) : Decidable (s.NumberFree id) :=
  inferInstanceAs (Decidable (∀ y ∈ s.eps, ∀ k ∈ y.holds, ∀ held ∈ s.pool[k]?, _))

/-- An endpoint that holds nothing may be given an entry whose number covers what its address has
beside the direction, and makes an address of its own. -/
def EpPool.MayHold (s : EpPool) (x : HeldEp) (id : EpId) : Prop :=
  x.holds = none ∧ x.ep.bEndpointAddress ||| id.addr = id.addr ||| id.dir ∧
    (id.addr ||| id.dir) &&& 0x80 = id.dir ∧ s.NumberFree id

instance (s : EpPool) (x : HeldEp) (id : EpId) : Decidable (s.MayHold x id) :=
  inferInstanceAs (Decidable (_ ∧ _ ∧ _ ∧ _))

/-- The condition on a call: an endpoint that is given an entry may hold it, and one that gives an
entry back had one, which no other endpoint holds. -/
def EpPool.Proper (s : EpPool) : EpCall → Prop
  | .assign e => ∀ x ∈ s.eps[e]?, ∀ found ∈ epFind x.ep s.pool, s.MayHold x found.2
  | .unassign e => ∀ x ∈ s.eps[e]?, x.ep.id ≠ none ∧
      ∀ f < s.eps.length, f ≠ e → ∀ y ∈ s.eps[f]?, y.holds ≠ x.ep.id

instance : DecidableRel EpPool.Proper := fun s call => by
  cases call <;> unfold EpPool.Proper <;> infer_instance

/-! ## One call -/

variable {s t : EpPool} {pool : List EpId} {ep : PoolEp} {id : EpId} {x y : HeldEp} {e f i j : Nat}

/-- The entry that the loop finds is free and fits. -/
theorem epFind_spec (h : epFind ep pool = some (i, id)) : pool[i]? = some id ∧ ep.Takes id := by
  induction pool generalizing i with
  | nil => cases h
  | cons first rest ih =>
    unfold epFind at h
    split at h
    · cases h
    · split at h
      · next htakes =>
        cases h
        exact ⟨rfl, htakes⟩
      · obtain ⟨⟨k, found⟩, hfound, heq⟩ := Option.map_eq_some_iff.mp h
        cases heq
        exact ih hfound

/-- One endpoint of the pool is marked, and no other. -/
theorem getElem?_setAssigned (pool : List EpId) (i j : Nat) (assigned : Bool) :
    (setAssigned pool i assigned)[j]? =
      if i = j then pool[j]?.map (fun id => { id with assigned }) else pool[j]? := by
  rw [setAssigned, List.getElem?_modify]
  split
  · rfl
  · exact Option.map_id'

/-- The endpoints behind a call for one of them. -/
theorem getElem?_set_eq_some_iff {eps : List HeldEp} {z : HeldEp} (hx : eps[e]? = some x) :
    (eps.set e y)[f]? = some z ↔ f = e ∧ z = y ∨ f ≠ e ∧ eps[f]? = some z := by
  have hlt := (List.getElem?_eq_some_iff.mp hx).1
  rw [List.getElem?_set]
  by_cases hsame : f = e
  · rw [if_pos hsame.symm, if_pos hlt, Option.some.injEq]
    simp only [hsame, true_and, ne_eq, not_true_eq_false, false_and, or_false]
    exact eq_comm
  · rw [if_neg (Ne.symm hsame)]
    simp only [hsame, false_and, ne_eq, not_false_eq_true, true_and, false_or]

/-- `EpPool.Allocated` with what it rests on: what an endpoint holds is what its `id` points to, and
`id` never points to a reserved entry. -/
structure EpPool.Kept (s : EpPool) (pool : List EpId) : Prop extends s.Allocated pool where
  held : ∀ (e : Nat) (x : HeldEp) (i : Nat), s.eps[e]? = some x → x.holds = some i →
    x.ep.id = some i
  unreserved : ∀ (e : Nat) (x : HeldEp) (i : Nat), s.eps[e]? = some x → x.ep.id = some i →
    ¬Reserved pool i

/-- The address of an endpoint that holds something is not one that is free. -/
theorem EpPool.Kept.address_ne (h : s.Kept pool) (hfree : s.NumberFree id)
    (hy : s.eps[f]? = some y) (hyj : y.holds = some j) :
    y.ep.bEndpointAddress ≠ id.addr ||| id.dir := by
  obtain ⟨held, hheld, hhas⟩ := h.has f y j hy hyj
  rw [hhas.address]
  exact hfree y (List.mem_of_getElem? hy) j hyj held hheld

/-- An endpoint is still in the pool when another one is marked. -/
theorem PoolEp.Has.of_setAssigned {k : Nat} {assigned : Bool}
    (h : ∃ id, pool[i]? = some id ∧ ep.Has id) :
    ∃ id, (setAssigned pool k assigned)[i]? = some id ∧ ep.Has id := by
  obtain ⟨id, hid, hhas⟩ := h
  rw [getElem?_setAssigned, hid]
  split
  · exact ⟨{ id with assigned }, rfl, hhas.address, hhas.dir, hhas.type⟩
  · exact ⟨id, rfl, hhas⟩

/-- The state behind an assignment. -/
theorem EpPool.assign_some (hfind : epFind x.ep s.pool = some (i, id)) :
    (s.assign e x).1 = { s with
      pool := setAssigned s.pool i true
      eps := s.eps.set e
        ⟨{ x.ep with bEndpointAddress := x.ep.bEndpointAddress ||| id.addr, id := some i },
          some i⟩ } := by
  simp only [EpPool.assign, rtUsbdEpAssign, hfind, if_true]

/-- A failed assignment leaves everything as it is. -/
theorem EpPool.assign_none (hx : s.eps[e]? = some x) (hfind : epFind x.ep s.pool = none) :
    s.assign e x = (s, -rtError) := by
  have hset : s.eps.set e x = s.eps := by
    apply List.ext_getElem?
    intro f
    by_cases hsame : f = e
    · rw [hsame, hx]
      exact (getElem?_set_eq_some_iff hx).mpr (.inl ⟨rfl, rfl⟩)
    · exact List.getElem?_set_ne (Ne.symm hsame)
  simp only [EpPool.assign, rtUsbdEpAssign, hfind, show ¬-rtError = rtEok by decide, if_false, hset]

/-- An entry that is given to an endpoint which may hold it. -/
theorem EpPool.Kept.assign_of_mayHold (h : s.Kept pool) (hx : s.eps[e]? = some x)
    (hfind : epFind x.ep s.pool = some (i, id)) (hmay : s.MayHold x id) :
    (s.assign e x).1.Kept pool := by
  obtain ⟨hentry, hunassigned, htype, hdir⟩ := epFind_spec hfind
  obtain ⟨hnone, haddress, hbit, hfreeNumber⟩ := hmay
  have hstatus := h.status i id hentry
  rw [hunassigned] at hstatus
  have hfree : ¬Reserved pool i := fun hres => absurd (hstatus.mpr (.inr hres)) Bool.false_ne_true
  rw [EpPool.assign_some hfind]
  refine ⟨⟨h.unfaulted, ?_, ?_, ?_⟩, ?_, ?_⟩
  · intro f g y z j k hy hz hyj hzk hne
    rcases (getElem?_set_eq_some_iff hx).mp hy with ⟨rfl, rfl⟩ | ⟨-, hy'⟩
    · rcases (getElem?_set_eq_some_iff hx).mp hz with ⟨rfl, -⟩ | ⟨-, hz'⟩
      · exact absurd rfl hne
      · exact fun heq => h.address_ne hfreeNumber hz' hzk (heq.symm.trans haddress)
    · rcases (getElem?_set_eq_some_iff hx).mp hz with ⟨rfl, rfl⟩ | ⟨-, hz'⟩
      · exact fun heq => h.address_ne hfreeNumber hy' hyj (heq.trans haddress)
      · exact h.distinct f g y z j k hy' hz' hyj hzk hne
  · intro f y j hy hyj
    refine PoolEp.Has.of_setAssigned ?_
    rcases (getElem?_set_eq_some_iff hx).mp hy with ⟨rfl, rfl⟩ | ⟨-, hy⟩
    · cases hyj
      exact ⟨id, hentry, haddress, (congrArg (· &&& 0x80) haddress).trans hbit, htype⟩
    · exact h.has f y j hy hyj
  · intro k other hother
    rw [getElem?_setAssigned] at hother
    by_cases hik : i = k
    · subst hik
      rw [if_pos rfl, hentry] at hother
      cases hother
      exact iff_of_true rfl
        (.inl ⟨e, _, (getElem?_set_eq_some_iff hx).mpr (.inl ⟨rfl, rfl⟩), rfl⟩)
    · rw [if_neg hik] at hother
      rw [h.status k other hother]
      refine or_congr_left ⟨?_, ?_⟩
      · rintro ⟨f, y, hy, hyk⟩
        have hfe : f ≠ e := by
          rintro rfl
          rw [hx] at hy
          cases hy
          rw [hnone] at hyk
          cases hyk
        exact ⟨f, y, (getElem?_set_eq_some_iff hx).mpr (.inr ⟨hfe, hy⟩), hyk⟩
      · rintro ⟨f, y, hy, hyk⟩
        rcases (getElem?_set_eq_some_iff hx).mp hy with ⟨rfl, rfl⟩ | ⟨-, hy⟩
        · exact absurd (Option.some.inj hyk) hik
        · exact ⟨f, y, hy, hyk⟩
  · intro f y j hy hyj
    rcases (getElem?_set_eq_some_iff hx).mp hy with ⟨rfl, rfl⟩ | ⟨-, hy⟩
    · exact hyj
    · exact h.held f y j hy hyj
  · intro f y j hy hyj
    rcases (getElem?_set_eq_some_iff hx).mp hy with ⟨rfl, rfl⟩ | ⟨-, hy⟩
    · cases hyj
      exact hfree
    · exact h.unreserved f y j hy hyj

/-- An assignment that keeps the law was one to an endpoint which may hold the entry. -/
theorem EpPool.Kept.mayHold_of_assign (h : s.Kept pool) (hx : s.eps[e]? = some x)
    (hfind : epFind x.ep s.pool = some (i, id)) (ht : (s.assign e x).1.Allocated pool) :
    s.MayHold x id := by
  obtain ⟨hentry, hunassigned, -, -⟩ := epFind_spec hfind
  rw [EpPool.assign_some hfind] at ht
  have hown {y : HeldEp} : (s.eps.set e y)[e]? = some y :=
    (getElem?_set_eq_some_iff hx).mpr (.inl ⟨rfl, rfl⟩)
  have hother {y z : HeldEp} {f : Nat} (hfe : f ≠ e) (hz : s.eps[f]? = some z) :
      (s.eps.set e y)[f]? = some z := (getElem?_set_eq_some_iff hx).mpr (.inr ⟨hfe, hz⟩)
  obtain ⟨found, hfound, hhas⟩ := ht.has e _ i hown rfl
  rw [getElem?_setAssigned, if_pos rfl, hentry] at hfound
  cases hfound
  have hnone : x.holds = none := by
    -- an entry that the endpoint held before would be marked without a holder
    refine Option.eq_none_iff_forall_ne_some.mpr fun k hholds => ?_
    obtain ⟨before, hbefore, hhasBefore⟩ := h.has e x k hx hholds
    have hmarked : before.assigned = true :=
      (h.status k before hbefore).mpr (.inl ⟨e, x, hx, hholds⟩)
    have hik : i ≠ k := by
      rintro rfl
      rw [hentry] at hbefore
      cases hbefore
      rw [hunassigned] at hmarked
      cases hmarked
    have hstill : (setAssigned s.pool i true)[k]? = some before := by
      rw [getElem?_setAssigned, if_neg hik, hbefore]
    rcases (ht.status k before hstill).mp hmarked with ⟨f, y, hy, hyk⟩ | hreserved
    · rcases (getElem?_set_eq_some_iff hx).mp hy with ⟨-, rfl⟩ | ⟨hfe, hy'⟩
      · exact hik (Option.some.inj hyk)
      · obtain ⟨left, hleft, hhasLeft⟩ := h.has f y k hy' hyk
        rw [hbefore] at hleft
        cases hleft
        exact h.distinct f e y x k k hy' hx hyk hholds hfe
          (hhasLeft.address.trans hhasBefore.address.symm)
    · exact h.unreserved e x k hx (h.held e x k hx hholds) hreserved
  refine ⟨hnone, hhas.address, ?_, ?_⟩
  · rw [← hhas.address]
    exact hhas.dir
  · intro y hy k hk held hheld heq
    obtain ⟨f, hf⟩ := List.mem_iff_getElem?.mp hy
    have hfe : f ≠ e := by
      rintro rfl
      rw [hx] at hf
      cases hf
      rw [hnone] at hk
      cases hk
    obtain ⟨same, hsame, hhasSame⟩ := h.has f y k hf hk
    rw [hsame] at hheld
    cases hheld
    exact ht.distinct f e y _ k i (hother hfe hf) hown hk rfl hfe
      (hhasSame.address.trans (heq.trans hhas.address.symm))

/-- The state behind an entry that is given back. -/
theorem EpPool.unassign_some (hid : x.ep.id = some i) :
    (s.unassign e x).1 = { s with
      pool := setAssigned s.pool i false, eps := s.eps.set e { x with holds := none } } := by
  simp only [EpPool.unassign, rtUsbdEpUnassign, hid, Option.map_some]

/-- An entry that no other endpoint holds is given back. -/
theorem EpPool.Kept.unassign_of_sole (h : s.Kept pool) (hx : s.eps[e]? = some x)
    (hid : x.ep.id = some i)
    (hsole : ∀ (f : Nat) (y : HeldEp), f ≠ e → s.eps[f]? = some y → y.holds ≠ some i) :
    (s.unassign e x).1.Kept pool := by
  rw [EpPool.unassign_some hid]
  refine ⟨⟨h.unfaulted, ?_, ?_, ?_⟩, ?_, ?_⟩
  · intro f g y z j k hy hz hyj hzk hne
    rcases (getElem?_set_eq_some_iff hx).mp hy with ⟨-, rfl⟩ | ⟨-, hy⟩
    · cases hyj
    · rcases (getElem?_set_eq_some_iff hx).mp hz with ⟨-, rfl⟩ | ⟨-, hz⟩
      · cases hzk
      · exact h.distinct f g y z j k hy hz hyj hzk hne
  · intro f y j hy hyj
    refine PoolEp.Has.of_setAssigned ?_
    rcases (getElem?_set_eq_some_iff hx).mp hy with ⟨-, rfl⟩ | ⟨-, hy⟩
    · cases hyj
    · exact h.has f y j hy hyj
  · intro k other hother
    rw [getElem?_setAssigned] at hother
    by_cases hik : i = k
    · subst hik
      rw [if_pos rfl] at hother
      obtain ⟨before, -, rfl⟩ := Option.map_eq_some_iff.mp hother
      refine iff_of_false Bool.false_ne_true ?_
      rintro (⟨f, y, hy, hyi⟩ | hreserved)
      · rcases (getElem?_set_eq_some_iff hx).mp hy with ⟨-, rfl⟩ | ⟨hfe, hy⟩
        · cases hyi
        · exact hsole f y hfe hy hyi
      · exact h.unreserved e x i hx hid hreserved
    · rw [if_neg hik] at hother
      rw [h.status k other hother]
      refine or_congr_left ⟨?_, ?_⟩
      · rintro ⟨f, y, hy, hyk⟩
        have hfe : f ≠ e := by
          rintro rfl
          rw [hx] at hy
          cases hy
          exact hik (Option.some.inj (hid.symm.trans (h.held f x k hx hyk)))
        exact ⟨f, y, (getElem?_set_eq_some_iff hx).mpr (.inr ⟨hfe, hy⟩), hyk⟩
      · rintro ⟨f, y, hy, hyk⟩
        rcases (getElem?_set_eq_some_iff hx).mp hy with ⟨-, rfl⟩ | ⟨-, hy⟩
        · cases hyk
        · exact ⟨f, y, hy, hyk⟩
  · intro f y j hy hyj
    rcases (getElem?_set_eq_some_iff hx).mp hy with ⟨-, rfl⟩ | ⟨-, hy⟩
    · cases hyj
    · exact h.held f y j hy hyj
  · intro f y j hy hyj
    rcases (getElem?_set_eq_some_iff hx).mp hy with ⟨rfl, rfl⟩ | ⟨-, hy⟩
    · exact h.unreserved f x j hx hyj
    · exact h.unreserved f y j hy hyj

/-- An entry that was given back within the law was the endpoint's to give. -/
theorem EpPool.Kept.sole_of_unassign (h : s.Kept pool) (hx : s.eps[e]? = some x)
    (ht : (s.unassign e x).1.Allocated pool) :
    ∃ i, x.ep.id = some i ∧
      ∀ (f : Nat) (y : HeldEp), f ≠ e → s.eps[f]? = some y → y.holds ≠ some i := by
  cases hid : x.ep.id with
  | none =>
    have hfault := ht.unfaulted
    simp only [EpPool.unassign, rtUsbdEpUnassign, hid, Option.map_none, reduceCtorEq] at hfault
  | some i =>
    rw [EpPool.unassign_some hid] at ht
    refine ⟨i, rfl, fun f y hfe hy hyi => ?_⟩
    obtain ⟨id, hentry, -⟩ := h.has f y i hy hyi
    have hbehind : (setAssigned s.pool i false)[i]? = some { id with assigned := false } := by
      rw [getElem?_setAssigned, if_pos rfl, hentry, Option.map_some]
    have hheld := (getElem?_set_eq_some_iff (y := { x with holds := none }) hx).mpr
      (.inr ⟨hfe, hy⟩)
    exact Bool.false_ne_true ((ht.status i _ hbehind).mpr (.inl ⟨f, y, hheld, hyi⟩))

/-! ## The law -/

/-- The condition on giving back, with the entry named. -/
theorem EpPool.proper_unassign_iff (hx : s.eps[e]? = some x) :
    s.Proper (.unassign e) ↔ ∃ i, x.ep.id = some i ∧
      ∀ (f : Nat) (y : HeldEp), f ≠ e → s.eps[f]? = some y → y.holds ≠ some i := by
  simp only [EpPool.Proper, hx, Option.mem_some_iff, forall_eq']
  constructor
  · rintro ⟨hsome, hsole⟩
    obtain ⟨i, hid⟩ := Option.ne_none_iff_exists'.mp hsome
    refine ⟨i, hid, fun f y hfe hy => ?_⟩
    rw [← hid]
    exact hsole f (List.getElem?_eq_some_iff.mp hy).1 hfe y hy
  · rintro ⟨i, hid, hsole⟩
    rw [hid]
    exact ⟨Option.some_ne_none i, fun f _ hfe y hy => hsole f y hfe hy⟩

/-- A proper call keeps the law, and no other call does. -/
theorem EpPool.Kept.call (h : s.Kept pool) (c : EpCall) :
    ((s.call c).1.Allocated pool ↔ s.Proper c) ∧ (s.Proper c → (s.call c).1.Kept pool) := by
  cases c with
  | assign e =>
    simp only [EpPool.call, EpPool.Proper]
    cases hx : s.eps[e]? with
    | none =>
      exact ⟨iff_of_true h.toAllocated fun x hmem => (by cases hmem), fun _ => h⟩
    | some x =>
      simp only [Option.mem_some_iff, forall_eq']
      cases hfind : epFind x.ep s.pool with
      | none =>
        rw [EpPool.assign_none hx hfind]
        exact ⟨iff_of_true h.toAllocated fun found hmem => (by cases hmem), fun _ => h⟩
      | some found =>
        simp only [Option.mem_some_iff, forall_eq']
        have hkept := h.assign_of_mayHold hx hfind
        exact ⟨⟨h.mayHold_of_assign hx hfind, fun hmay => (hkept hmay).toAllocated⟩, hkept⟩
  | unassign e =>
    cases hx : s.eps[e]? with
    | none =>
      simp only [EpPool.call, EpPool.Proper, hx]
      exact ⟨iff_of_true h.toAllocated fun x hmem => (by cases hmem), fun _ => h⟩
    | some x =>
      rw [EpPool.proper_unassign_iff hx]
      simp only [EpPool.call, hx]
      have hkept : (∃ i, x.ep.id = some i ∧
          ∀ (f : Nat) (y : HeldEp), f ≠ e → s.eps[f]? = some y → y.holds ≠ some i) →
          (s.unassign e x).1.Kept pool := fun ⟨i, hid, hsole⟩ => h.unassign_of_sole hx hid hsole
      exact ⟨⟨h.sole_of_unassign hx, fun hsole => (hkept hsole).toAllocated⟩, hkept⟩

/-- A pool and new endpoints. -/
theorem EpPool.kept_init (pool : List EpId) (descs : List (BitVec 8 × BitVec 8)) :
    (epPoolObject pool descs).init.Kept pool := by
  have hnew : ∀ (e : Nat) (x : HeldEp), (epPoolObject pool descs).init.eps[e]? = some x →
      x.holds = none ∧ x.ep.id = none := by
    intro e x hx
    obtain ⟨desc, -, rfl⟩ := List.mem_map.mp (List.mem_of_getElem? hx)
    exact ⟨rfl, rfl⟩
  have hholds {e i : Nat} {x : HeldEp} (hx : (epPoolObject pool descs).init.eps[e]? = some x)
      (hi : x.holds = some i) : False := by
    rw [(hnew e x hx).1] at hi
    cases hi
  refine ⟨⟨rfl, ?_, ?_, ?_⟩, ?_, ?_⟩
  · exact fun e f x y i j hx _ hi => (hholds hx hi).elim
  · exact fun e x i hx hi => (hholds hx hi).elim
  · intro i id hid
    constructor
    · exact fun hassigned => .inr ⟨id, hid, hassigned⟩
    · rintro (⟨e, x, hx, hi⟩ | ⟨same, hsame, hassigned⟩)
      · exact (hholds hx hi).elim
      · rw [show pool[i]? = some id from hid] at hsame
        cases hsame
        exact hassigned
  · exact fun e x i hx hi => (hholds hx hi).elim
  · intro e x i hx hid
    rw [(hnew e x hx).2] at hid
    cases hid

/-- Where the numbers of the pool differ by direction, an entry that is not assigned makes an
address of its own. -/
theorem EpPool.Kept.numberFree (h : s.Kept pool)
    (hnumbers : (s.pool.map fun id => (id.addr &&& 0x7F, id.dir)).Nodup)
    (hentry : s.pool[i]? = some id) (hunassigned : id.assigned = false)
    (hbit : (id.addr ||| id.dir) &&& 0x80 = id.dir) : s.NumberFree id := by
  intro y hy k hk held hheld heq
  obtain ⟨f, hf⟩ := List.mem_iff_getElem?.mp hy
  obtain ⟨same, hsame, hhas⟩ := h.has f y k hf hk
  rw [hheld] at hsame
  cases hsame
  have hdir : held.dir = id.dir := by
    rw [← hhas.dir, hhas.address, heq, hbit]
  have hlow : id.dir &&& 0x7F = 0 := by
    rw [← hbit, BitVec.and_assoc]
    exact BitVec.and_zero
  have hnumber (other : EpId) (hother : other.dir = id.dir) :
      other.addr &&& 0x7F = (other.addr ||| other.dir) &&& 0x7F := by
    rw [hother, BitVec.and_or_distrib_right, hlow]
    exact BitVec.or_zero.symm
  have hpair : (s.pool.map fun id => (id.addr &&& 0x7F, id.dir))[k]? =
      (s.pool.map fun id => (id.addr &&& 0x7F, id.dir))[i]? := by
    rw [List.getElem?_map, List.getElem?_map, hheld, hentry, Option.map_some, Option.map_some,
      hnumber held hdir, hnumber id rfl, heq, hdir]
  have hlt : k < (s.pool.map fun id => (id.addr &&& 0x7F, id.dir)).length := by
    rw [List.length_map]
    exact (List.getElem?_eq_some_iff.mp hheld).1
  have hki : k = i := (List.getElem?_inj hlt hnumbers).mp hpair
  subst hki
  rw [hheld] at hentry
  cases hentry
  have hassigned := (h.toAllocated.status k _ hheld).mpr (.inl ⟨f, y, hf, hk⟩)
  rw [hunassigned] at hassigned
  cases hassigned

/-- A failed assignment changes neither the pool nor the endpoint, and over every sequence of
calls, for every pool and all endpoints: the pool is allocated as it should be all the time exactly
if every call is proper. -/
theorem ep_pool_iff (pool : List EpId) (descs : List (BitVec 8 × BitVec 8))
    (calls : List EpCall) :
    (∀ (ids : List EpId) (ep : PoolEp), (rtUsbdEpAssign ids ep).2.2 ≠ rtEok →
        (rtUsbdEpAssign ids ep).1 = ids ∧ (rtUsbdEpAssign ids ep).2.1 = ep) ∧
      ((∀ before, before <+: calls →
          ((epPoolObject pool descs).run (epPoolObject pool descs).init before).1.Allocated pool) ↔
        (epPoolObject pool descs).Meets EpPool.Proper (epPoolObject pool descs).init calls) := by
  constructor
  · intro ids ep hfailed
    cases hfind : epFind ep ids with
    | none => simp only [rtUsbdEpAssign, hfind, and_self]
    | some found =>
      simp only [rtUsbdEpAssign, hfind] at hfailed
      exact absurd rfl hfailed
  · exact Object.forall_prefix_iff_meets (I := (EpPool.Kept · pool)) (fun s h => h.toAllocated)
      (fun s c h => (h.call c).1) (fun s c h => (h.call c).2) (EpPool.kept_init pool descs) calls

/-- `_ep_pool` of the board's driver. -/
def epPool : List EpId :=
  [⟨0x00, 0, 0x40, 64, true⟩, ⟨1, 2, 0x80, 64, false⟩, ⟨1, 2, 0x00, 64, false⟩,
    ⟨2, 3, 0x80, 64, false⟩, ⟨2, 3, 0x00, 64, false⟩, ⟨3, 2, 0x80, 64, false⟩,
    ⟨3, 2, 0x00, 64, false⟩, ⟨0xFF, 3, 0x80, 0, true⟩]

/-- Two bulk endpoints take turns: the first is given entry 1 and then entry 3, and its address
keeps the bits of both. When it takes entry 1 again, the second takes entry 3, and both have the
address 0x83. -/
theorem ep_pool_reassigned :
    ¬((epPoolObject epPool [(0x80, 2), (0x80, 2)]).run
      (epPoolObject epPool [(0x80, 2), (0x80, 2)]).init
      [.assign 0, .unassign 0, .assign 1, .assign 0, .unassign 0, .unassign 1, .assign 0,
        .assign 1]).1.Allocated epPool := by
  intro h
  have hsame := h.distinct 0 1
    ⟨⟨0x83, 2, some 1⟩, some 1⟩ ⟨⟨0x83, 2, some 5⟩, some 5⟩ 1 5
    (by decide) (by decide) rfl rfl (by decide)
  exact hsame rfl

end RtVcom.Usb

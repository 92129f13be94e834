import RtVcom.Lib.Loop
import RtVcom.Kernel.TimerOrder

/-!
# The loop of `rt_timer_check`

`rt_timer_check` takes an expired timer from the front of the list, calls its function and puts a
periodic timer back into the list that it is walking. Whether it ends is asked here for every list
and every tick, with functions that do not touch timers and a tick that stands still.

What the loop serves first is the `Front` of the list. A timer of it that is put back for at least
one tick is not expired any more, and wherever it goes the loop ends at it or before it. A timer
with an `init_tick` of 0 is expired as soon as it is put back. It comes round again if it goes in
front of the timers behind the front, that is, if some timer put back up to then did (`Circling`),
and otherwise it is out of reach. `timerCheck_ends_iff` says that this is all there is.
-/

namespace RtVcom.Kernel

open RtVcom.Lib

namespace TimerSystem

/-! ## The loop -/

/-- A pass of the loop of `rt_timer_check`, with the timers that were called. -/
def checkPass (c : TimerSystem × List Nat) : Loop.Pass (TimerSystem × List Nat)
    (TimerSystem × List Nat) :=
  match c.1.list with
  | [] => .leave c
  | t :: _ => if c.1.expired t then .again ((c.1.remove t).settle t, c.2 ++ [t]) else .leave c

/-- `rt_timer_check`. -/
def timerCheck (fuel : Nat) (s : TimerSystem) : Option (TimerSystem × List Nat) :=
  Loop.run checkPass fuel (s, [])

/-! ## The front of the list -/

/-- A timer is started again behind its function. -/
def Again (s : TimerSystem) (t : Nat) : Prop :=
  (s.timer t).periodic = true ∧ (s.timer t).activated = true

instance (s : TimerSystem) (t : Nat) : Decidable (s.Again t) := inferInstanceAs (Decidable (_ ∧ _))

/-- Started again, `t` goes in front of `u`. -/
def overtakes (s : TimerSystem) (t u : Nat) : Bool := s.later (s.tick + (s.timer t).initTick) u

/-- The timers that are served before one that is not expired or that was put back. -/
structure Front (s : TimerSystem) (front rest : List Nat) : Prop where
  list : s.list = front ++ rest
  expired : ∀ t ∈ front, s.expired t = true
  passed : front.Pairwise fun t u => s.Again t → s.overtakes t u = false
  ends : ∀ x ∈ rest.head?,
    s.expired x = false ∨ ∃ t ∈ front, s.Again t ∧ s.overtakes t x = true

/-- A timer of the front is put back for no ticks, and goes in front of the rest. -/
def Circling (s : TimerSystem) (front rest : List Nat) : Prop :=
  ∃ pre t post, front = pre ++ t :: post ∧ s.Again t ∧ (s.timer t).initTick = 0 ∧
    ∀ x ∈ rest.head?, ∃ u ∈ pre ++ [t], s.Again u ∧ s.overtakes u x = true

/-- The lists with which `rt_timer_check` does not come to an end. -/
def Endless (s : TimerSystem) : Prop :=
  ∃ front rest, s.Front front rest ∧ s.Circling front rest

/-- What is asked of a list: each timer is linked once and started for less than half the range of
the tick. -/
structure Checkable (s : TimerSystem) : Prop where
  nodup : s.list.Nodup
  init : ∀ t ∈ s.list, (s.timer t).initTick.toNat < rtTickMax / 2

variable {s : TimerSystem} {t u p : Nat} {front rest : List Nat}

/-- Every list has a front. -/
theorem exists_front (s : TimerSystem) : ∃ front rest, s.Front front rest := by
  have hwalk : ∀ (rest front : List Nat), s.list = front ++ rest →
      (∀ t ∈ front, s.expired t = true) →
      front.Pairwise (fun t u => s.Again t → s.overtakes t u = false) →
      ∃ front rest, s.Front front rest := by
    intro rest
    induction rest with
    | nil => exact fun front hlist hexpired hpassed => ⟨front, [], hlist, hexpired, hpassed, nofun⟩
    | cons x rest ih =>
      intro front hlist hexpired hpassed
      by_cases hx : s.expired x = false ∨ ∃ t ∈ front, s.Again t ∧ s.overtakes t x = true
      · refine ⟨front, x :: rest, hlist, hexpired, hpassed, fun y hy => ?_⟩
        cases hy
        exact hx
      · push Not at hx
        refine ih (front ++ [x]) (by rw [hlist, List.append_assoc, List.singleton_append]) ?_ ?_
        · exact List.forall_mem_append.mpr ⟨hexpired,
            List.forall_mem_singleton.mpr (Bool.not_eq_false _ ▸ hx.1)⟩
        · refine List.pairwise_append.mpr ⟨hpassed, List.pairwise_singleton _ _, ?_⟩
          intro t ht u hu hagain
          rw [List.mem_singleton.mp hu]
          exact Bool.eq_false_iff.mpr (hx.2 t ht hagain)
  exact hwalk s.list [] rfl (List.forall_mem_nil _) List.Pairwise.nil

/-! ## One pass -/

/-- A timer that is put back is expired if it was put back for no ticks. -/
theorem expired_restarted {tick init : BitVec 32} (h : init.toNat < rtTickMax / 2) :
    (tick - (tick + init)).toNat < rtTickMax / 2 ↔ init = 0 := by
  rw [← BitVec.toNat_inj]
  simp only [BitVec.toNat_sub, BitVec.toNat_add, BitVec.ofNat_eq_ofNat, BitVec.toNat_ofNat]
  unfold rtTickMax at h ⊢
  omega

/-- Of two timers that are put back, the one with fewer ticks goes first. -/
theorem later_restarted {tick init init' : BitVec 32} (h : init.toNat < rtTickMax / 2)
    (h' : init'.toNat < rtTickMax / 2) :
    ((tick + init') - (tick + init) ≠ 0 ∧
      ((tick + init') - (tick + init)).toNat < rtTickMax / 2) ↔ init.toNat < init'.toNat := by
  rw [ne_eq, ← BitVec.toNat_inj]
  simp only [BitVec.toNat_sub, BitVec.toNat_add, BitVec.ofNat_eq_ofNat, BitVec.toNat_ofNat]
  unfold rtTickMax at h h' ⊢
  omega

/-- The state behind a pass that serves `p`. -/
def serve (s : TimerSystem) (p : Nat) : TimerSystem := (s.remove p).settle p

theorem serve_tick : (s.serve p).tick = s.tick := by
  unfold serve settle
  split
  · rfl
  · rfl

/-- Serving a timer leaves the others as they are. -/
theorem serve_timer_of_ne (h : u ≠ p) : (s.serve p).timer u = s.timer u := by
  unfold serve settle
  split
  · rw [timer_start_of_ne h, timer_setActivated_of_ne _ h]
    rfl
  · rw [timer_setActivated_of_ne _ h]
    rfl

theorem serve_of_again (h : s.Again p) :
    s.serve p = ((s.remove p).setActivated p false).start p := if_pos h

theorem serve_of_not_again (h : ¬s.Again p) : s.serve p = (s.remove p).setActivated p false :=
  if_neg h

/-- A timer that is put back: as it was, and times out by its `init_tick`. -/
theorem serve_timer_self (h : s.Again p) : (s.serve p).timer p =
    { s.timer p with timeoutTick := s.tick + (s.timer p).initTick } := by
  have hactivated : (s.timer p).activated = true := h.2
  rw [serve_of_again h, timer_start_self]
  simp only [setActivated, setTimer, remove, Function.update_self, hactivated]

theorem remove_front (hlist : s.list = p :: rest) : (s.remove p).list = rest :=
  (congrArg (List.erase · p) hlist).trans (List.erase_cons_head p rest)

theorem serve_list_of_not_again (hlist : s.list = p :: rest) (h : ¬s.Again p) :
    (s.serve p).list = rest := by
  rw [serve_of_not_again h, setActivated_list, remove_front hlist]

/-- A timer that is put back goes in front of the first one that it overtakes. -/
theorem serve_list (hlist : s.list = p :: rest) (hout : p ∉ rest) (h : s.Again p) :
    (s.serve p).list = insertBefore (s.overtakes p) p rest := by
  have hrest : (s.list.erase p).erase p = rest := by
    rw [hlist, List.erase_cons_head, List.erase_of_not_mem hout]
  rw [serve_of_again h]
  simp only [start, insert, setActivated_list]
  simp only [setActivated, setTimer, remove, Function.update_self]
  refine (congrArg (insertBefore _ p) hrest).trans (insertBefore_congr fun u hu => ?_)
  have hne : u ≠ p := fun heq => hout (heq ▸ hu)
  simp only [overtakes, later, Function.update_of_ne hne]

section Unchanged

variable {v : Nat}

/-- Whether another timer has expired stays the same. -/
theorem expired_serve (h : u ≠ p) : (s.serve p).expired u = s.expired u := by
  rw [expired, serve_timer_of_ne h, serve_tick, ← expired]

theorem again_serve (h : u ≠ p) : (s.serve p).Again u ↔ s.Again u := by
  rw [Again, serve_timer_of_ne h, ← Again]

theorem overtakes_serve (hu : u ≠ p) (hv : v ≠ p) :
    (s.serve p).overtakes u v = s.overtakes u v := by
  rw [overtakes, later, serve_timer_of_ne hu, serve_timer_of_ne hv, serve_tick, ← later,
    ← overtakes]

/-- A timer that was put back. -/
theorem again_serve_self (h : s.Again p) : (s.serve p).Again p := by
  rw [Again, serve_timer_self h]
  exact h

/-- A timer that is started again overtakes whom it did. -/
theorem overtakes_serve_self (h : s.Again p) (hv : v ≠ p) :
    (s.serve p).overtakes p v = s.overtakes p v := by
  rw [overtakes, later, serve_timer_self h, serve_timer_of_ne hv, serve_tick, ← later, ← overtakes]

/-- It is expired if it was put back for no ticks. -/
theorem expired_serve_self (h : s.Again p) (hinit : (s.timer p).initTick.toNat < rtTickMax / 2) :
    (s.serve p).expired p = decide ((s.timer p).initTick = 0) := by
  rw [expired, serve_timer_self h, serve_tick]
  exact decide_eq_decide.mpr (expired_restarted hinit)

/-- It is overtaken by the timers that are put back for fewer ticks. -/
theorem overtakes_restarted (h : s.Again p) (hu : u ≠ p)
    (hinit : (s.timer p).initTick.toNat < rtTickMax / 2)
    (hinitu : (s.timer u).initTick.toNat < rtTickMax / 2) :
    (s.serve p).overtakes u p =
      decide ((s.timer u).initTick.toNat < (s.timer p).initTick.toNat) := by
  rw [overtakes, later, serve_timer_self h, serve_timer_of_ne hu, serve_tick,
    ← Bool.decide_and]
  exact decide_eq_decide.mpr (later_restarted hinitu hinit)

end Unchanged

theorem initTick_serve : ((s.serve p).timer u).initTick = (s.timer u).initTick := by
  by_cases hu : u = p
  · subst hu
    by_cases hagain : s.Again u
    · rw [serve_timer_self hagain]
    · rw [serve_of_not_again hagain]
      simp only [setActivated, setTimer, remove, Function.update_self]
  · rw [serve_timer_of_ne hu]

/-- A list stays checkable. -/
theorem Checkable.serve (h : s.Checkable) (hlist : s.list = p :: rest) :
    (s.serve p).Checkable := by
  have hnodup := h.nodup
  rw [hlist] at hnodup
  obtain ⟨hout, hrest⟩ := List.nodup_cons.mp hnodup
  have hmem : (s.serve p).list.Nodup ∧ ∀ t ∈ (s.serve p).list, t ∈ s.list := by
    by_cases hagain : s.Again p
    · rw [serve_list hlist hout hagain, hlist]
      exact ⟨insertBefore_perm.nodup_iff.mpr hnodup, fun t ht => insertBefore_perm.mem_iff.mp ht⟩
    · rw [serve_list_of_not_again hlist hagain, hlist]
      exact ⟨hrest, fun t ht => List.mem_cons_of_mem p ht⟩
  constructor
  case nodup => exact hmem.1
  case init =>
    intro t ht
    rw [initTick_serve]
    exact h.init t (hmem.2 t ht)

/-! ## The front behind a pass -/

/-- What is left of a front is expired, and in order. -/
theorem Front.left (h : s.Front (p :: front) rest) (hfront : ∀ u ∈ front, u ≠ p) :
    (∀ t ∈ front, (s.serve p).expired t = true) ∧
      front.Pairwise fun t u => (s.serve p).Again t → (s.serve p).overtakes t u = false := by
  constructor
  · intro t ht
    rw [expired_serve (hfront t ht)]
    exact h.expired t (List.mem_cons_of_mem p ht)
  · refine (List.pairwise_cons.mp h.passed).2.imp_of_mem fun {t u} ht hu hpassed hagain => ?_
    rw [overtakes_serve (hfront t ht) (hfront u hu)]
    exact hpassed ((again_serve (hfront t ht)).mp hagain)

/-- A timer goes in front of the rest. -/
def Ahead (s : TimerSystem) (p : Nat) (rest : List Nat) : Prop :=
  s.Again p ∧ ∀ x ∈ rest.head?, s.overtakes p x = true

/-- A timer that is put back passes what is left of the front. -/
theorem Front.serve_list (h : s.Front (p :: front) rest) (hout : p ∉ front ++ rest)
    (hagain : s.Again p) : (s.serve p).list = front ++ insertBefore (s.overtakes p) p rest := by
  have hpassed := (List.pairwise_cons.mp h.passed).1
  have hlist : s.list = p :: (front ++ rest) := h.list
  rw [TimerSystem.serve_list hlist hout hagain, insertBefore_passed fun u hu => hpassed u hu hagain]

theorem Front.serve_list_ahead (h : s.Front (p :: front) rest) (hout : p ∉ front ++ rest)
    (hahead : s.Ahead p rest) : (s.serve p).list = front ++ p :: rest := by
  rw [h.serve_list hout hahead.1]
  cases rest with
  | nil => rfl
  | cons x rest => rw [insertBefore, if_pos (hahead.2 x rfl)]

/-- A timer that does not go in front of the rest leaves it with the same timer in front. -/
theorem Front.serve_list_behind (h : s.Front (p :: front) rest) (hout : p ∉ front ++ rest)
    (hbehind : ¬s.Ahead p rest) :
    ∃ rest', (s.serve p).list = front ++ rest' ∧ rest'.head? = rest.head? := by
  by_cases hagain : s.Again p
  · rw [h.serve_list hout hagain]
    refine ⟨_, rfl, ?_⟩
    cases rest with
    | nil => exact absurd ⟨hagain, nofun⟩ hbehind
    | cons x rest =>
      have hx : ¬s.overtakes p x = true := by
        intro hx
        refine hbehind ⟨hagain, fun y hy => ?_⟩
        cases hy
        exact hx
      rw [insertBefore, if_neg hx]
      rfl
  · exact ⟨rest, serve_list_of_not_again h.list hagain, rfl⟩

section Served

variable (hc : s.Checkable) (h : s.Front (p :: front) rest)
include hc h

/-- The timers behind the one that is served are others. -/
theorem Front.others : p ∉ front ++ rest ∧ (∀ u ∈ front, u ≠ p) ∧ ∀ u ∈ rest, u ≠ p := by
  have hnodup := hc.nodup
  rw [h.list, List.cons_append, List.nodup_cons] at hnodup
  refine ⟨hnodup.1, fun u hu heq => ?_, fun u hu heq => ?_⟩
  · exact hnodup.1 (List.mem_append_left _ (heq ▸ hu))
  · exact hnodup.1 (List.mem_append_right _ (heq ▸ hu))

/-- A timer that goes in front of the rest for no ticks is part of the front again. -/
theorem Front.serve_zero (hahead : s.Ahead p rest) (hzero : (s.timer p).initTick = 0) :
    (s.serve p).Front (front ++ [p]) rest ∧ (s.serve p).Circling (front ++ [p]) rest := by
  obtain ⟨hout, hfront, hrest⟩ := h.others hc
  obtain ⟨hexpired, hpassed⟩ := h.left hfront
  have hp : p ∈ s.list := by
    rw [h.list]
    exact List.mem_cons_self
  have hovertakes : ∀ x ∈ rest.head?, (s.serve p).overtakes p x = true := by
    intro x hx
    rw [overtakes_serve_self hahead.1 (hrest x (List.mem_of_mem_head? hx))]
    exact hahead.2 x hx
  constructor
  · constructor
    case list =>
      rw [h.serve_list_ahead hout hahead, List.append_assoc]
      rfl
    case expired =>
      refine List.forall_mem_append.mpr ⟨hexpired, List.forall_mem_singleton.mpr ?_⟩
      rw [expired_serve_self hahead.1 (hc.init p hp)]
      exact decide_eq_true hzero
    case passed =>
      refine List.pairwise_append.mpr ⟨hpassed, List.pairwise_singleton _ _, ?_⟩
      intro t ht u hu _
      rw [List.mem_singleton.mp hu]
      have ht' : t ∈ s.list := by
        rw [h.list]
        exact List.mem_cons_of_mem p (List.mem_append_left rest ht)
      rw [overtakes_restarted hahead.1 (hfront t ht) (hc.init p hp) (hc.init t ht'), hzero]
      rfl
    case ends =>
      intro x hx
      exact Or.inr ⟨p, List.mem_append_right front (List.mem_singleton_self p),
        again_serve_self hahead.1, hovertakes x hx⟩
  · refine ⟨front, p, [], rfl, again_serve_self hahead.1, ?_, fun x hx => ?_⟩
    · rw [initTick_serve, hzero]
    · exact ⟨p, List.mem_append_right front (List.mem_singleton_self p),
        again_serve_self hahead.1, hovertakes x hx⟩

/-- A timer that goes in front of the rest for some ticks ends the front. -/
theorem Front.serve_later (hahead : s.Ahead p rest) (hlater : (s.timer p).initTick ≠ 0) :
    (s.serve p).Front front (p :: rest) ∧
      ((s.serve p).Circling front (p :: rest) ↔ s.Circling (p :: front) rest) := by
  obtain ⟨hout, hfront, hrest⟩ := h.others hc
  obtain ⟨hexpired, hpassed⟩ := h.left hfront
  have hp : p ∈ s.list := by
    rw [h.list]
    exact List.mem_cons_self
  constructor
  · constructor
    case list => exact h.serve_list_ahead hout hahead
    case expired => exact hexpired
    case passed => exact hpassed
    case ends =>
      intro x hx
      cases hx
      refine Or.inl ?_
      rw [expired_serve_self hahead.1 (hc.init p hp)]
      exact decide_eq_false hlater
  · constructor
    · rintro ⟨pre, t, post, rfl, hagain, hzero, -⟩
      have ht : t ≠ p := hfront t (List.mem_append_right pre List.mem_cons_self)
      refine ⟨p :: pre, t, post, rfl, (again_serve ht).mp hagain, ?_, fun x hx => ?_⟩
      · rwa [initTick_serve] at hzero
      · exact ⟨p, List.mem_cons_self, hahead.1, hahead.2 x hx⟩
    · rintro ⟨pre, t, post, heq, hagain, hzero, -⟩
      rcases List.cons_eq_append_iff.mp heq with ⟨rfl, ht⟩ | ⟨pre, rfl, rfl⟩
      · cases ht
        exact absurd hzero hlater
      · have ht : t ≠ p := hfront t (List.mem_append_right pre List.mem_cons_self)
        have ht' : t ∈ s.list := by
          rw [h.list]
          exact List.mem_cons_of_mem p (List.mem_append_left rest
            (List.mem_append_right pre List.mem_cons_self))
        refine ⟨pre, t, post, rfl, (again_serve ht).mpr hagain, ?_, fun x hx => ?_⟩
        · rw [initTick_serve, hzero]
        · cases hx
          refine ⟨t, List.mem_append_right pre (List.mem_singleton_self t),
            (again_serve ht).mpr hagain, ?_⟩
          rw [overtakes_restarted hahead.1 ht (hc.init p hp) (hc.init t ht'), hzero]
          refine decide_eq_true (Nat.pos_of_ne_zero fun hnil => hlater ?_)
          exact BitVec.eq_of_toNat_eq hnil

/-- A timer that does not go in front of the rest is gone. -/
theorem Front.serve_behind (hbehind : ¬s.Ahead p rest) :
    ∃ rest', (s.serve p).Front front rest' ∧
      ((s.serve p).Circling front rest' ↔ s.Circling (p :: front) rest) := by
  obtain ⟨hout, hfront, hrest⟩ := h.others hc
  obtain ⟨hexpired, hpassed⟩ := h.left hfront
  obtain ⟨rest', hlist, hhead⟩ := h.serve_list_behind hout hbehind
  have hne : ∀ x ∈ rest.head?, x ≠ p := fun x hx => hrest x (List.mem_of_mem_head? hx)
  -- the served timer overtakes the rest for nobody
  have hnot : ∀ x ∈ rest.head?, ¬(s.Again p ∧ s.overtakes p x = true) := by
    rintro x hx ⟨hagain, hx'⟩
    refine hbehind ⟨hagain, fun y hy => ?_⟩
    cases hx.symm.trans hy
    exact hx'
  refine ⟨rest', ⟨hlist, hexpired, hpassed, fun x hx => ?_⟩, ?_⟩
  · rw [hhead] at hx
    rw [expired_serve (hne x hx)]
    refine (h.ends x hx).imp_right fun ⟨t, ht, hagain, hovertakes⟩ => ?_
    rcases List.mem_cons.mp ht with rfl | ht
    · exact absurd ⟨hagain, hovertakes⟩ (hnot x hx)
    · exact ⟨t, ht, (again_serve (hfront t ht)).mpr hagain,
        (overtakes_serve (hfront t ht) (hne x hx)).trans hovertakes⟩
  · unfold Circling
    rw [hhead]
    constructor
    · rintro ⟨pre, t, post, rfl, hagain, hzero, hovertaken⟩
      have hpre : ∀ u ∈ pre ++ [t], u ≠ p := by
        intro u hu
        refine hfront u ?_
        rw [List.append_cons]
        exact List.mem_append_left post hu
      have ht := hpre t (List.mem_append_right pre (List.mem_singleton_self t))
      refine ⟨p :: pre, t, post, rfl, (again_serve ht).mp hagain, ?_, fun x hx => ?_⟩
      · rwa [initTick_serve] at hzero
      · obtain ⟨u, hu, hagainu, hux⟩ := hovertaken x hx
        refine ⟨u, List.mem_cons_of_mem p hu, (again_serve (hpre u hu)).mp hagainu, ?_⟩
        rwa [overtakes_serve (hpre u hu) (hne x hx)] at hux
    · rintro ⟨pre, t, post, heq, hagain, hzero, hovertaken⟩
      rcases List.cons_eq_append_iff.mp heq with ⟨rfl, ht⟩ | ⟨pre, rfl, rfl⟩
      · cases ht
        refine absurd ⟨hagain, fun x hx => ?_⟩ hbehind
        obtain ⟨u, hu, -, hux⟩ := hovertaken x hx
        rwa [List.mem_singleton.mp hu] at hux
      · have hpre : ∀ u ∈ pre ++ [t], u ≠ p := by
          intro u hu
          refine hfront u ?_
          rw [List.append_cons]
          exact List.mem_append_left post hu
        have ht := hpre t (List.mem_append_right pre (List.mem_singleton_self t))
        refine ⟨pre, t, post, rfl, (again_serve ht).mpr hagain, ?_, fun x hx => ?_⟩
        · rw [initTick_serve, hzero]
        · obtain ⟨u, hu, hagainu, hux⟩ := hovertaken x hx
          rcases List.mem_cons.mp hu with rfl | hu
          · exact absurd ⟨hagainu, hux⟩ (hnot x hx)
          · exact ⟨u, hu, (again_serve (hpre u hu)).mpr hagainu,
              (overtakes_serve (hpre u hu) (hne x hx)).trans hux⟩

/-- A pass takes the front on: a list that circles goes on circling, and of any other one the front
has become shorter. -/
theorem Front.serve : ∃ front' rest', (s.serve p).Front front' rest' ∧
    (s.Circling (p :: front) rest → (s.serve p).Circling front' rest') ∧
    (¬s.Circling (p :: front) rest → front' = front ∧ ¬(s.serve p).Circling front' rest') := by
  by_cases hahead : s.Ahead p rest
  · by_cases hzero : (s.timer p).initTick = 0
    · obtain ⟨hnext, hcircles⟩ := h.serve_zero hc hahead hzero
      have hcircling : s.Circling (p :: front) rest :=
        ⟨[], p, front, rfl, hahead.1, hzero,
          fun x hx => ⟨p, List.mem_singleton_self p, hahead.1, hahead.2 x hx⟩⟩
      exact ⟨front ++ [p], rest, hnext, fun _ => hcircles, fun hnot => absurd hcircling hnot⟩
    · obtain ⟨hnext, hcircles⟩ := h.serve_later hc hahead hzero
      exact ⟨front, p :: rest, hnext, hcircles.mpr, fun hnot => ⟨rfl, mt hcircles.mp hnot⟩⟩
  · obtain ⟨rest', hnext, hcircles⟩ := h.serve_behind hc hahead
    exact ⟨front, rest', hnext, hcircles.mpr, fun hnot => ⟨rfl, mt hcircles.mp hnot⟩⟩

end Served

/-! ## The whole loop -/

/-- A pass serves the first timer where it has expired. -/
theorem checkPass_expired (ran : List Nat) (hlist : s.list = p :: rest)
    (hexpired : s.expired p = true) : checkPass (s, ran) = .again (s.serve p, ran ++ [p]) := by
  unfold checkPass
  rw [hlist]
  exact if_pos hexpired

theorem checkPass_leave (ran : List Nat) (h : ∀ x ∈ s.list.head?, s.expired x = false) :
    checkPass (s, ran) = .leave (s, ran) := by
  unfold checkPass
  cases hlist : s.list with
  | nil => rfl
  | cons x rest =>
    rw [hlist] at h
    exact if_neg (Bool.eq_false_iff.mp (h x rfl))

/-- A loop that does not circle calls the timers of the front, each once, and is over. -/
theorem run_of_front (ran : List Nat) (hc : s.Checkable) (h : s.Front front rest)
    (hnot : ¬s.Circling front rest) :
    ∃ r, Loop.run checkPass (front.length + 1) (s, ran) = some r ∧ r.2 = ran ++ front := by
  induction front generalizing s rest ran with
  | nil =>
    have hhead : ∀ x ∈ s.list.head?, s.expired x = false := by
      intro x hx
      rw [h.list] at hx
      rcases h.ends x hx with hexpired | ⟨t, ht, -⟩
      · exact hexpired
      · cases ht
    refine ⟨_, Loop.run_leave (checkPass_leave ran hhead) 0, ?_⟩
    rw [List.append_nil]
  | cons p front ih =>
    obtain ⟨front', rest', hnext, -, hshorter⟩ := h.serve hc
    obtain ⟨rfl, hnot'⟩ := hshorter hnot
    obtain ⟨r, hrun, hran⟩ := ih (ran ++ [p]) (hc.serve h.list) hnext hnot'
    refine ⟨r, ?_, ?_⟩
    · have hpass := checkPass_expired ran h.list (h.expired p List.mem_cons_self)
      rw [List.length_cons, Loop.run_again hpass, hrun]
    · rw [hran, List.append_assoc, List.singleton_append]

/-- A loop that circles goes on for ever. -/
theorem run_of_endless (ran : List Nat) (hc : s.Checkable) (h : s.Endless) (fuel : Nat) :
    Loop.run checkPass fuel (s, ran) = none := by
  refine Loop.run_eq_none (I := fun c => c.1.Checkable ∧ c.1.Endless) ?_ ⟨hc, h⟩ fuel
  rintro ⟨s, ran⟩ ⟨hc, front, rest, hfront, hcircles⟩
  cases front with
  | nil =>
    obtain ⟨pre, t, post, heq, -⟩ := hcircles
    cases pre with
    | nil => cases heq
    | cons x pre => cases heq
  | cons p front =>
    obtain ⟨front', rest', hnext, hgoes, -⟩ := hfront.serve hc
    exact ⟨_, checkPass_expired ran hfront.list (hfront.expired p List.mem_cons_self),
      hc.serve hfront.list, front', rest', hnext, hgoes hcircles⟩

/-- **`rt_timer_check` ends**, for every list and every tick, with every timer called at most once
and only if it had expired, unless a timer of the front is put back for no ticks and goes in front
of the rest. Then it does not end. -/
theorem timerCheck_ends_iff (s : TimerSystem) (hc : s.Checkable) :
    (∃ fuel r, s.timerCheck fuel = some r ∧ r.2.Nodup ∧ ∀ t ∈ r.2, s.expired t = true) ↔
      ¬s.Endless := by
  constructor
  · rintro ⟨fuel, r, hrun, -⟩ hendless
    rw [timerCheck, run_of_endless [] hc hendless] at hrun
    cases hrun
  · intro hnot
    obtain ⟨front, rest, hfront⟩ := s.exists_front
    obtain ⟨r, hrun, hran⟩ := run_of_front [] hc hfront
      fun hcircles => hnot ⟨front, rest, hfront, hcircles⟩
    rw [List.nil_append] at hran
    have hnodup : (front ++ rest).Nodup := hfront.list ▸ hc.nodup
    refine ⟨_, r, hrun, ?_, ?_⟩
    · rw [hran]
      exact (List.nodup_append.mp hnodup).1
    · rw [hran]
      exact hfront.expired

/-- Timer 0 is a one-shot timer, timer 1 a periodic one for 3 ticks and timer 2 a periodic one for
`ticks` ticks. They are linked in that order and time out at 10, 10 and `last`. -/
def threeTimers (tick ticks last : BitVec 32) : TimerSystem where
  tick := tick
  timer
    | 0 => { activated := true, periodic := false, initTick := 5, timeoutTick := 10 }
    | 1 => { activated := true, periodic := true, initTick := 3, timeoutTick := 10 }
    | _ => { activated := true, periodic := true, initTick := ticks, timeoutTick := last }
  list := [0, 1, 2]

/-- A list in which every timer that is put back is put back for some ticks. -/
theorem not_endless (h : ∀ t ∈ s.list, s.Again t → (s.timer t).initTick ≠ 0) : ¬s.Endless := by
  rintro ⟨front, rest, hfront, pre, t, post, rfl, hagain, hzero, -⟩
  refine h t ?_ hagain hzero
  rw [hfront.list]
  exact List.mem_append_left rest (List.mem_append_right pre List.mem_cons_self)

/-- The periodic timers come back at 15 and at 16. -/
theorem timerCheck_ends_three :
    ∃ fuel r, (threeTimers 12 4 11).timerCheck fuel = some r ∧ r.2.Nodup ∧
      ∀ t ∈ r.2, (threeTimers 12 4 11).expired t = true :=
  (timerCheck_ends_iff _ ⟨by decide, by decide⟩).mpr (not_endless (by decide))

/-- A periodic timer for no ticks at the end of the list comes round again and again. -/
theorem timerCheck_endless :
    ¬ ∀ s : TimerSystem, s.Checkable →
      ∃ fuel r, s.timerCheck fuel = some r ∧ r.2.Nodup ∧ ∀ t ∈ r.2, s.expired t = true := by
  intro hall
  have hc : (threeTimers 12 0 11).Checkable := ⟨by decide, by decide⟩
  have hendless : (threeTimers 12 0 11).Endless :=
    ⟨[0, 1, 2], [], ⟨rfl, by decide, by decide, nofun⟩,
      [0, 1], 2, [], rfl, by decide, rfl, nofun⟩
  obtain ⟨fuel, r, hrun, -⟩ := hall _ hc
  rw [timerCheck, run_of_endless [] hc hendless] at hrun
  cases hrun

end TimerSystem

end RtVcom.Kernel

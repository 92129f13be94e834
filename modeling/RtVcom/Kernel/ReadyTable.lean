import RtVcom.Kernel.Scheduler

/-!
# The ready table

`rt_thread_ready_priority_group` and the ready lists. `Table s q r` says that the links are the
lists `q`, and that the ready lists and the bits are those of the threads `r`. Each function of
the scheduler that links or unlinks a thread has one rule about it.
-/

namespace RtVcom.Kernel

open RtVcom.Lib

/-! ## Bits of the group -/

/-- The mask of a priority has its bit and no other. -/
theorem priorityMask_bit {p p' : Priority} : (priorityMask p).getLsbD p' = true ↔ p' = p := by
  have hp' := p'.isLt
  change (1#32 <<< p.val).getLsbD p' = true ↔ _
  rw [BitVec.getLsbD_shiftLeft, BitVec.getLsbD_one, Fin.ext_iff]
  simp only [hp', decide_true, Bool.true_and, Bool.and_eq_true, Bool.not_eq_true',
    decide_eq_false_iff_not, decide_eq_true_eq]
  omega

/-- The bit of a priority is set with its mask. -/
theorem or_priorityMask_bit {group : BitVec 32} {p p' : Priority} :
    (group ||| priorityMask p).getLsbD p' = true ↔ group.getLsbD p' = true ∨ p' = p := by
  rw [BitVec.getLsbD_or, Bool.or_eq_true, priorityMask_bit]

/-- The bit of a priority is cleared with its mask. -/
theorem and_not_priorityMask_bit {group : BitVec 32} {p p' : Priority} :
    (group &&& ~~~priorityMask p).getLsbD p' = true ↔ group.getLsbD p' = true ∧ p' ≠ p := by
  have hp' := p'.isLt
  rw [BitVec.getLsbD_and, Bool.and_eq_true, BitVec.getLsbD_not]
  simp only [hp', decide_true, Bool.true_and, Bool.not_eq_true', ← Bool.not_eq_true,
    priorityMask_bit]

/-- The lowest bit is that of the most urgent priority. -/
theorem lowestBit_eq_some {group : BitVec 32} {p : Priority} (h : lowestBit group = some p) :
    group.getLsbD p = true ∧ ∀ p' : Priority, group.getLsbD p' = true → p ≤ p' := by
  obtain ⟨hbit, front, rest, hlist, hfront⟩ := List.find?_eq_some_iff_append.mp h
  refine ⟨hbit, fun p' hbit' => ?_⟩
  have hmem : p' ∈ front ++ p :: rest := by
    rw [← hlist]
    exact List.mem_finRange p'
  have hsorted : (front ++ p :: rest).Pairwise (· < ·) := by
    rw [← hlist]
    exact List.pairwise_lt_finRange 32
  rcases List.mem_append.mp hmem with hin | hin
  · have hclear := hfront p' hin
    rw [hbit'] at hclear
    cases hclear
  · rcases List.mem_cons.mp hin with rfl | hin
    · exact le_refl _
    · exact le_of_lt ((List.pairwise_cons.mp (List.pairwise_append.mp hsorted).2.1).1 p' hin)

/-- A group that is not 0 has a lowest bit. -/
theorem lowestBit_isSome {group : BitVec 32} (h : group ≠ 0) : ∃ p, lowestBit group = some p := by
  refine Option.ne_none_iff_exists'.mp fun hnone => h (BitVec.eq_of_getLsbD_eq fun i hi => ?_)
  have hclear := List.find?_eq_none.mp hnone ⟨i, hi⟩ (List.mem_finRange _)
  rw [Bool.not_eq_true] at hclear
  exact hclear.trans BitVec.getLsbD_zero.symm

namespace Sched

variable {n : Nat} {s s' : Sched n} {q q' : ListHead → List (Fin n)} {r r' : Fin n → Prop}
  {t u : Fin n}

/-! ## What the functions leave as it is -/

@[simp] theorem setThread_self (x : Tcb) : (s.setThread t x).thread t = x :=
  Function.update_self ..

theorem setThread_of_ne {x : Tcb} (h : u ≠ t) : (s.setThread t x).thread u = s.thread u :=
  Function.update_of_ne h ..

@[simp] theorem removeThread_thread (s : Sched n) (t : Fin n) :
    (s.removeThread t).thread = s.thread := by
  unfold removeThread
  dsimp only
  split <;> rfl

@[simp] theorem removeThread_current (s : Sched n) (t : Fin n) :
    (s.removeThread t).current = s.current := by
  unfold removeThread
  dsimp only
  split <;> rfl

@[simp] theorem removeThread_lockNest (s : Sched n) (t : Fin n) :
    (s.removeThread t).lockNest = s.lockNest := by
  unfold removeThread
  dsimp only
  split <;> rfl

@[simp] theorem insertThread_thread (s : Sched n) (t : Fin n) :
    (s.insertThread t).thread = (s.setStat t .ready).thread := by
  unfold insertThread
  dsimp only
  split <;> rfl

@[simp] theorem insertThread_current (s : Sched n) (t : Fin n) :
    (s.insertThread t).current = s.current := by
  unfold insertThread
  dsimp only
  split <;> rfl

@[simp] theorem insertThread_lockNest (s : Sched n) (t : Fin n) :
    (s.insertThread t).lockNest = s.lockNest := by
  unfold insertThread
  dsimp only
  split <;> rfl

/-- The priority and the mask of a thread. -/
def changed (s : Sched n) (t : Fin n) (p : Priority) : Sched n :=
  s.setThread t { s.thread t with currentPriority := p, numberMask := priorityMask p }

/-- `rt_thread_control` reinserts a ready thread and just writes another one. -/
theorem changePriority_eq (s : Sched n) (t : Fin n) (p : Priority) : s.changePriority t p =
    if (s.thread t).stat = .ready then ((s.removeThread t).changed t p).insertThread t
    else s.changed t p :=
  rfl

/-! ## The table -/

/-- The links are the lists `q`. In the ready list of a priority are the threads `r` that have it,
and the bit of a priority says whether its list has threads. -/
structure Table (s : Sched n) (q : ListHead → List (Fin n)) (r : Fin n → Prop) : Prop where
  rings : Rings s.links q
  ready : ∀ p t, t ∈ q (.ready p) ↔ r t ∧ (s.thread t).currentPriority = p
  bit : ∀ p : Priority, s.group.getLsbD p = true ↔ q (.ready p) ≠ []
  mask : ∀ t, (s.thread t).started = true →
    (s.thread t).numberMask = priorityMask (s.thread t).currentPriority

/-- The lists without `t`. -/
def erased (q : ListHead → List (Fin n)) (t : Fin n) : ListHead → List (Fin n) :=
  fun h => (q h).erase t

/-- The lists with `t` at the end of the list `h`. -/
def pushed (q : ListHead → List (Fin n)) (h : ListHead) (t : Fin n) : ListHead → List (Fin n) :=
  Function.update q h (q h ++ [t])

theorem erased_of_loose (ht : ∀ h, t ∉ q h) : erased q t = q :=
  funext fun h => List.erase_of_not_mem (ht h)

theorem mem_pushed {h h' : ListHead} : u ∈ pushed q h t h' ↔ u ∈ q h' ∨ u = t ∧ h' = h := by
  unfold pushed
  by_cases hh : h' = h
  · subst hh
    rw [Function.update_self, List.mem_append, List.mem_singleton]
    simp only [and_true]
  · rw [Function.update_of_ne hh]
    simp only [hh, and_false, or_false]

namespace Table

theorem mem_erased (h : Table s q r) {g : ListHead} : u ∈ erased q t g ↔ u ≠ t ∧ u ∈ q g :=
  (h.rings.nodup g).mem_erase_iff

theorem loose_erased (h : Table s q r) (g : ListHead) : t ∉ erased q t g :=
  fun hmem => (h.mem_erased.mp hmem).1 rfl

/-- The table of other threads, where what the table is about is the same. -/
theorem congr (h : Table s q r) (hlinks : s'.links = s.links) (hgroup : s'.group = s.group)
    (hready : ∀ t, r' t ↔ r t)
    (hpriority : ∀ t, r t → (s'.thread t).currentPriority = (s.thread t).currentPriority)
    (hmask : ∀ t, (s'.thread t).started = true →
      (s'.thread t).numberMask = priorityMask (s'.thread t).currentPriority) :
    Table s' q r' where
  rings := hlinks ▸ h.rings
  ready p t := by
    rw [h.ready, hready]
    refine and_congr_right fun hr => ?_
    rw [hpriority t hr]
  bit := hgroup ▸ h.bit
  mask := hmask

/-- A list that is no ready list is changed. -/
theorem relist (h : Table s q r) {k : Links (ListHead ⊕ Fin n)} (hrings : Rings k q')
    (hready : ∀ p, q' (.ready p) = q (.ready p)) : Table { s with links := k } q' r where
  rings := hrings
  ready p t := by
    rw [hready]
    exact h.ready p t
  bit p := by
    rw [hready]
    exact h.bit p
  mask := h.mask

/-- A thread that is not in the table is taken out of its list. -/
theorem unlink (h : Table s q r) (ht : ¬r t) : Table (s.unlink t) (erased q t) r := by
  refine h.relist (h.rings.remove t) fun p => List.erase_of_not_mem fun hmem => ?_
  exact ht ((h.ready p t).mp hmem).1

/-- Where the list of a thread is without it, the thread is still where its bit is. -/
theorem erased_ready_ne (h : Table s q r) {p : Priority} (hp : p ≠ (s.thread t).currentPriority) :
    erased q t (.ready p) = q (.ready p) :=
  List.erase_of_not_mem fun hmem => hp ((h.ready p t).mp hmem).2.symm

/-- A list of the table is empty behind the removal of its last thread. -/
theorem readyEmpty_unlink (h : Table s q r) (p : Priority) :
    (s.unlink t).readyEmpty p = true ↔ erased q t (.ready p) = [] := by
  rw [readyEmpty, decide_eq_true_eq]
  exact (h.rings.remove t).isEmpty_iff

/-- `rt_schedule_remove_thread` of a thread that was started. -/
theorem removeThread (h : Table s q r) (ht : (s.thread t).started = true) :
    Table (s.removeThread t) (erased q t) (fun u => r u ∧ u ≠ t) := by
  have hmask := h.mask t ht
  have hempty := h.readyEmpty_unlink (t := t) (s.thread t).currentPriority
  have hbit (p : Priority) (hp : p ≠ (s.thread t).currentPriority) :
      s.group.getLsbD p = true ↔ erased q t (.ready p) ≠ [] := by
    rw [h.erased_ready_ne hp]
    exact h.bit p
  constructor
  case rings =>
    unfold Sched.removeThread
    dsimp only
    split <;> exact h.rings.remove t
  case ready =>
    intro p u
    rw [h.mem_erased, h.ready, removeThread_thread]
    tauto
  case bit =>
    intro p
    unfold Sched.removeThread
    dsimp only
    split
    case isTrue hif =>
      change (s.group &&& ~~~(s.thread t).numberMask).getLsbD p = true ↔ _
      rw [hmask, and_not_priorityMask_bit]
      by_cases hp : p = (s.thread t).currentPriority
      · subst hp
        have hnil := hempty.mp hif
        simp only [ne_eq, not_true_eq_false, and_false, hnil]
      · rw [hbit p hp]
        exact and_iff_left hp
    case isFalse hif =>
      change s.group.getLsbD p = true ↔ _
      by_cases hp : p = (s.thread t).currentPriority
      · subst hp
        have hcons := mt hempty.mpr hif
        refine iff_of_true ((h.bit _).mpr fun hnil => hcons ?_) hcons
        rw [erased, hnil, List.erase_nil]
      · exact hbit p hp
  case mask =>
    rw [removeThread_thread]
    exact h.mask

/-- `rt_schedule_insert_thread` of a thread that is in no list. -/
theorem insertThread (h : Table s q r) (hloose : ∀ g, t ∉ q g)
    (ht : (s.thread t).started = true) (hcur : s.current ≠ some t) :
    Table (s.insertThread t) (pushed q (.ready (s.thread t).currentPriority) t)
      (fun u => r u ∨ u = t) := by
  have hthread (u : Fin n) : ((s.insertThread t).thread u).currentPriority =
      (s.thread u).currentPriority ∧ ((s.insertThread t).thread u).numberMask =
      (s.thread u).numberMask ∧ ((s.insertThread t).thread u).started = (s.thread u).started := by
    rw [insertThread_thread]
    by_cases hu : u = t
    · subst hu
      rw [setStat, setThread_self]
      exact ⟨rfl, rfl, rfl⟩
    · rw [setStat, setThread_of_ne hu]
      exact ⟨rfl, rfl, rfl⟩
  have hpriority : ((s.setStat t .ready).thread t).currentPriority =
      (s.thread t).currentPriority := by rw [setStat, setThread_self]
  have hnumberMask : ((s.setStat t .ready).thread t).numberMask =
      (s.thread t).numberMask := by rw [setStat, setThread_self]
  constructor
  case rings =>
    rw [Sched.insertThread, if_neg (show (s.setStat t .ready).current ≠ some t from hcur),
      hpriority]
    exact h.rings.pushBack hloose _
  case ready =>
    intro p u
    rw [mem_pushed, h.ready, (hthread u).1, ListHead.ready.injEq]
    constructor
    · rintro (⟨hr, hp⟩ | ⟨rfl, rfl⟩)
      · exact ⟨Or.inl hr, hp⟩
      · exact ⟨Or.inr rfl, rfl⟩
    · rintro ⟨hr | rfl, hp⟩
      · exact Or.inl ⟨hr, hp⟩
      · exact Or.inr ⟨rfl, hp.symm⟩
  case bit =>
    intro p
    rw [Sched.insertThread, if_neg (show (s.setStat t .ready).current ≠ some t from hcur),
      hnumberMask, h.mask t ht, or_priorityMask_bit]
    change s.group.getLsbD p = true ∨ _ ↔ _
    rw [h.bit, pushed]
    by_cases hp : p = (s.thread t).currentPriority
    · subst hp
      rw [Function.update_self]
      exact iff_of_true (Or.inr rfl) (List.append_ne_nil_of_right_ne_nil _ (List.cons_ne_nil t []))
    · have hne : ListHead.ready p ≠ .ready (s.thread t).currentPriority :=
        fun heq => hp (ListHead.ready.inj heq)
      rw [Function.update_of_ne hne]
      exact or_iff_left hp
  case mask =>
    intro u
    obtain ⟨hp, hm, hs⟩ := hthread u
    rw [hp, hm, hs]
    exact h.mask u

/-- A thread is changed, but not what the table says of it. -/
theorem setThread (h : Table s q r) {x : Tcb}
    (hpriority : x.currentPriority = (s.thread t).currentPriority)
    (hmask : x.numberMask = (s.thread t).numberMask) (hstarted : x.started = (s.thread t).started) :
    Table (s.setThread t x) q r := by
  refine h.congr rfl rfl (fun _ => Iff.rfl) (fun u _ => ?_) fun u => ?_
  · by_cases hu : u = t
    · subst hu
      rw [setThread_self]
      exact hpriority
    · rw [setThread_of_ne hu]
  · by_cases hu : u = t
    · subst hu
      rw [setThread_self, hpriority, hmask, hstarted]
      exact h.mask u
    · rw [setThread_of_ne hu]
      exact h.mask u

/-- The state of a thread does not concern the lists. -/
theorem setStat (h : Table s q r) (t : Fin n) (stat : ThreadStat) :
    Table (s.setStat t stat) q r :=
  h.setThread rfl rfl rfl

theorem setTimer (h : Table s q r) (t : Fin n) (timer : Bool) : Table (s.setTimer t timer) q r :=
  h.setThread rfl rfl rfl

theorem of_iff (h : Table s q r) (hready : ∀ t, r' t ↔ r t) : Table s q r' :=
  h.congr rfl rfl hready (fun _ _ => rfl) h.mask

/-- The thread that `rt_schedule` finds is the first of the most urgent ones. -/
theorem highest (h : Table s q r) (hgroup : s.group ≠ 0) :
    ∃ p t, s.highest = some (p, t) ∧ r t ∧ (s.thread t).currentPriority = p ∧
      ∀ u, r u → p ≤ (s.thread u).currentPriority := by
  obtain ⟨p, hp⟩ := lowestBit_isSome hgroup
  obtain ⟨hbit, hleast⟩ := lowestBit_eq_some hp
  obtain ⟨t, rest, hq⟩ := List.exists_cons_of_ne_nil ((h.bit p).mp hbit)
  have hnext := h.rings.next_head (.ready p)
  rw [hq] at hnext
  obtain ⟨hr, hpriority⟩ := (h.ready p t).mp (hq ▸ List.mem_cons_self)
  refine ⟨p, t, ?_, hr, hpriority, fun u hu => hleast _ ((h.bit _).mpr ?_)⟩
  · rw [Sched.highest, hp, Option.bind_some, hnext]
    rfl
  · exact List.ne_nil_of_mem ((h.ready _ u).mpr ⟨hu, rfl⟩)

/-- With no bit set no thread is in the table. -/
theorem not_of_group_zero (h : Table s q r) (hgroup : s.group = 0) : ¬r t := by
  intro hr
  have hbit := (h.bit _).mpr (List.ne_nil_of_mem ((h.ready _ t).mpr ⟨hr, rfl⟩))
  rw [hgroup] at hbit
  exact Bool.false_ne_true (BitVec.getLsbD_zero.symm.trans hbit)

/-- The priority of a thread that the table is not about. -/
theorem changed (h : Table s q r) (p : Priority) (ht : ¬r t) : Table (s.changed t p) q r := by
  refine h.congr rfl rfl (fun _ => Iff.rfl) (fun u hu => ?_) fun u => ?_
  · have hne : u ≠ t := fun heq => ht (heq ▸ hu)
    rw [Sched.changed, setThread_of_ne hne]
  · by_cases hu : u = t
    · subst hu
      rw [Sched.changed, setThread_self]
      exact fun _ => rfl
    · rw [Sched.changed, setThread_of_ne hu]
      exact h.mask u

end Table

end Sched

end RtVcom.Kernel

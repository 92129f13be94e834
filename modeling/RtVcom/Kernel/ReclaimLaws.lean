import RtVcom.Kernel.Reclaim

/-!
# The laws of the reclamation

What the steps in order keep (`Threads.Kept`), for the ways a thread ends, for the other calls, and
for the idle thread, and from it the law of the runs in order (`threads_reclaimed`). A step that is
not in order queues a static thread without a type, which the idle thread then frees.
-/

namespace RtVcom.Kernel

open RtVcom.Lib

namespace Threads

/-- A thread whose memory is in use: on the heap with all of it, or static. -/
def Owned (s : Threads) (t : Nat) : Prop :=
  (.object t ∈ s.allocated ∧ .stack t ∈ s.allocated ∧ (s.thread t).type = rtObjectClassThread) ∨
    (.object t ∉ s.allocated ∧ .stack t ∉ s.allocated ∧ s.inHand ≠ some t ∧
      (s.thread t).type = rtObjectClassThread ||| rtObjectClassStatic)

/-- A thread that runs: its memory is in use, or it is static and was detached. -/
def Runs (s : Threads) (t : Nat) : Prop :=
  (s.thread t).stat ≠ .close ∨ t ∈ s.defunct ∨
    (.object t ∉ s.allocated ∧ (s.thread t).type = rtObjectClassNull)

/-- What every step in order keeps. -/
structure Kept (s : Threads) : Prop where
  freed : ∀ m, m ∈ s.freed ↔ m ∈ s.allocated ∧ ¬s.Pending m.thread
  once : s.freed.Nodup
  cleaned : ∀ t, s.cleaned.count t = if s.Hooked t then 1 else 0
  allocated : ∀ m ∈ s.allocated, m.thread < s.count
  fresh : ∀ t, s.count ≤ t → (s.thread t).stat ≠ .close
  owned : ∀ t, t < s.count → s.Pending t → s.Owned t
  nodup : s.defunct.Nodup
  defunct : ∀ t ∈ s.defunct, t < s.count ∧ (s.thread t).stat = .close
  inHand : ∀ t, s.inHand = some t → t < s.count ∧ (s.thread t).stat = .close ∧ t ∉ s.defunct
  current : ∀ t, s.current = some t → t < s.count ∧ s.Runs t


variable {s t : Threads} {call : ThreadCall} {u : Nat}

/-! ## One thread changes -/

/-- Everything but the thread `u` is as before. -/
structure Frame (u : Nat) (s t : Threads) : Prop where
  thread : ∀ v, v ≠ u → t.thread v = s.thread v
  count : ∀ v, v ≠ u → (v < t.count ↔ v < s.count)
  current : ∀ v, v ≠ u → t.current = some v → s.current = some v
  defunct : ∀ v, v ≠ u → (v ∈ t.defunct ↔ v ∈ s.defunct)
  inHand : ∀ v, v ≠ u → (t.inHand = some v ↔ s.inHand = some v)
  allocated : ∀ m, m.thread ≠ u → (m ∈ t.allocated ↔ m ∈ s.allocated)
  freed : ∀ m, m.thread ≠ u → (m ∈ t.freed ↔ m ∈ s.freed)
  cleaned : ∀ v, v ≠ u → t.cleaned.count v = s.cleaned.count v

/-- A step of one thread leaves whether another is pending. -/
theorem Frame.pending (h : Frame u s t) {v : Nat} (hv : v ≠ u) : t.Pending v ↔ s.Pending v := by
  rw [Pending, Pending, h.thread v hv, h.defunct v hv, h.inHand v hv]

theorem Frame.hooked (h : Frame u s t) {v : Nat} (hv : v ≠ u) : t.Hooked v ↔ s.Hooked v := by
  rw [Hooked, Hooked, h.thread v hv, h.defunct v hv]

theorem Frame.owned (h : Frame u s t) {v : Nat} (hv : v ≠ u) : t.Owned v ↔ s.Owned v := by
  rw [Owned, Owned, h.thread v hv, h.allocated (.object v) hv, h.allocated (.stack v) hv, ne_eq,
    ne_eq, h.inHand v hv]

theorem Frame.runs (h : Frame u s t) {v : Nat} (hv : v ≠ u) : t.Runs v ↔ s.Runs v := by
  rw [Runs, Runs, h.thread v hv, h.defunct v hv, h.allocated (.object v) hv]

/-- What is kept is kept if it holds of the thread that changes. -/
theorem Kept.one (h : s.Kept) (hframe : Frame u s t) (hcount : u < t.count)
    (hfreed : ∀ m, m.thread = u → (m ∈ t.freed ↔ m ∈ t.allocated ∧ ¬t.Pending u))
    (honce : t.freed.Nodup) (hcleaned : t.cleaned.count u = if t.Hooked u then 1 else 0)
    (howned : t.Pending u → t.Owned u) (hnodup : t.defunct.Nodup)
    (hdefunct : u ∈ t.defunct → (t.thread u).stat = .close)
    (hinHand : t.inHand = some u → (t.thread u).stat = .close ∧ u ∉ t.defunct)
    (hcurrent : t.current = some u → t.Runs u) : t.Kept := by
  refine ⟨fun m => ?_, honce, fun v => ?_, fun m hm => ?_, fun v hv => ?_, fun v hv hp => ?_,
    hnodup, fun v hv => ?_, fun v hv => ?_, fun v hv => ?_⟩
  · by_cases hmu : m.thread = u
    · rw [hmu]
      exact hfreed m hmu
    · rw [hframe.freed m hmu, hframe.allocated m hmu, hframe.pending hmu]
      exact h.freed m
  · by_cases hvu : v = u
    · rw [hvu]
      exact hcleaned
    · rw [hframe.cleaned v hvu, h.cleaned v]
      exact if_congr (hframe.hooked hvu).symm rfl rfl
  · by_cases hmu : m.thread = u
    · rw [hmu]
      exact hcount
    · exact (hframe.count _ hmu).mpr (h.allocated m ((hframe.allocated m hmu).mp hm))
  · have hvu : v ≠ u := fun heq => Nat.not_lt.mpr hv (heq ▸ hcount)
    rw [hframe.thread v hvu]
    exact h.fresh v (Nat.not_lt.mp fun hlt => Nat.not_lt.mpr hv ((hframe.count v hvu).mpr hlt))
  · by_cases hvu : v = u
    · subst hvu
      exact howned hp
    · exact (hframe.owned hvu).mpr
        (h.owned v ((hframe.count v hvu).mp hv) ((hframe.pending hvu).mp hp))
  · by_cases hvu : v = u
    · subst hvu
      exact ⟨hcount, hdefunct hv⟩
    · rw [hframe.count v hvu, hframe.thread v hvu]
      exact h.defunct v ((hframe.defunct v hvu).mp hv)
  · by_cases hvu : v = u
    · subst hvu
      exact ⟨hcount, hinHand hv⟩
    · rw [hframe.count v hvu, hframe.thread v hvu, hframe.defunct v hvu]
      exact h.inHand v ((hframe.inHand v hvu).mp hv)
  · by_cases hvu : v = u
    · subst hvu
      exact ⟨hcount, hcurrent hv⟩
    · rw [hframe.count v hvu, hframe.runs hvu]
      exact h.current v (hframe.current v hvu hv)

theorem setThread_self (s : Threads) (u : Nat) (x : ThreadObject) :
    (s.setThread u x).thread u = x := Function.update_self _ _ _

theorem setThread_of_ne (s : Threads) (x : ThreadObject) {v : Nat} (hv : v ≠ u) :
    (s.setThread u x).thread v = s.thread v := Function.update_of_ne hv _ _

/-- A thread is set, and its place in the list of the defunct ones. -/
theorem frame_setThread (s : Threads) (x : ThreadObject) {list : List Nat}
    (hlist : ∀ v, v ≠ u → (v ∈ list ↔ v ∈ s.defunct)) :
    Frame u s { s.setThread u x with defunct := list } where
  thread _ hv := setThread_of_ne s x hv
  count _ _ := Iff.rfl
  current _ _ hcurrent := hcurrent
  defunct := hlist
  inHand _ _ := Iff.rfl
  allocated _ _ := Iff.rfl
  freed _ _ := Iff.rfl
  cleaned _ _ := rfl

/-! ## The ways a thread ends -/

/-- The idle thread frees only threads of the heap. -/
theorem Kept.inHand_owned (h : s.Kept) (hhand : s.inHand = some u) :
    .object u ∈ s.allocated ∧ .stack u ∈ s.allocated :=
  match h.owned u (h.inHand u hhand).1 (.inr (.inr hhand)) with
  | .inl hheap => ⟨hheap.1, hheap.2.1⟩
  | .inr hstatic => absurd hhand hstatic.2.2.1

/-- A thread that has not ended, or waits for the idle thread already, is queued. -/
theorem Kept.queue (h : s.Kept) (hu : u < s.count)
    (hlive : (s.thread u).stat ≠ .close ∨ u ∈ s.defunct) :
    ({ s.setThread u { s.thread u with stat := .close } with
      defunct := u :: s.defunct.erase u } : Threads).Kept := by
  have hself := setThread_self s u { s.thread u with stat := .close }
  have hbefore : s.Pending u := hlive.imp_right .inl
  have hafter : ({ s.setThread u { s.thread u with stat := .close } with
      defunct := u :: s.defunct.erase u } : Threads).Pending u :=
    .inr (.inl List.mem_cons_self)
  have hframe := @frame_setThread u s { s.thread u with stat := .close } (u :: s.defunct.erase u)
    fun v hv => by
      rw [List.mem_cons, List.mem_erase_of_ne hv]
      exact or_iff_right hv
  refine h.one hframe hu (fun m hmu => ?_) h.once ?_ (fun _ => ?_)
    (List.nodup_cons.mpr ⟨h.nodup.not_mem_erase, h.nodup.erase u⟩)
    (fun _ => congrArg ThreadObject.stat hself) (fun hin => ?_)
    fun _ => .inr (.inl List.mem_cons_self)
  · refine iff_of_false (fun hm => ?_) fun hm => hm.2 hafter
    exact ((h.freed m).mp hm).2 (hmu ▸ hbefore)
  · refine (h.cleaned u).trans (if_congr (iff_of_false (fun hooked => ?_) fun hooked => ?_) rfl rfl)
    · exact hlive.elim (fun hstat => hstat hooked.2.1) hooked.2.2
    · exact hooked.2.2 List.mem_cons_self
  · have howned := h.owned u hu hbefore
    simp only [Owned, hself]
    exact howned
  · obtain ⟨-, hclose, hnot⟩ := h.inHand u hin
    exact absurd hnot (hlive.elim (fun hstat => absurd hclose hstat) not_not_intro)

/-- A static thread without a hook is detached. -/
theorem Kept.discard (h : s.Kept) {x : ThreadObject} (hu : u < s.count)
    (hstatic : .object u ∉ s.allocated) (hhook : (s.thread u).cleanup = false)
    (hx : x = ⟨rtObjectClassNull, .close, false⟩) :
    ({ s.setThread u x with defunct := s.defunct.erase u } : Threads).Kept := by
  have hself := setThread_self s u x
  have hhand : s.inHand ≠ some u := fun heq => hstatic (h.inHand_owned heq).1
  have hgone : ¬({ s.setThread u x with defunct := s.defunct.erase u } : Threads).Pending u := by
    rintro (hstat | hmem | hin)
    · dsimp only at hstat
      rw [hself, hx] at hstat
      exact hstat rfl
    · exact h.nodup.not_mem_erase hmem
    · exact hhand hin
  refine h.one (frame_setThread s x fun v hv => List.mem_erase_of_ne hv) hu (fun m hmu => ?_)
    h.once ?_ (fun hp => absurd hp hgone) (h.nodup.erase u)
    (fun hmem => absurd hmem h.nodup.not_mem_erase) (fun hin => absurd hin hhand)
    fun _ => .inr (.inr ⟨hstatic, (congrArg ThreadObject.type hself).trans (hx ▸ rfl)⟩)
  · -- the memory of a static thread is not from the heap, unless it was reclaimed
    refine (h.freed m).trans (and_congr_right fun hm => iff_of_true (fun hp => ?_) hgone)
    rw [hmu] at hp
    rcases h.owned u hu hp with ⟨hobject, -⟩ | ⟨-, hstack, -⟩
    · exact hstatic hobject
    · cases m with
      | object v => exact hstatic (hmu ▸ hm)
      | stack v => exact hstack (hmu ▸ hm)
  · refine (h.cleaned u).trans (if_congr (iff_of_false (fun hooked => ?_) fun hooked => ?_) rfl rfl)
    · exact Bool.false_ne_true (hhook.symm.trans hooked.1)
    · have hset := hooked.1
      dsimp only at hset
      rw [hself, hx] at hset
      cases hset

/-! ## The other steps -/

/-- A thread that has not ended changes, but for its type. -/
theorem Kept.alive (h : s.Kept) {x : ThreadObject} (hu : u < s.count)
    (hstat : (s.thread u).stat ≠ .close) (htype : x.type = (s.thread u).type)
    (hx : x.stat ≠ .close) : (s.setThread u x).Kept := by
  have hself := setThread_self s u x
  have hafter : ((s.setThread u x).thread u).stat ≠ .close := by
    rw [hself]
    exact hx
  have hframe : Frame u s (s.setThread u x) := frame_setThread s x fun _ _ => Iff.rfl
  refine h.one hframe hu (fun m hmu => ?_) h.once ?_ (fun _ => ?_) h.nodup
    (fun hmem => absurd (h.defunct u hmem).2 hstat)
    (fun hin => absurd (h.inHand u hin).2.1 hstat) fun _ => .inl hafter
  · refine iff_of_false (fun hm => ?_) fun hm => hm.2 (.inl hafter)
    exact ((h.freed m).mp hm).2 (hmu ▸ .inl hstat)
  · exact (h.cleaned u).trans (if_congr
      (iff_of_false (fun hooked => hstat hooked.2.1) fun hooked => hafter hooked.2.1) rfl rfl)
  · have howned := h.owned u hu (.inl hstat)
    rw [Owned, hself, htype]
    exact howned

/-- A new thread, with the memory it was given and what of it was freed again. -/
theorem Kept.extend (h : s.Kept) {x : ThreadObject} {given back : List ThreadMemory}
    (hgiven : ∀ m ∈ given, m.thread = s.count) (hhook : x.cleanup = false)
    (hback : ∀ m, m ∈ back ↔ m ∈ given ∧ x.stat = .close) (honce : back.Nodup)
    (hobject : x.stat ≠ .close →
      (.object s.count ∈ given ∧ .stack s.count ∈ given ∧ x.type = rtObjectClassThread) ∨
        (given = [] ∧ x.type = rtObjectClassThread ||| rtObjectClassStatic)) :
    ({ s.setThread s.count x with
      count := s.count + 1
      allocated := s.allocated ++ given
      freed := s.freed ++ back } : Threads).Kept := by
  have hself := setThread_self s s.count x
  have hold {m : ThreadMemory} (hm : m ∈ s.allocated) : m.thread ≠ s.count :=
    Nat.ne_of_lt (h.allocated m hm)
  have hdefunct : s.count ∉ s.defunct := fun hmem => Nat.lt_irrefl _ (h.defunct _ hmem).1
  have hhand : s.inHand ≠ some s.count := fun heq => Nat.lt_irrefl _ (h.inHand _ heq).1
  have hpending : ({ s.setThread s.count x with
      count := s.count + 1
      allocated := s.allocated ++ given
      freed := s.freed ++ back } : Threads).Pending s.count ↔ x.stat ≠ .close := by
    rw [Pending]
    dsimp only
    rw [hself]
    exact or_iff_left (not_or.mpr ⟨hdefunct, hhand⟩)
  have hframe : Frame s.count s { s.setThread s.count x with
      count := s.count + 1
      allocated := s.allocated ++ given
      freed := s.freed ++ back } :=
    { thread := fun _ hv => setThread_of_ne s x hv
      count := fun v hv => by dsimp only; omega
      current := fun _ _ hcurrent => hcurrent
      defunct := fun _ _ => Iff.rfl
      inHand := fun _ _ => Iff.rfl
      allocated := fun m hm => by
        rw [List.mem_append]
        exact or_iff_left fun hin => hm (hgiven m hin)
      freed := fun m hm => by
        rw [List.mem_append]
        exact or_iff_left fun hin => hm (hgiven m ((hback m).mp hin).1)
      cleaned := fun _ _ => rfl }
  refine h.one hframe (Nat.lt_succ_self _) (fun m hmt => ?_) ?_ ?_ (fun hp => ?_) h.nodup
    (fun hmem => absurd hmem hdefunct) (fun hin => absurd hin hhand)
    fun hcurrent => absurd (h.current _ hcurrent).1 (Nat.lt_irrefl _)
  · have hallocated : m ∉ s.allocated := fun hin => hold hin hmt
    have hfreed : m ∉ s.freed := fun hin => hallocated ((h.freed m).mp hin).1
    rw [hpending, List.mem_append, List.mem_append, or_iff_right hfreed, or_iff_right hallocated,
      hback, not_not]
  · refine List.nodup_append.mpr ⟨h.once, honce, fun m hm m' hm' heq => ?_⟩
    exact hold ((h.freed m).mp hm).1 (heq ▸ hgiven m' ((hback m').mp hm').1)
  · refine (h.cleaned _).trans (if_congr (iff_of_false (fun hooked => ?_) fun hooked => ?_) rfl rfl)
    · exact h.fresh _ (Nat.le_refl _) hooked.2.1
    · have hset := hooked.1
      dsimp only at hset
      rw [hself, hhook] at hset
      cases hset
  · have hout {m : ThreadMemory} (hm : m.thread = s.count) : m ∉ s.allocated :=
      fun hin => hold hin hm
    rcases hobject (hpending.mp hp) with ⟨hin, hstack, htype⟩ | ⟨hnone, htype⟩
    · exact .inl ⟨List.mem_append_right _ hin, List.mem_append_right _ hstack,
        (congrArg ThreadObject.type hself).trans htype⟩
    · refine .inr ⟨?_, ?_, hhand, (congrArg ThreadObject.type hself).trans htype⟩
      · dsimp only
        rw [hnone, List.append_nil]
        exact hout rfl
      · dsimp only
        rw [hnone, List.append_nil]
        exact hout rfl

/-! ## The idle thread -/

/-- A thread that owns its memory is told from a static one by its type. -/
theorem Owned.systemobject (h : s.Owned u) :
    (s.thread u).rtObjectIsSystemobject = decide (.object u ∉ s.allocated) := by
  rcases h with ⟨hheap, -, htype⟩ | ⟨hstatic, -, -, htype⟩
  · rw [ThreadObject.rtObjectIsSystemobject, htype, decide_eq_false (not_not_intro hheap)]
    rfl
  · rw [ThreadObject.rtObjectIsSystemobject, htype, decide_eq_true hstatic]
    rfl

/-- A thread is taken from the list and its hook runs. It is freed next if it is on the heap. -/
theorem Kept.taken (h : s.Kept) (hcurrent : s.current = none) (hhand : s.inHand = none)
    {rest : List Nat} (hdefunct : s.defunct = u :: rest) {next : Option Nat}
    (hnext : next = if .object u ∈ s.allocated then some u else none) :
    ({ s with
      defunct := rest
      cleaned := if (s.thread u).cleanup then s.cleaned ++ [u] else s.cleaned
      inHand := next } : Threads).Kept := by
  have hmem : u ∈ s.defunct := hdefunct ▸ List.mem_cons_self
  obtain ⟨hu, hclose⟩ := h.defunct u hmem
  obtain ⟨hout, hrest⟩ := List.nodup_cons.mp (hdefunct ▸ h.nodup)
  have howner := h.owned u hu (.inr (.inl hmem))
  have hheld {v : Nat} (heq : next = some v) : v = u ∧ .object u ∈ s.allocated := by
    rw [heq] at hnext
    split at hnext
    · next hheap => exact ⟨Option.some.inj hnext, hheap⟩
    · cases hnext
  have hframe : Frame u s { s with
      defunct := rest
      cleaned := if (s.thread u).cleanup then s.cleaned ++ [u] else s.cleaned
      inHand := next } :=
    { thread := fun _ _ => rfl
      count := fun _ _ => Iff.rfl
      current := fun _ _ hv => hv
      defunct := fun v hv => by
        rw [hdefunct, List.mem_cons]
        exact (or_iff_right hv).symm
      inHand := fun v hv => by
        rw [hhand]
        exact iff_of_false (fun heq => hv (hheld heq).1) fun heq => by cases heq
      allocated := fun _ _ => Iff.rfl
      freed := fun _ _ => Iff.rfl
      cleaned := fun v hv => by
        dsimp only
        split
        · rw [List.count_append, List.count_singleton, if_neg (by simpa using Ne.symm hv),
            Nat.add_zero]
        · rfl }
  refine h.one hframe hu (fun m hmu => ?_) h.once ?_ (fun hp => ?_) hrest
    (fun hin => absurd hin hout) (fun _ => ⟨hclose, hout⟩) fun heq => ?_
  · -- it was not freed, and if it has memory of the heap it is in hand now
    have hfreed : m ∉ s.freed := fun hm => ((h.freed m).mp hm).2 (hmu ▸ .inr (.inl hmem))
    refine iff_of_false hfreed fun ⟨hm, hgone⟩ => ?_
    rcases howner with ⟨hheap, -⟩ | ⟨hstatic, hstack, -⟩
    · exact hgone (.inr (.inr (hnext.trans (if_pos hheap))))
    · cases m with
      | object v => exact hstatic (hmu ▸ hm)
      | stack v => exact hstack (hmu ▸ hm)
  · have hbefore := h.cleaned u
    rw [if_neg fun hooked => hooked.2.2 hmem] at hbefore
    cases hhook : (s.thread u).cleanup with
    | true =>
      rw [if_pos rfl, List.count_append, hbefore, if_pos ⟨hhook, hclose, hout⟩]
      exact (Nat.zero_add _).trans List.count_singleton_self
    | false =>
      rw [if_neg Bool.false_ne_true, hbefore, if_neg]
      exact fun hooked => Bool.false_ne_true (hhook.symm.trans hooked.1)
  · rcases howner with hheap | ⟨hstatic, -⟩
    · exact .inl hheap
    · rcases hp with hstat | hin | hin
      · exact absurd hclose hstat
      · exact absurd hin hout
      · exact absurd (hheld hin).2 hstatic
  · rw [show s.current = some u from heq] at hcurrent
    cases hcurrent

/-- Taking a defunct thread keeps the invariant. -/
theorem Kept.idleTake (h : s.Kept) (hcurrent : s.current = none) (hhand : s.inHand = none) :
    s.idleTake.Kept := by
  cases hdefunct : s.defunct with
  | nil =>
    have hsame : s.idleTake = s := by simp only [Threads.idleTake, hdefunct]
    rw [hsame]
    exact h
  | cons u rest =>
    have hmem : u ∈ s.defunct := hdefunct ▸ List.mem_cons_self
    have howner := h.owned u (h.defunct u hmem).1 (.inr (.inl hmem))
    have htaken := h.taken hcurrent hhand hdefunct rfl
    simp only [Threads.idleTake, hdefunct, howner.systemobject]
    by_cases hheap : .object u ∈ s.allocated
    · rw [if_pos hheap] at htaken
      simp only [hheap, not_true_eq_false, decide_false, Bool.false_eq_true, if_false]
      exact htaken
    · rw [if_neg hheap, ← hhand] at htaken
      simp only [hheap, not_false_eq_true, decide_true, if_true]
      exact htaken

theorem Kept.idleRelease (h : s.Kept) (hcurrent : s.current = none) (hhand : s.inHand = some u) :
    (s.idleRelease u).Kept := by
  obtain ⟨hu, hclose, hout⟩ := h.inHand u hhand
  obtain ⟨hobject, hstack⟩ := h.inHand_owned hhand
  have hself : (s.idleRelease u).thread u = (s.thread u).rtObjectDetach := setThread_self _ _ _
  have hgone : ¬(s.idleRelease u).Pending u := by
    rintro (hstat | hmem | hin)
    · rw [hself] at hstat
      exact hstat hclose
    · exact hout hmem
    · cases hin
  have hlost {m : ThreadMemory} (hm : m ∈ [ThreadMemory.stack u, .object u]) : m.thread = u := by
    rcases List.mem_cons.mp hm with rfl | hm
    · rfl
    · rw [List.mem_singleton.mp hm]
      rfl
  have hframe : Frame u s (s.idleRelease u) :=
    { thread := fun _ hv => setThread_of_ne s _ hv
      count := fun _ _ => Iff.rfl
      current := fun _ _ hv => hv
      defunct := fun _ _ => Iff.rfl
      inHand := fun v hv => by
        rw [hhand]
        exact iff_of_false (fun heq => by cases heq) fun heq => hv (Option.some.inj heq).symm
      allocated := fun _ _ => Iff.rfl
      freed := fun m hm => List.mem_append.trans (or_iff_left fun hin => hm (hlost hin))
      cleaned := fun _ _ => rfl }
  refine h.one hframe hu (fun m hmu => ?_) ?_ ?_ (fun hp => absurd hp hgone) h.nodup
    (fun hmem => absurd hmem hout) (fun hin => by cases hin) fun heq => ?_
  · have hboth : m ∈ [ThreadMemory.stack u, .object u] ∧ m ∈ s.allocated := by
      cases m with
      | object v =>
        obtain rfl : v = u := hmu
        exact ⟨List.mem_cons_of_mem _ List.mem_cons_self, hobject⟩
      | stack v =>
        obtain rfl : v = u := hmu
        exact ⟨List.mem_cons_self, hstack⟩
    exact iff_of_true (List.mem_append_right _ hboth.1) ⟨hboth.2, hgone⟩
  · refine List.nodup_append.mpr ⟨h.once, by simp, fun m hm m' hm' heq => ?_⟩
    have hmu : m.thread = u := heq ▸ hlost hm'
    exact ((h.freed m).mp hm).2 (hmu ▸ .inr (.inr hhand))
  · refine (h.cleaned u).trans (if_congr ?_ rfl rfl)
    rw [Hooked, Hooked, hself]
    rfl
  · rw [show s.current = some u from heq] at hcurrent
    cases hcurrent

theorem Kept.reclaimed (h : s.Kept) : s.Reclaimed :=
  ⟨h.freed, h.once, h.cleaned, fun n => drained n s⟩

/-! ## Every step -/

/-- A thread that was not started is in no list. -/
theorem Kept.erase_of_init (h : s.Kept) (hinit : (s.thread u).stat = .init) :
    s.defunct.erase u = s.defunct := by
  refine List.erase_of_not_mem fun hmem => ?_
  rw [(h.defunct u hmem).2] at hinit
  cases hinit

theorem Kept.rtThreadDelete (h : s.Kept) (hu : u < s.count)
    (hlive : (s.thread u).stat ≠ .close ∨ u ∈ s.defunct) : (s.rtThreadDelete u).Kept := by
  have hqueue := h.queue hu hlive
  unfold Threads.rtThreadDelete
  dsimp only
  split
  · exact hqueue
  · next hinit =>
    rw [h.erase_of_init (not_not.mp hinit)] at hqueue
    exact hqueue

/-- The object of a thread that is closed and detached. -/
theorem detachObject_close (s : Threads) (u : Nat) :
    (s.close u).detachObject u =
      s.setThread u ⟨rtObjectClassNull, .close, (s.thread u).cleanup⟩ := by
  simp only [close, detachObject, setThread, Function.update_self, Function.update_idem,
    ThreadObject.rtObjectDetach]

/-- `rt_thread_detach` closes the thread, and puts it to the defunct ones if it has a hook. -/
theorem rtThreadDetach_eq (h : s.Kept) : s.rtThreadDetach u =
    { s.setThread u ⟨rtObjectClassNull, .close, (s.thread u).cleanup⟩ with
      defunct :=
        if (s.thread u).cleanup then u :: s.defunct.erase u else s.defunct.erase u } := by
  unfold Threads.rtThreadDetach
  dsimp only
  split
  · rw [detachObject_close, setThread_self]
    cases hhook : (s.thread u).cleanup <;>
      simp only [rtScheduleRemoveThread, hhook, insertDefunct, setThread, if_true,
        Bool.false_eq_true, if_false]
  · next hinit =>
    rw [detachObject_close, setThread_self, h.erase_of_init (not_not.mp hinit)]
    cases hhook : (s.thread u).cleanup <;>
      simp only [insertDefunct, setThread, if_true, Bool.false_eq_true, if_false]

/-- `rt_thread_detach` without a hook keeps the invariant. -/
theorem Kept.rtThreadDetach (h : s.Kept) (hu : u < s.count) (hstatic : .object u ∉ s.allocated)
    (hhook : (s.thread u).cleanup = false) : (s.rtThreadDetach u).Kept := by
  rw [rtThreadDetach_eq h, hhook]
  exact h.discard hu hstatic hhook rfl

theorem Kept.rtThreadExit (h : s.Kept) (hu : u < s.count)
    (hlive : (s.thread u).stat ≠ .close ∨ u ∈ s.defunct) : (s.rtThreadExit u).Kept := by
  have howned := h.owned u hu (hlive.imp_right .inl)
  have hclosed : ((s.rtScheduleRemoveThread u).close u).thread u =
      { s.thread u with stat := .close } := setThread_self _ _ _
  have hsystem : ((((s.rtScheduleRemoveThread u).close u).thread u).rtObjectIsSystemobject) =
      decide (.object u ∉ s.allocated) := by
    rw [hclosed, ← howned.systemobject]
    rfl
  unfold Threads.rtThreadExit
  dsimp only
  split
  · next hstatic =>
    rw [hsystem, hclosed, Bool.not_eq_true'] at hstatic
    rw [detachObject_close]
    refine h.discard hu (of_decide_eq_true hstatic.1) hstatic.2 ?_
    exact congrArg (ThreadObject.mk _ _) hstatic.2
  · exact h.queue hu hlive

/-- A switch to a thread that is not closed keeps the invariant. -/
theorem Kept.switch (h : s.Kept) {next : Option Nat}
    (hnext : ∀ v, next = some v → v < s.count ∧ (s.thread v).stat ≠ .close) :
    ({ s with current := next } : Threads).Kept :=
  ⟨h.freed, h.once, h.cleaned, h.allocated, h.fresh, h.owned, h.nodup, h.defunct, h.inHand,
    fun v hv => ⟨(hnext v hv).1, .inl (hnext v hv).2⟩⟩

/-- `rt_thread_create` keeps the invariant, with and without memory. -/
theorem Kept.rtThreadCreate (h : s.Kept) (objectRoom stackRoom : Bool) :
    (s.rtThreadCreate objectRoom stackRoom).Kept := by
  unfold Threads.rtThreadCreate
  split
  · exact h
  · split
    · refine h.extend (fun m hm => ?_) rfl (fun m => (and_iff_left rfl).symm)
        (List.nodup_singleton _) fun hne => absurd rfl hne
      rw [List.mem_singleton.mp hm]
      rfl
    · have hcreated := @Kept.extend s h ⟨rtObjectClassThread, .init, false⟩
        [.object s.count, .stack s.count] [] (fun m hm => ?_) rfl
        (fun m => iff_of_false List.not_mem_nil fun hin => by cases hin.2) List.nodup_nil
        fun _ => .inl ⟨List.mem_cons_self, List.mem_cons_of_mem _ List.mem_cons_self, rfl⟩
      · rw [List.append_nil] at hcreated
        exact hcreated
      · rcases List.mem_cons.mp hm with rfl | hm
        · rfl
        · rw [List.mem_singleton.mp hm]
          rfl

theorem Kept.rtThreadInit (h : s.Kept) : s.rtThreadInit.Kept := by
  have hinit := @Kept.extend s h ⟨rtObjectClassThread ||| rtObjectClassStatic, .init, false⟩ [] []
    (fun m hm => by cases hm) rfl (fun m => iff_of_false List.not_mem_nil fun hin => by cases hin.1)
    List.nodup_nil fun _ => .inr ⟨rfl, rfl⟩
  rw [List.append_nil, List.append_nil] at hinit
  exact hinit

/-- One step in order. -/
theorem Kept.step (h : s.Kept) (hok : s.InOrder call) (hstep : threadStep s call = some t) :
    t.Kept := by
  cases call with
  | init => cases hstep; exact h.rtThreadInit
  | create objectRoom stackRoom => cases hstep; exact h.rtThreadCreate objectRoom stackRoom
  | setCleanup u =>
    obtain ⟨⟨hu, hstat⟩, hsome⟩ := Option.ite_none_right_eq_some.mp hstep
    cases hsome
    exact h.alive hu hstat rfl hstat
  | startup u =>
    obtain ⟨⟨hu, hstat⟩, hsome⟩ := Option.ite_none_right_eq_some.mp hstep
    cases hsome
    exact h.alive hu (by rw [hstat]; decide) rfl fun hready => by cases hready
  | switch next =>
    cases next with
    | none =>
      cases hstep
      exact h.switch fun v hv => by cases hv
    | some u =>
      obtain ⟨⟨hu, hstat⟩, hsome⟩ := Option.ite_none_right_eq_some.mp hstep
      cases hsome
      refine h.switch fun v hv => ?_
      cases hv
      exact ⟨hu, by rw [hstat]; decide⟩
  | exit =>
    obtain ⟨u, hcurrent, rfl⟩ := Option.map_eq_some_iff.mp hstep
    obtain ⟨hu, hruns⟩ := h.current u hcurrent
    have hlive : (s.thread u).stat ≠ .close ∨ u ∈ s.defunct := by
      rcases hruns with hstat | hmem | hnull
      · exact .inl hstat
      · exact .inr hmem
      · exact absurd hnull.2 (hok u hcurrent)
    exact (h.rtThreadExit hu hlive).switch fun v hv => by cases hv
  | detach u =>
    obtain ⟨⟨hu, hstatic⟩, hsome⟩ := Option.ite_none_right_eq_some.mp hstep
    cases hsome
    exact h.rtThreadDetach hu hstatic hok
  | delete u =>
    obtain ⟨⟨hheap, hlive⟩, hsome⟩ := Option.ite_none_right_eq_some.mp hstep
    cases hsome
    exact h.rtThreadDelete (h.allocated _ hheap) hlive
  | take =>
    obtain ⟨⟨hcurrent, hhand⟩, hsome⟩ := Option.ite_none_right_eq_some.mp hstep
    cases hsome
    exact h.idleTake hcurrent hhand
  | release =>
    obtain ⟨hcurrent, hsome⟩ := Option.ite_none_right_eq_some.mp hstep
    obtain ⟨u, hhand, rfl⟩ := Option.map_eq_some_iff.mp hsome
    exact h.idleRelease hcurrent hhand

/-! ## Runs -/

theorem kept_init : threadMachine.init.Kept where
  freed m := iff_of_false List.not_mem_nil fun hm => List.not_mem_nil hm.1
  once := List.nodup_nil
  cleaned t := (if_neg fun hooked => Bool.false_ne_true hooked.1).symm
  allocated m hm := by cases hm
  fresh t _ hclose := by cases hclose
  owned t ht := by cases ht
  nodup := List.nodup_nil
  defunct t ht := by cases ht
  inHand t ht := by cases ht
  current t ht := by cases ht

theorem kept_of_reach (h : threadMachine.Reach InOrder s) : s.Kept :=
  h.invariant (P := Kept) kept_init fun _ _ _ hs hok hstep => hs.step hok hstep

theorem idleTake_current (s : Threads) : s.idleTake.current = s.current := by
  unfold Threads.idleTake
  split
  · rfl
  · dsimp only
    split <;> rfl

/-- The loop of the idle thread is a run of it. -/
theorem reach_idleLoop (fuel : Nat) (h : threadMachine.Reach InOrder s)
    (hcurrent : s.current = none) (hhand : s.inHand = none) :
    threadMachine.Reach InOrder (idleLoop fuel s) := by
  induction fuel generalizing s with
  | zero => exact h
  | succ fuel ih =>
    have htake : threadMachine.Reach InOrder s.idleTake :=
      h.step (a := .take) trivial (if_pos ⟨hcurrent, hhand⟩)
    have hidle : s.idleTake.current = none := (idleTake_current s).trans hcurrent
    rw [idleLoop]
    split
    · next u hin =>
      refine ih (htake.step (a := .release) trivial ?_) hidle rfl
      change (if s.idleTake.current = none then s.idleTake.inHand.map s.idleTake.idleRelease
        else none) = _
      rw [if_pos hidle, hin]
      rfl
    · exact htake

/-- So is a whole call of `rt_thread_idle_excute`. -/
theorem reach_idleExcute (h : threadMachine.Reach InOrder s) (hcurrent : s.current = none) :
    threadMachine.Reach InOrder s.rtThreadIdleExcute := by
  unfold rtThreadIdleExcute
  split
  · next u hin =>
    refine reach_idleLoop _ (h.step (a := .release) trivial ?_) hcurrent rfl
    change (if s.current = none then s.inHand.map s.idleRelease else none) = _
    rw [if_pos hcurrent, hin]
    rfl
  · next hin => exact reach_idleLoop _ h hcurrent hin

/-! ## A static thread that is taken for one of the heap -/

/-- Taking a thread frees nothing. -/
theorem freed_idleTake (s : Threads) :
    s.idleTake.freed = s.freed ∧ s.idleTake.allocated = s.allocated := by
  unfold Threads.idleTake
  split
  · exact ⟨rfl, rfl⟩
  · dsimp only
    split <;> exact ⟨rfl, rfl⟩

/-- The loop of the idle thread only adds to what is freed. -/
theorem freed_idleLoop (fuel : Nat) (s : Threads) :
    s.freed ⊆ (idleLoop fuel s).freed ∧ (idleLoop fuel s).allocated = s.allocated := by
  induction fuel generalizing s with
  | zero => exact ⟨List.Subset.refl _, rfl⟩
  | succ fuel ih =>
    obtain ⟨hfreed, hallocated⟩ := freed_idleTake s
    rw [idleLoop]
    split
    · next u _ =>
      obtain ⟨hsub, hsame⟩ := ih (s.idleTake.idleRelease u)
      refine ⟨fun m hm => hsub (List.mem_append_left _ ?_), hsame.trans hallocated⟩
      rw [hfreed]
      exact hm
    · rw [hfreed, hallocated]
      exact ⟨List.Subset.refl _, rfl⟩

/-- The loop frees the object of its first thread if that was detached. -/
theorem object_freed_idleLoop {fuel : Nat} {rest : List Nat} (hdefunct : s.defunct = u :: rest)
    (htype : (s.thread u).type = rtObjectClassNull) :
    .object u ∈ (idleLoop (fuel + 1) s).freed := by
  have hnot : (s.thread u).rtObjectIsSystemobject = false := by
    rw [ThreadObject.rtObjectIsSystemobject, htype]
    rfl
  have hhand : s.idleTake.inHand = some u := by
    simp only [Threads.idleTake, hdefunct, hnot, Bool.false_eq_true, if_false]
  rw [idleLoop, hhand]
  exact (freed_idleLoop fuel _).1
    (List.mem_append_right _ (List.mem_cons_of_mem _ List.mem_cons_self))

/-- A static thread whose type is gone is freed, against the law. -/
theorem not_reclaimed_idleExcute {rest : List Nat} (hdefunct : s.defunct = u :: rest)
    (htype : (s.thread u).type = rtObjectClassNull) (hstatic : .object u ∉ s.allocated) :
    ¬s.rtThreadIdleExcute.Reclaimed := by
  intro hreclaimed
  suffices hfreed : .object u ∈ s.rtThreadIdleExcute.freed ∧
      s.rtThreadIdleExcute.allocated = s.allocated by
    exact hstatic (hfreed.2 ▸ ((hreclaimed.freed _).mp hfreed.1).1)
  have hlength : s.defunct.length = rest.length + 1 := by rw [hdefunct, List.length_cons]
  unfold rtThreadIdleExcute
  rw [hlength]
  split
  · next v _ =>
    refine ⟨object_freed_idleLoop hdefunct ?_, (freed_idleLoop _ _).2⟩
    by_cases huv : u = v
    · rw [huv]
      exact congrArg ThreadObject.type (setThread_self s v _)
    · exact (congrArg ThreadObject.type (Function.update_of_ne huv _ _)).trans htype
  · exact ⟨object_freed_idleLoop hdefunct htype, (freed_idleLoop _ _).2⟩

/-- A static thread that returns after it was detached is queued. -/
theorem Kept.not_reclaimed_exit (h : s.Kept) (hcurrent : s.current = some u)
    (hnull : (s.thread u).type = rtObjectClassNull) :
    ¬({ s.rtThreadExit u with current := none } : Threads).rtThreadIdleExcute.Reclaimed := by
  obtain ⟨hu, hruns⟩ := h.current u hcurrent
  have hstatic : .object u ∉ s.allocated := by
    have hlive (hpending : s.Pending u) : False := by
      rcases h.owned u hu hpending with ⟨-, -, htype⟩ | ⟨-, -, -, htype⟩
      · rw [hnull] at htype
        cases htype
      · rw [hnull] at htype
        cases htype
    rcases hruns with hstat | hmem | ⟨hout, -⟩
    · exact (hlive (.inl hstat)).elim
    · exact (hlive (.inr (.inl hmem))).elim
    · exact hout
  have hclosed : ((s.rtScheduleRemoveThread u).close u).thread u =
      { s.thread u with stat := .close } := setThread_self _ _ _
  have hexit : s.rtThreadExit u =
      ((s.rtScheduleRemoveThread u).close u).insertDefunct u := by
    unfold Threads.rtThreadExit
    dsimp only
    rw [if_neg]
    intro hsystem
    rw [hclosed, ThreadObject.rtObjectIsSystemobject, hnull] at hsystem
    cases hsystem.1
  rw [hexit]
  exact not_reclaimed_idleExcute rfl ((congrArg ThreadObject.type hclosed).trans hnull) hstatic

end Threads

open Threads

/-- In every run in which no thread with a cleanup hook is detached, and none returns after it was
detached, the reclamation is right. A step behind such a run meets this exactly if it is still right
behind the next call of `rt_thread_idle_excute`. -/
theorem threads_reclaimed {s : Threads} (h : threadMachine.Reach InOrder s) :
    s.Reclaimed ∧ ∀ call t, threadStep s call = some t →
      (s.InOrder call ↔ ({ t with current := none } : Threads).rtThreadIdleExcute.Reclaimed) := by
  have hkept := kept_of_reach h
  refine ⟨hkept.reclaimed, fun call t hstep => ⟨fun hok => ?_, fun hreclaimed => ?_⟩⟩
  · have hidle : threadMachine.Reach InOrder { t with current := none } :=
      (h.step hok hstep).step (a := .switch none) trivial rfl
    exact (kept_of_reach (reach_idleExcute hidle rfl)).reclaimed
  · cases call with
    | detach u =>
      obtain ⟨⟨-, hstatic⟩, hsome⟩ := Option.ite_none_right_eq_some.mp hstep
      cases hsome
      cases hhook : (s.thread u).cleanup with
      | false => exact hhook
      | true =>
        rw [rtThreadDetach_eq hkept, hhook] at hreclaimed
        refine absurd hreclaimed (not_reclaimed_idleExcute rfl ?_ hstatic)
        exact congrArg ThreadObject.type (setThread_self s u _)
    | exit =>
      obtain ⟨u, hcurrent, rfl⟩ := Option.map_eq_some_iff.mp hstep
      intro v hv hnull
      cases hcurrent.symm.trans hv
      exact hkept.not_reclaimed_exit hcurrent hnull hreclaimed
    | init => exact trivial
    | create _ _ => exact trivial
    | setCleanup _ => exact trivial
    | startup _ => exact trivial
    | switch _ => exact trivial
    | delete _ => exact trivial
    | take => exact trivial
    | release => exact trivial

/-- A static thread with a hook returns, and one of the heap is deleted. -/
theorem threads_reclaimed_two :
    ∃ s, threadMachine.Reach InOrder s ∧
      (s.freed = [.stack 1, .object 1] ∧ s.cleaned = [1, 0] ∧ s.defunct = []) ∧
      s.Reclaimed := by
  obtain ⟨s, hreach, hstate⟩ := Machine.exists_reach_of_run threadMachine InOrder
    [.init, .create true true, .setCleanup 0, .setCleanup 1, .startup 0, .startup 1,
      .switch (some 0), .exit, .delete 1, .take, .release, .take]
    (fun s => s.freed = [.stack 1, .object 1] ∧ s.cleaned = [1, 0] ∧ s.defunct = [])
    (by decide +kernel)
  exact ⟨s, hreach, hstate, (threads_reclaimed hreach).1⟩

/-- The idle thread frees a static thread with a hook that was detached. -/
theorem threads_static_freed : ¬∀ s, threadMachine.Reach Machine.any s → s.Reclaimed := by
  intro hall
  obtain ⟨s, hreach, hfreed, hallocated⟩ :=
    Machine.exists_reach_of_run threadMachine Machine.any
      [.init, .setCleanup 0, .startup 0, .detach 0, .take, .release]
      (fun s => s.freed = [.stack 0, .object 0] ∧ s.allocated = []) (by decide +kernel)
  have hin := ((hall s hreach).freed (.stack 0)).mp (by rw [hfreed]; exact List.mem_cons_self)
  rw [hallocated] at hin
  cases hin.1

end RtVcom.Kernel

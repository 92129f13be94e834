import RtVcom.Ulog.Slots

/-!
# Steps on a block

`Kept` through the steps that work on a block: an allocation, a store of its call, the put, and a
drainer that gets the block, hands its log on and frees it. A store stays in its block, and blocks
do not overlap, so that the frames in the others stay (`Kept.store`); what a drainer reads is the
frame that the call of the block has written (`Kept.output_eq`).
-/

namespace RtVcom.Ulog

open RtVcom.Lib RtVcom.Kernel RtVcom.Driver

namespace System

variable {s t : System} {blk p : Nat} {log : Log} {c d : Drainer}

/-! ## Calls and drainers -/

theorem setCall_self (call : Call) : (s.setCall p call).calls p = call := Function.update_self ..

theorem setCall_other {q : Nat} (call : Call) (hq : q ≠ p) :
    (s.setCall p call).calls q = s.calls q := Function.update_of_ne hq ..

theorem setDrain_self (drain : Drain) : (s.setDrain c drain).drains c = drain :=
  Function.update_self ..

theorem setDrain_other (drain : Drain) (hd : d ≠ c) :
    (s.setDrain c drain).drains d = s.drains d := Function.update_of_ne hd ..

/-- A call that settles. -/
theorem setCall_stays {call : Call} (hcall : (s.calls p).Settles call) (q : Nat) :
    (s.calls q).Stays ((s.setCall p call).calls q) := by
  by_cases hq : q = p
  · subst hq
    rw [setCall_self]
    exact .inr hcall
  · exact .inl (setCall_other call hq)

/-- A drainer that has no block and gets none. -/
theorem setDrain_free {drain : Drain} (hs : (s.drains c).Free) (ht : drain.Free) (d : Drainer) :
    (s.setDrain c drain).drains d = s.drains d ∨
      (s.drains d).Free ∧ ((s.setDrain c drain).drains d).Free := by
  by_cases hd : d = c
  · subst hd
    rw [setDrain_self]
    exact .inr ⟨hs, ht⟩
  · exact .inl (setDrain_other drain hd)

/-- Nothing is handed on for a call whose frame is not written. -/
theorem Kept.times_eq_zero (h : s.Kept) (hcall : ∀ log, ¬(s.calls p).Wrote log) :
    s.times p = 0 := by
  refine List.countP_eq_zero.mpr ?_
  intro e he hep
  have hp : e.1 = p := of_decide_eq_true hep
  exact hcall e.2 (hp ▸ h.own e he)

theorem not_wrote_idle (hcall : s.calls p = .idle) (log : Log) : ¬(s.calls p).Wrote log := by
  rw [hcall]
  exact id

theorem not_wrote_filling {rest : List Cell} (hcall : s.calls p = .filling log blk rest)
    (log' : Log) : ¬(s.calls p).Wrote log' := by
  rw [hcall]
  exact id

/-- What was handed on stays the log of its call, while another call changes. -/
theorem Kept.own_setCall (h : s.Kept) (hcall : ∀ log, ¬(s.calls p).Wrote log) (call : Call) :
    ∀ e ∈ s.handed, ((s.setCall p call).calls e.1).Wrote e.2 := by
  intro e he
  have hwrote := h.own e he
  by_cases hep : e.1 = p
  · rw [hep] at hwrote
    exact absurd hwrote (hcall e.2)
  · rwa [setCall_other call hep]

/-- A call that is not made owns no block. -/
theorem Kept.fresh (h : s.Kept) (hcall : s.calls p = .idle) :
    ∀ b ∈ s.asyncRbb.blkList, s.owner b ≠ p := by
  intro b hb howner
  have hzero := h.times_eq_zero (not_wrote_idle hcall)
  cases h.slots b hb with
  | filling _ hfilling =>
    rw [howner, hcall] at hfilling
    cases hfilling
  | put _ hwrote =>
    rw [howner, hcall] at hwrote
    cases hwrote
  | got _ _ hwrote =>
    rw [howner, hcall] at hwrote
    cases hwrote
  | freeing _ _ hone =>
    rw [howner, hzero] at hone
    cases hone

/-- A thread owns one block at a time. -/
theorem Kept.others (h : s.Kept) (hblk : blk ∈ s.asyncRbb.blkList) (howner : s.owner blk = p) :
    ∀ b ∈ s.asyncRbb.blkList, b ≠ blk → s.owner b ≠ p := by
  intro b hb hne hp
  exact hne (h.distinct b hb blk hblk (hp.trans howner.symm))

/-- A block that is not got is in nobody's hands. -/
theorem Kept.free_of_status (h : s.Kept) {status : RbbStatus}
    (hstatus : (s.asyncRbb.blkSet blk).status = status) (hne : status ≠ .get) (c : Drainer) :
    ¬(s.drains c).Has blk := by
  intro hc
  exact hne (hstatus.symm.trans (h.drains c blk hc).2)

/-- A block in another state than got is in nobody's hands. -/
theorem unhanded_of_status {status : RbbStatus} (hmember : blk ∈ s.asyncRbb.blkList)
    (hstatus : (s.asyncRbb.blkSet blk).status = status) (hne : status ≠ .get) :
    s.Unhanded blk :=
  ⟨hmember, .inl fun hget => hne (hstatus.symm.trans hget)⟩

/-! ## The calls -/

/-- The system with a new block. -/
def allocated (s : System) (p : Nat) (log : Log) (new buf : Nat) : System :=
  { s with
    asyncRbb := s.asyncRbb.append new buf log.blkSize
    owner := Function.update s.owner new p }.setCall p (.filling log new (frameCells log buf))

/-- The outcome of an allocation. -/
theorem Kept.alloc_cases (h : s.Kept) (p : Nat) (hlen : log.log.length ≤ lineBufSize) :
    s.alloc p log = s.setCall p .refused ∨
      ∃ new buf, s.alloc p log = s.allocated p log new buf ∧ new ∉ s.asyncRbb.blkList ∧
        (s.asyncRbb.append new buf log.blkSize).Sound := by
  obtain ⟨hframe, hle⟩ := blkSize_le hlen
  have hpos : 0 < log.blkSize := Nat.lt_of_lt_of_le (by unfold ulogFrameSize; omega) hframe
  have hsize : log.blkSize ≤ s.asyncRbb.bufSize := by
    rw [h.bufSize]
    exact Nat.le_trans hle (by decide)
  unfold System.alloc allocated
  rcases h.ring.alloc_cases hpos hsize with heq | ⟨new, buf, heq, hnotin, hsound⟩
  · rw [heq]
    exact .inl rfl
  · right
    refine ⟨new, buf, ?_, hnotin, hsound⟩
    rw [heq]
    dsimp only
    rw [Rbb.append_blkSet_self]

/-- A new block in the list keeps the invariant. -/
theorem Kept.allocated (h : s.Kept) (hcall : s.calls p = .idle) {new buf : Nat}
    (hlen : log.log.length ≤ lineBufSize) (hnotin : new ∉ s.asyncRbb.blkList)
    (hsound : (s.asyncRbb.append new buf log.blkSize).Sound) :
    (s.allocated p log new buf).Kept := by
  have hzero := h.times_eq_zero (not_wrote_idle hcall)
  have hself : (s.allocated p log new buf).asyncRbb.blkSet new = ⟨.inited, log.blkSize, buf⟩ :=
    Rbb.append_blkSet_self
  have hinited : ((s.allocated p log new buf).asyncRbb.blkSet new).status = .inited :=
    congrArg RbbBlk.status hself
  have hnone (c : Drainer) : ¬(s.drains c).Has new := by
    intro hc
    exact hnotin (h.drains c new hc).1
  have hlisted : new ∈ s.asyncRbb.blkList ++ [new] :=
    List.mem_append_right _ (List.mem_singleton_self new)
  have howner : (s.allocated p log new buf).owner new = p := Function.update_self ..
  have hmine : (s.allocated p log new buf).calls p = .filling log new (frameCells log buf) :=
    setCall_self _
  apply h.local
  case hring => exact hsound
  case hbufSize => rfl
  case hown => exact h.own_setCall (not_wrote_idle hcall) _
  case hlocal =>
    constructor
    case blkSet =>
      intro b hb
      exact Rbb.append_blkSet_other hb
    case member =>
      intro b hb
      change b ∈ s.asyncRbb.blkList ++ [new] ↔ _
      rw [List.mem_append, List.mem_singleton]
      exact or_iff_left hb
    case owner =>
      intro b hb
      exact Function.update_of_ne hb ..
    case drains =>
      intro c b _ _
      rfl
    case calls =>
      intro q hq
      exact setCall_other _ hq
    case times =>
      intro q _
      rfl
    case mem =>
      intro b _ _ c _ hc
      exact hc
    case mine =>
      intro hmember
      exact absurd hmember hnotin
    case others =>
      intro b hb _
      exact h.fresh hcall b hb
  case hleaves =>
    constructor
    case slot =>
      intro _
      refine ⟨?_, howner⟩
      refine @Slot.filling _ new log [] (frameCells log buf) hinited ?_ ?_ ?_ hlen ?_ ?_
      · rw [howner, hmine]
      · rw [hself]
        rfl
      · intro c hc
        cases hc
      · rw [hself]
      · rw [howner]
        exact hzero
    case filling =>
      intro log' b rest hfilling
      rw [hmine] at hfilling
      cases hfilling
      exact ⟨rfl, hlisted, hinited⟩
    case drains =>
      intro c hc
      exact absurd hc (hnone c)
    case alone =>
      intro c d hc
      exact absurd hc (hnone c)
    case once =>
      right
      exact ⟨hzero, unhanded_of_status hlisted hinited (by decide)⟩

/-- `rt_rbb_blk_alloc` keeps the invariant, whether it finds room or not. -/
theorem Kept.alloc (h : s.Kept) (hcall : s.calls p = .idle)
    (hlen : log.log.length ≤ lineBufSize) : (s.alloc p log).Kept := by
  rcases h.alloc_cases p hlen with heq | ⟨new, buf, heq, hnotin, hsound⟩
  · rw [heq]
    refine h.quiet rfl rfl rfl rfl ?_ fun _ => .inl rfl
    exact setCall_stays (hcall ▸ .refuse)
  · rw [heq]
    exact h.allocated hcall hlen hnotin hsound

/-- The block of a call that is writing. -/
theorem Kept.filling_slot {rest : List Cell} (h : s.Kept)
    (hcall : s.calls p = .filling log blk rest) :
    ∃ written, frameCells log (s.asyncRbb.blkSet blk).buf = written ++ rest ∧
      (∀ c ∈ written, s.mem.Holds c) ∧ log.log.length ≤ lineBufSize ∧
      (s.asyncRbb.blkSet blk).size = log.blkSize ∧ s.times p = 0 := by
  obtain ⟨hmember, howner, hstatus⟩ := h.filling p log blk rest hcall
  cases h.slots blk hmember with
  | @filling log' written rest' _ hcall' hcells hwritten hlen hsize hzero =>
    rw [howner] at hcall' hzero
    rw [hcall] at hcall'
    cases hcall'
    exact ⟨written, hcells, hwritten, hlen, hsize, hzero⟩
  | put hput => rw [hstatus] at hput; cases hput
  | got hget => rw [hstatus] at hget; cases hget
  | freeing hget => rw [hstatus] at hget; cases hget

/-- A step on a block of the ring that leaves the list and the owners. -/
theorem Kept.local_at (h : s.Kept) (hmember : blk ∈ s.asyncRbb.blkList) (hmine : s.owner blk = p)
    (hlist : t.asyncRbb.blkList = s.asyncRbb.blkList) (howner : t.owner = s.owner)
    (hset : ∀ b, b ≠ blk → t.asyncRbb.blkSet b = s.asyncRbb.blkSet b)
    (hdrains : ∀ c b, b ≠ blk → (s.drains c).Has b ∨ (t.drains c).Has b → t.drains c = s.drains c)
    (hcalls : ∀ q, q ≠ p → t.calls q = s.calls q) (htimes : ∀ q, q ≠ p → t.times q = s.times q)
    (hmem : ∀ b ∈ s.asyncRbb.blkList, b ≠ blk → ∀ c : Cell,
      c.Inside (s.asyncRbb.blkSet b).buf (s.asyncRbb.blkSet b).size → s.mem.Holds c →
        t.mem.Holds c) : Local s t blk p where
  blkSet := hset
  member b _ := by rw [hlist]
  owner b _ := by rw [howner]
  drains := hdrains
  calls := hcalls
  times := htimes
  mem := hmem
  mine _ := hmine
  others := h.others hmember hmine

/-- A drainer that moves concerns its own block only. -/
theorem setDrain_local {drain : Drain} (hs : ∀ b, b ≠ blk → ¬(s.drains c).Has b)
    (ht : ∀ b, b ≠ blk → ¬drain.Has b) (d : Drainer) (b : Nat) (hb : b ≠ blk)
    (hhas : (s.drains d).Has b ∨ ((s.setDrain c drain).drains d).Has b) :
    (s.setDrain c drain).drains d = s.drains d := by
  by_cases hd : d = c
  · subst hd
    rw [setDrain_self] at hhas
    rcases hhas with hhas | hhas
    · exact absurd hhas (hs b hb)
    · exact absurd hhas (ht b hb)
  · exact setDrain_other drain hd

/-- A byte written into the caller's own block keeps the invariant. -/
theorem Kept.store {cell : Cell} {rest : List Cell} (h : s.Kept)
    (hcall : s.calls p = .filling log blk (cell :: rest)) :
    ({ s with mem := s.mem.put cell }.setCall p (.filling log blk rest)).Kept := by
  obtain ⟨hmember, howner, hstatus⟩ := h.filling p log blk _ hcall
  obtain ⟨written, hcells, hwritten, hlen, hsize, hzero⟩ := h.filling_slot hcall
  have hcell : cell ∈ frameCells log (s.asyncRbb.blkSet blk).buf := by
    rw [hcells]
    exact List.mem_append_right _ List.mem_cons_self
  obtain ⟨hbegin, hend⟩ := frameCells_inside hcell
  obtain ⟨hframe, -⟩ := blkSize_le hlen
  have hinside : cell.Inside (s.asyncRbb.blkSet blk).buf (s.asyncRbb.blkSet blk).size := by
    rw [hsize]
    exact ⟨hbegin, by omega⟩
  have hfits : cell.val < ByteMemory.limit cell.width := by
    have hblock := (h.ring.inside blk hmember).ends
    have hmemory := h.ring.memory
    refine frameCells_fits ?_ hcell
    rw [hsize] at hblock
    unfold ulogFrameSize at hframe
    omega
  have hpairwise := frameCells_pairwise log (s.asyncRbb.blkSet blk).buf
  rw [hcells] at hpairwise
  have hfree := h.free_of_status hstatus (by decide)
  have hwrites {c : Cell} (hc : c.Apart cell) (hold : s.mem.Holds c) : (s.mem.put cell).Holds c :=
    hold.put_apart hc
  apply @Kept.local s _ blk p h
  case hring => exact h.ring
  case hbufSize => rfl
  case hown => exact h.own_setCall (not_wrote_filling hcall) _
  case hlocal =>
    refine h.local_at hmember howner rfl rfl (fun _ _ => rfl) (fun _ _ _ _ => rfl)
      (fun q hq => setCall_other _ hq) (fun _ _ => rfl) ?_
    intro b hb hne c hc hold
    refine hwrites (hc.apart hinside ?_) hold
    exact h.ring.apart hb hmember hne
  case hleaves =>
    constructor
    case slot =>
      intro _
      refine ⟨?_, howner⟩
      refine @Slot.filling _ blk log (written ++ [cell]) rest hstatus ?_ ?_ ?_ hlen hsize ?_
      · change Function.update s.calls p _ (s.owner blk) = _
        rw [howner, Function.update_self]
      · rw [List.append_assoc, List.singleton_append]
        exact hcells
      · intro c hc
        rcases List.mem_append.mp hc with hc | hc
        · obtain ⟨-, -, hbetween⟩ := List.pairwise_append.mp hpairwise
          exact hwrites (hbetween c hc cell List.mem_cons_self) (hwritten c hc)
        · obtain rfl := List.mem_singleton.mp hc
          exact ByteMemory.holds_put hfits
      · change s.times (s.owner blk) = 0
        rw [howner, hzero]
    case filling =>
      intro log' b rest' hfilling
      rw [setCall_self] at hfilling
      cases hfilling
      exact ⟨rfl, hmember, hstatus⟩
    case drains =>
      intro c hc
      exact absurd hc (hfree c)
    case alone =>
      intro c d hc
      exact absurd hc (hfree c)
    case once =>
      right
      exact ⟨hzero, unhanded_of_status hmember hstatus (by decide)⟩

theorem Kept.put (h : s.Kept) (hcall : s.calls p = .filling log blk []) :
    ({ s with asyncRbb := rtRbbBlkPut s.asyncRbb blk }.setCall p (.releasing log blk)).Kept := by
  obtain ⟨hmember, howner, hstatus⟩ := h.filling p log blk _ hcall
  obtain ⟨written, hcells, hwritten, hlen, hsize, hzero⟩ := h.filling_slot hcall
  rw [List.append_nil] at hcells
  have hfree := h.free_of_status hstatus (by decide)
  have hself : (rtRbbBlkPut s.asyncRbb blk).blkSet blk =
      { s.asyncRbb.blkSet blk with status := .put } := by
    rw [rtRbbBlkPut, Rbb.setStatus_blkSet, if_pos rfl]
  have hput : ((rtRbbBlkPut s.asyncRbb blk).blkSet blk).status = .put :=
    congrArg RbbBlk.status hself
  apply @Kept.local s _ blk p h
  case hring => exact h.ring.setStatus hmember (by decide)
  case hbufSize => rfl
  case hown => exact h.own_setCall (not_wrote_filling hcall) _
  case hlocal =>
    refine h.local_at hmember howner rfl rfl ?_ (fun _ _ _ _ => rfl)
      (fun q hq => setCall_other _ hq) (fun _ _ => rfl) (fun _ _ _ _ _ hold => hold)
    intro b hb
    exact Function.update_of_ne hb ..
  case hleaves =>
    constructor
    case slot =>
      intro _
      refine ⟨?_, howner⟩
      refine @Slot.put _ blk log hput ?_ ⟨hlen, ?_, ?_⟩ ?_
      · change (Function.update s.calls p (Call.releasing log blk) (s.owner blk)).Wrote log
        rw [howner, Function.update_self]
        rfl
      · exact (congrArg RbbBlk.size hself).trans hsize
      · have hbuf := congrArg RbbBlk.buf hself
        intro c hc
        apply hwritten
        rw [← hcells]
        exact hbuf ▸ hc
      · change s.times (s.owner blk) = 0
        rw [howner, hzero]
    case filling =>
      intro log' b rest' hfilling
      rw [setCall_self] at hfilling
      cases hfilling
    case drains =>
      intro c hc
      exact absurd hc (hfree c)
    case alone =>
      intro c d hc
      exact absurd hc (hfree c)
    case once =>
      right
      exact ⟨hzero, unhanded_of_status hmember hput (by decide)⟩

/-! ## The drainers -/

/-- A drainer gets a block that is put. -/
theorem Kept.got (h : s.Kept) (hdrain : s.drains c = .scan) (hmember : blk ∈ s.asyncRbb.blkList)
    (hput : (s.asyncRbb.blkSet blk).status = .put) :
    ({ s with asyncRbb := s.asyncRbb.setStatus blk .get }.setDrain c (.got blk)).Kept := by
  have hfree := h.free_of_status hput (by decide)
  have hself : (s.asyncRbb.setStatus blk .get).blkSet blk =
      { s.asyncRbb.blkSet blk with status := .get } := by
    rw [Rbb.setStatus_blkSet, if_pos rfl]
  have hnone (b : Nat) : ¬(s.drains c).Has b := by
    rw [hdrain]
    intro hb
    cases hb
  -- what is known of the block that waited
  obtain ⟨log, hwrote, hstored, hzero⟩ : ∃ log, (s.calls (s.owner blk)).Wrote log ∧
      s.Stored blk log ∧ s.times (s.owner blk) = 0 := by
    cases h.slots blk hmember with
    | put _ hwrote hstored hzero => exact ⟨_, hwrote, hstored, hzero⟩
    | filling hstatus => rw [hput] at hstatus; cases hstatus
    | got hstatus => rw [hput] at hstatus; cases hstatus
    | freeing hstatus => rw [hput] at hstatus; cases hstatus
  have hmine (d : Drainer)
      (hd : (Function.update s.drains c (Drain.got blk) d).Has blk) : d = c := by
    by_cases hdc : d = c
    · exact hdc
    · rw [Function.update_of_ne hdc] at hd
      exact absurd hd (hfree d)
  apply @Kept.local s _ blk (s.owner blk) h
  case hring => exact h.ring.setStatus hmember (by decide)
  case hbufSize => rfl
  case hown => exact h.own
  case hlocal =>
    refine h.local_at hmember rfl rfl rfl ?_ ?_ (fun _ _ => rfl) (fun _ _ => rfl)
      (fun _ _ _ _ _ hold => hold)
    · intro b hb
      exact Function.update_of_ne hb ..
    · intro d b hb hhas
      refine @setDrain_local { s with asyncRbb := s.asyncRbb.setStatus blk .get } blk c (.got blk)
        ?_ ?_ d b hb hhas
      · intro b _
        exact hnone b
      · intro b hb hgot
        exact hb hgot.symm
  case hleaves =>
    constructor
    case slot =>
      intro _
      refine ⟨@Slot.got _ blk log c ?_ (setDrain_self _) hwrote ⟨hstored.len, ?_, ?_⟩ hzero, rfl⟩
      · exact congrArg RbbBlk.status hself
      · exact (congrArg RbbBlk.size hself).trans hstored.size
      · have hbuf := congrArg RbbBlk.buf hself
        intro e he
        exact hstored.cells e (hbuf ▸ he)
    case filling =>
      intro log' b rest hfilling
      change s.calls (s.owner blk) = _ at hfilling
      rw [hfilling] at hwrote
      cases hwrote
    case drains =>
      intro d _
      exact ⟨hmember, congrArg RbbBlk.status hself⟩
    case alone =>
      intro d e hd he
      rw [hmine d hd, hmine e he]
    case once =>
      right
      exact ⟨hzero, hmember, .inr ⟨c, setDrain_self _⟩⟩

/-- What is known of a block that a drainer has got. -/
theorem Kept.got_slot (h : s.Kept) (hdrain : s.drains c = .got blk) :
    ∃ log, (s.calls (s.owner blk)).Wrote log ∧ s.Stored blk log ∧ s.times (s.owner blk) = 0 := by
  have hhas : (s.drains c).Has blk := Drain.has_iff.mpr (.inl hdrain)
  obtain ⟨hmember, hget⟩ := h.drains c blk hhas
  cases h.slots blk hmember with
  | got _ _ hwrote hstored hzero => exact ⟨_, hwrote, hstored, hzero⟩
  | filling hstatus => rw [hget] at hstatus; cases hstatus
  | put hstatus => rw [hget] at hstatus; cases hstatus
  | @freeing d _ hd =>
    obtain rfl := h.alone c d blk hhas (Drain.has_iff.mpr (.inr hd))
    rw [hdrain] at hd
    cases hd

/-- What is handed on is the log of the call that has the block. -/
theorem Kept.output_eq (h : s.Kept) (hdrain : s.drains c = .got blk) :
    ∃ log, (s.calls (s.owner blk)).Wrote log ∧
      s.output c blk =
        { s with handed := s.handed ++ [(s.owner blk, log)] }.setDrain c (.freeing blk) := by
  obtain ⟨log, hwrote, hstored, -⟩ := h.got_slot hdrain
  obtain ⟨hmagic, hframe⟩ := readFrame_eq hstored.len hstored.cells
  refine ⟨log, hwrote, ?_⟩
  unfold System.output
  dsimp only
  rw [if_pos hmagic, hframe]

theorem Kept.output (h : s.Kept) (hdrain : s.drains c = .got blk) : (s.output c blk).Kept := by
  have hhas : (s.drains c).Has blk := Drain.has_iff.mpr (.inl hdrain)
  obtain ⟨hmember, hget⟩ := h.drains c blk hhas
  obtain ⟨-, -, -, hzero⟩ := h.got_slot hdrain
  obtain ⟨log, hwrote, heq⟩ := h.output_eq hdrain
  have hother (b : Nat) (hb : b ≠ blk) : ¬(s.drains c).Has b := by
    rw [hdrain]
    intro hgot
    exact hb hgot.symm
  have hmine (d : Drainer)
      (hd : (Function.update s.drains c (Drain.freeing blk) d).Has blk) : d = c := by
    by_cases hdc : d = c
    · exact hdc
    · rw [Function.update_of_ne hdc] at hd
      exact h.alone d c blk hd hhas
  have htimes (q : Nat) : (s.handed ++ [(s.owner blk, log)]).countP (fun e => e.1 = q) =
      s.times q + if s.owner blk = q then 1 else 0 := by
    rw [List.countP_append, List.countP_singleton, times]
    simp only [decide_eq_true_eq]
  have hone : (s.handed ++ [(s.owner blk, log)]).countP (fun e => e.1 = s.owner blk) = 1 := by
    rw [htimes, hzero, if_pos rfl]
  rw [heq]
  apply @Kept.local s _ blk (s.owner blk) h
  case hring => exact h.ring
  case hbufSize => rfl
  case hown =>
    intro e he
    rcases List.mem_append.mp he with he | he
    · exact h.own e he
    · obtain rfl := List.mem_singleton.mp he
      exact hwrote
  case hlocal =>
    refine h.local_at hmember rfl rfl rfl (fun _ _ => rfl) ?_ (fun _ _ => rfl) ?_
      (fun _ _ _ _ _ hold => hold)
    · intro d b hb hdb
      refine @setDrain_local s blk c (.freeing blk) hother ?_ d b hb hdb
      intro b hb hfreeing
      exact hb hfreeing.symm
    · intro q hq
      refine (htimes q).trans ?_
      rw [if_neg (Ne.symm hq), Nat.add_zero]
  case hleaves =>
    constructor
    case slot =>
      intro _
      exact ⟨@Slot.freeing _ blk c hget (setDrain_self _) hone, rfl⟩
    case filling =>
      intro log' b rest hfilling
      change s.calls (s.owner blk) = _ at hfilling
      rw [hfilling] at hwrote
      cases hwrote
    case drains =>
      intro d _
      exact ⟨hmember, hget⟩
    case alone =>
      intro d e hd he
      rw [hmine d hd, hmine e he]
    case once => exact .inl hone

theorem Kept.free (h : s.Kept) (hdrain : s.drains c = .freeing blk) :
    ({ s with asyncRbb := rtRbbBlkFree s.asyncRbb blk }.setDrain c .look).Kept := by
  have hhas : (s.drains c).Has blk := Drain.has_iff.mpr (.inr hdrain)
  obtain ⟨hmember, hget⟩ := h.drains c blk hhas
  have hone : s.times (s.owner blk) = 1 := by
    cases h.slots blk hmember with
    | freeing _ _ hone => exact hone
    | filling hstatus => rw [hget] at hstatus; cases hstatus
    | put hstatus => rw [hget] at hstatus; cases hstatus
    | @got _ d _ hd =>
      obtain rfl := h.alone c d blk hhas (Drain.has_iff.mpr (.inl hd))
      rw [hdrain] at hd
      cases hd
  have hnotin : blk ∉ s.asyncRbb.blkList.erase blk := by
    rw [h.ring.nodup.mem_erase_iff]
    exact fun hne => hne.1 rfl
  have hnone (d : Drainer) : ¬(Function.update s.drains c Drain.look d).Has blk := by
    intro hd
    by_cases hdc : d = c
    · subst hdc
      rw [Function.update_self] at hd
      cases hd
    · rw [Function.update_of_ne hdc] at hd
      exact hdc (h.alone d c blk hd hhas)
  apply @Kept.local s _ blk (s.owner blk) h
  case hring => exact h.ring.free blk
  case hbufSize => rfl
  case hown => exact h.own
  case hlocal =>
    constructor
    case blkSet =>
      intro b hb
      exact Function.update_of_ne hb ..
    case member =>
      intro b hb
      exact List.mem_erase_of_ne hb
    case owner => intro b _; rfl
    case drains =>
      intro d b hb hdb
      refine @setDrain_local s blk c .look ?_ ?_ d b hb hdb
      · intro b hb hfreeing
        rw [hdrain] at hfreeing
        exact hb hfreeing.symm
      · intro b _ hlook
        cases hlook
    case calls => intro q _; rfl
    case times => intro q _; rfl
    case mem => intro b _ _ e _ hold; exact hold
    case mine => intro _; rfl
    case others => exact h.others hmember rfl
  case hleaves =>
    constructor
    case slot =>
      intro hblk
      exact absurd hblk hnotin
    case filling =>
      intro log b rest hfilling
      obtain ⟨hb, howner, hstatus⟩ := h.filling _ log b rest hfilling
      rw [h.distinct b hb blk hmember howner, hget] at hstatus
      cases hstatus
    case drains =>
      intro d hd
      exact absurd hd (hnone d)
    case alone =>
      intro d e hd
      exact absurd hd (hnone d)
    case once => exact .inl hone

theorem Kept.finish (h : s.Kept) (hfree : (s.drains c).Free) : (s.finish c).Kept := by
  cases c with
  | async =>
    refine h.quiet rfl rfl rfl rfl (fun _ => .inl rfl) ?_
    exact @setDrain_free { s with async := .reset } .async .idle hfree Drain.free_idle
  | flush n =>
    exact h.quiet rfl rfl rfl rfl (fun _ => .inl rfl) (setDrain_free hfree Drain.free_idle)

end System

end RtVcom.Ulog

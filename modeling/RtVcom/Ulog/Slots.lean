import RtVcom.Ulog.Async

/-!
# What the blocks are in use for

Every block of the asynchronous ring is in use for one call or one drainer (`Slot`): a call writes
its frame, or the frame is there and waits, or it is in the hands of one drainer, before or after it
was handed on. `Kept` says so of a whole state, and that every log with a block is handed on once or
is in one block.

Most steps move no block (`Kept.quiet`); of the others each is on one block, and what is to be shown
of it is what it leaves there (`Kept.local`).
-/

namespace RtVcom.Ulog

open RtVcom.Lib RtVcom.Kernel RtVcom.Driver

/-! ## What a block is in use for -/

/-- The frame is written, and the block put. -/
def Call.Wrote (log : Log) : Call → Prop
  | .releasing l _ => l = log
  | .done l => l = log
  | _ => False

/-- What was written is the log of the call. -/
theorem Call.Wrote.log_eq {log : Log} {call : Call} (h : call.Wrote log) :
    call.log? = some log := by
  cases call with
  | releasing l b => exact congrArg some h
  | done l => exact congrArg some h
  | _ => cases h

/-- A call that has no block is refused one, or a call that has put its block returns. -/
inductive Call.Settles : Call → Call → Prop
  | refuse : Settles .idle .refused
  | release {log : Log} {blk : Nat} : Settles (.releasing log blk) (.done log)

/-- The call is as it was, or it settles. -/
def Call.Stays (a b : Call) : Prop := b = a ∨ a.Settles b

section

variable {a b : Call} {log : Log} {blk : Nat} {rest : List Cell}

/-- A call that stays has the same log. -/
theorem Call.Stays.log_eq (h : a.Stays b) : b.log? = a.log? := by
  rcases h with rfl | h
  · rfl
  · cases h <;> rfl

theorem Call.Stays.wrote (h : a.Stays b) (ha : a.Wrote log) : b.Wrote log := by
  rcases h with rfl | h
  · exact ha
  · cases h with
    | refuse => cases ha
    | release => exact ha

theorem Call.Stays.filling (h : a.Stays b) :
    b = .filling log blk rest ↔ a = .filling log blk rest := by
  rcases h with rfl | h
  · rfl
  · cases h <;> simp

end

/-- The block is in the hands of the drainer. -/
def Drain.Has (blk : Nat) : Drain → Prop
  | .got b => b = blk
  | .freeing b => b = blk
  | _ => False

/-- The drainer has no block. -/
def Drain.Free (a : Drain) : Prop := ∀ blk, ¬a.Has blk

theorem Drain.free_idle : Drain.idle.Free := by
  intro blk hb
  cases hb

theorem Drain.free_look : Drain.look.Free := by
  intro blk hb
  cases hb

theorem Drain.free_scan : Drain.scan.Free := by
  intro blk hb
  cases hb

/-- A drainer has the block that it got or is freeing. -/
theorem Drain.has_iff {a : Drain} {blk : Nat} : a.Has blk ↔ a = .got blk ∨ a = .freeing blk := by
  cases a <;> simp [Drain.Has]

namespace System

/-- The whole frame of a log is in the block. -/
structure Stored (s : System) (blk : Nat) (log : Log) : Prop where
  len : log.log.length ≤ lineBufSize
  size : (s.asyncRbb.blkSet blk).size = log.blkSize
  cells : ∀ c ∈ frameCells log (s.asyncRbb.blkSet blk).buf, s.mem.Holds c

/-- What a block of the ring is in use for. -/
inductive Slot (s : System) (blk : Nat) : Prop
  | filling {log : Log} {written rest : List Cell} :
      (s.asyncRbb.blkSet blk).status = .inited → s.calls (s.owner blk) = .filling log blk rest →
      frameCells log (s.asyncRbb.blkSet blk).buf = written ++ rest →
      (∀ c ∈ written, s.mem.Holds c) → log.log.length ≤ lineBufSize →
      (s.asyncRbb.blkSet blk).size = log.blkSize → s.times (s.owner blk) = 0 → Slot s blk
  | put {log : Log} : (s.asyncRbb.blkSet blk).status = .put → (s.calls (s.owner blk)).Wrote log →
      s.Stored blk log → s.times (s.owner blk) = 0 → Slot s blk
  | got {log : Log} {c : Drainer} : (s.asyncRbb.blkSet blk).status = .get →
      s.drains c = .got blk → (s.calls (s.owner blk)).Wrote log → s.Stored blk log →
      s.times (s.owner blk) = 0 → Slot s blk
  | freeing {c : Drainer} : (s.asyncRbb.blkSet blk).status = .get → s.drains c = .freeing blk →
      s.times (s.owner blk) = 1 → Slot s blk

/-- Every block of the ring is in use for one call or one drainer, and every log with a block is
handed on, once, or in one block. -/
structure Kept (s : System) : Prop where
  ring : s.asyncRbb.Sound
  bufSize : s.asyncRbb.bufSize = asyncOutputBufSize
  slots : ∀ blk ∈ s.asyncRbb.blkList, s.Slot blk
  filling : ∀ p log blk rest, s.calls p = .filling log blk rest →
    blk ∈ s.asyncRbb.blkList ∧ s.owner blk = p ∧ (s.asyncRbb.blkSet blk).status = .inited
  drains : ∀ c blk, (s.drains c).Has blk →
    blk ∈ s.asyncRbb.blkList ∧ (s.asyncRbb.blkSet blk).status = .get
  alone : ∀ c d blk, (s.drains c).Has blk → (s.drains d).Has blk → c = d
  own : ∀ h ∈ s.handed, (s.calls h.1).Wrote h.2
  once : ∀ p log, (s.calls p).log? = some log →
    s.times p = 1 ∨ s.times p = 0 ∧ ∃ blk, s.owner blk = p ∧ s.Unhanded blk
  distinct : ∀ a ∈ s.asyncRbb.blkList, ∀ b ∈ s.asyncRbb.blkList, s.owner a = s.owner b → a = b

variable {s t : System} {blk p : Nat} {log : Log} {c d : Drainer}

/-! ## What stays in a step -/

/-- A frame stays where its memory does. -/
theorem Stored.frame (h : s.Stored blk log)
    (hblk : t.asyncRbb.blkSet blk = s.asyncRbb.blkSet blk)
    (hmem : ∀ c : Cell, c.Inside (s.asyncRbb.blkSet blk).buf (s.asyncRbb.blkSet blk).size →
      s.mem.Holds c → t.mem.Holds c) : t.Stored blk log where
  len := h.len
  size := by rw [hblk, h.size]
  cells := by
    intro c hc
    rw [hblk] at hc
    obtain ⟨hle, hend⟩ := frameCells_inside hc
    apply hmem c _ (h.cells c hc)
    rw [h.size]
    exact ⟨hle, Nat.le_trans hend (Nat.add_le_add_left (blkSize_le h.len).1 _)⟩

/-- A block stays in use where its call, its drainer and its memory do. -/
theorem Slot.frame (h : s.Slot blk)
    (hblk : t.asyncRbb.blkSet blk = s.asyncRbb.blkSet blk) (howner : t.owner blk = s.owner blk)
    (hcalls : (s.calls (s.owner blk)).Stays (t.calls (s.owner blk)))
    (hdrains : ∀ c, (s.drains c).Has blk → t.drains c = s.drains c)
    (hmem : ∀ c : Cell, c.Inside (s.asyncRbb.blkSet blk).buf (s.asyncRbb.blkSet blk).size →
      s.mem.Holds c → t.mem.Holds c)
    (htimes : t.times (s.owner blk) = s.times (s.owner blk)) : t.Slot blk := by
  cases h with
  | @filling log written rest hstatus hcall hcells hwritten hlen hsize hzero =>
    refine @Slot.filling t blk log written rest ?_ ?_ ?_ ?_ hlen ?_ ?_
    · rw [hblk, hstatus]
    · rw [howner]
      exact hcalls.filling.mpr hcall
    · rw [hblk, hcells]
    · intro c hc
      have hmember : c ∈ frameCells log (s.asyncRbb.blkSet blk).buf := by
        rw [hcells]
        exact List.mem_append_left rest hc
      obtain ⟨hle, hend⟩ := frameCells_inside hmember
      apply hmem c _ (hwritten c hc)
      rw [hsize]
      exact ⟨hle, Nat.le_trans hend (Nat.add_le_add_left (blkSize_le hlen).1 _)⟩
    · rw [hblk, hsize]
    · rw [howner, htimes, hzero]
  | put hstatus hcall hstored hzero =>
    refine .put ?_ ?_ (hstored.frame hblk hmem) ?_
    · rw [hblk, hstatus]
    · rw [howner]
      exact hcalls.wrote hcall
    · rw [howner, htimes, hzero]
  | @got log c hstatus hdrain hcall hstored hzero =>
    refine .got (c := c) ?_ ?_ ?_ (hstored.frame hblk hmem) ?_
    · rw [hblk, hstatus]
    · rw [hdrains c (Drain.has_iff.mpr (.inl hdrain)), hdrain]
    · rw [howner]
      exact hcalls.wrote hcall
    · rw [howner, htimes, hzero]
  | @freeing c hstatus hdrain hone =>
    refine .freeing (c := c) ?_ ?_ ?_
    · rw [hblk, hstatus]
    · rw [hdrains c (Drain.has_iff.mpr (.inr hdrain)), hdrain]
    · rw [howner, htimes, hone]

/-- Whether a block is in nobody's hands depends on the block and its drainers only. -/
theorem unhanded_congr (hblk : t.asyncRbb.blkSet blk = s.asyncRbb.blkSet blk)
    (hmember : blk ∈ t.asyncRbb.blkList ↔ blk ∈ s.asyncRbb.blkList)
    (hdrains : ∀ c, (s.drains c).Has blk ∨ (t.drains c).Has blk → t.drains c = s.drains c) :
    t.Unhanded blk ↔ s.Unhanded blk := by
  have hgot (c : Drainer) : t.drains c = .got blk ↔ s.drains c = .got blk := by
    constructor
    · intro hc
      rw [← hdrains c (.inr (Drain.has_iff.mpr (.inl hc))), hc]
    · intro hc
      rw [hdrains c (.inl (Drain.has_iff.mpr (.inl hc))), hc]
  unfold Unhanded
  rw [hmember, hblk]
  simp only [hgot]

/-- A step that moves no block: some calls settle, and some drainers without a block go on. -/
theorem Kept.quiet (h : s.Kept) (hrbb : t.asyncRbb = s.asyncRbb) (hmem : t.mem = s.mem)
    (howner : t.owner = s.owner) (hhanded : t.handed = s.handed)
    (hcalls : ∀ p, (s.calls p).Stays (t.calls p))
    (hdrains : ∀ c, t.drains c = s.drains c ∨ (s.drains c).Free ∧ (t.drains c).Free) :
    t.Kept := by
  have hkept (c : Drainer) (blk : Nat) (hhas : (s.drains c).Has blk ∨ (t.drains c).Has blk) :
      t.drains c = s.drains c := by
    rcases hdrains c with heq | ⟨hs, ht⟩
    · exact heq
    · rcases hhas with hhas | hhas
      · exact absurd hhas (hs blk)
      · exact absurd hhas (ht blk)
  have hunhanded (blk : Nat) : t.Unhanded blk ↔ s.Unhanded blk :=
    unhanded_congr (by rw [hrbb]) (by rw [hrbb]) fun c => hkept c blk
  have htimes (p : Nat) : t.times p = s.times p := by rw [times, times, hhanded]
  constructor
  case ring => rw [hrbb]; exact h.ring
  case bufSize => rw [hrbb]; exact h.bufSize
  case slots =>
    intro blk hblk
    rw [hrbb] at hblk
    refine (h.slots blk hblk).frame (by rw [hrbb]) (by rw [howner]) (hcalls _) ?_ ?_ (htimes _)
    · intro c hc
      exact hkept c blk (.inl hc)
    · intro c _ hc
      rwa [hmem]
  case filling =>
    intro p log blk rest hcall
    rw [hrbb, howner]
    exact h.filling p log blk rest ((hcalls p).filling.mp hcall)
  case drains =>
    intro c blk hc
    rw [hkept c blk (.inr hc)] at hc
    rw [hrbb]
    exact h.drains c blk hc
  case alone =>
    intro c d blk hc hd
    rw [hkept c blk (.inr hc)] at hc
    rw [hkept d blk (.inr hd)] at hd
    exact h.alone c d blk hc hd
  case own =>
    intro e he
    rw [hhanded] at he
    exact (hcalls e.1).wrote (h.own e he)
  case once =>
    intro p log hlog
    rw [(hcalls p).log_eq] at hlog
    rw [htimes, howner]
    simp only [hunhanded]
    exact h.once p log hlog
  case distinct =>
    rw [hrbb, howner]
    exact h.distinct

/-! ## A step on one block -/

/-- A step on one block, by one call or for its log. -/
structure Local (s t : System) (blk p : Nat) : Prop where
  blkSet : ∀ b, b ≠ blk → t.asyncRbb.blkSet b = s.asyncRbb.blkSet b
  member : ∀ b, b ≠ blk → (b ∈ t.asyncRbb.blkList ↔ b ∈ s.asyncRbb.blkList)
  owner : ∀ b, b ≠ blk → t.owner b = s.owner b
  drains : ∀ c b, b ≠ blk → (s.drains c).Has b ∨ (t.drains c).Has b → t.drains c = s.drains c
  calls : ∀ q, q ≠ p → t.calls q = s.calls q
  times : ∀ q, q ≠ p → t.times q = s.times q
  mem : ∀ b ∈ s.asyncRbb.blkList, b ≠ blk → ∀ c : Cell,
    c.Inside (s.asyncRbb.blkSet b).buf (s.asyncRbb.blkSet b).size → s.mem.Holds c → t.mem.Holds c
  mine : blk ∈ s.asyncRbb.blkList → s.owner blk = p
  others : ∀ b ∈ s.asyncRbb.blkList, b ≠ blk → s.owner b ≠ p

/-- What such a step leaves at its block, and of its call. -/
structure Leaves (t : System) (blk p : Nat) : Prop where
  slot : blk ∈ t.asyncRbb.blkList → t.Slot blk ∧ t.owner blk = p
  filling : ∀ log b rest, t.calls p = .filling log b rest →
    b = blk ∧ blk ∈ t.asyncRbb.blkList ∧ (t.asyncRbb.blkSet blk).status = .inited
  drains : ∀ c, (t.drains c).Has blk →
    blk ∈ t.asyncRbb.blkList ∧ (t.asyncRbb.blkSet blk).status = .get
  alone : ∀ c d, (t.drains c).Has blk → (t.drains d).Has blk → c = d
  once : t.times p = 1 ∨ t.times p = 0 ∧ t.Unhanded blk

/-- A step that concerns one block keeps the invariant if it does so for this block. -/
theorem Kept.local (h : s.Kept) (hlocal : Local s t blk p) (hleaves : Leaves t blk p)
    (hring : t.asyncRbb.Sound) (hbufSize : t.asyncRbb.bufSize = s.asyncRbb.bufSize)
    (hown : ∀ e ∈ t.handed, (t.calls e.1).Wrote e.2) : t.Kept := by
  have hunhanded {b : Nat} (hb : b ≠ blk) : t.Unhanded b ↔ s.Unhanded b :=
    unhanded_congr (hlocal.blkSet b hb) (hlocal.member b hb) fun c => hlocal.drains c b hb
  constructor
  case ring => exact hring
  case bufSize => rw [hbufSize, h.bufSize]
  case slots =>
    intro b hb
    by_cases hne : b = blk
    · subst hne
      exact (hleaves.slot hb).1
    have hmember := (hlocal.member b hne).mp hb
    have howner := hlocal.others b hmember hne
    refine (h.slots b hmember).frame (hlocal.blkSet b hne) (hlocal.owner b hne)
      (.inl (hlocal.calls _ howner)) ?_ (hlocal.mem b hmember hne) (hlocal.times _ howner)
    intro c hc
    exact hlocal.drains c b hne (.inl hc)
  case filling =>
    intro q log b rest hcall
    by_cases hq : q = p
    · subst hq
      obtain ⟨rfl, hmember, hstatus⟩ := hleaves.filling log b rest hcall
      exact ⟨hmember, (hleaves.slot hmember).2, hstatus⟩
    · rw [hlocal.calls q hq] at hcall
      obtain ⟨hmember, hown, hstatus⟩ := h.filling q log b rest hcall
      have hne : b ≠ blk := by
        rintro rfl
        exact hq (hown.symm.trans (hlocal.mine hmember))
      rw [hlocal.member b hne, hlocal.owner b hne, hlocal.blkSet b hne]
      exact ⟨hmember, hown, hstatus⟩
  case drains =>
    intro c b hc
    by_cases hne : b = blk
    · subst hne
      exact hleaves.drains c hc
    · rw [hlocal.member b hne, hlocal.blkSet b hne]
      rw [hlocal.drains c b hne (.inr hc)] at hc
      exact h.drains c b hc
  case alone =>
    intro c d b hc hd
    by_cases hne : b = blk
    · subst hne
      exact hleaves.alone c d hc hd
    · rw [hlocal.drains c b hne (.inr hc)] at hc
      rw [hlocal.drains d b hne (.inr hd)] at hd
      exact h.alone c d b hc hd
  case own => exact hown
  case once =>
    intro q log hlog
    by_cases hq : q = p
    · subst hq
      rcases hleaves.once with hone | ⟨hzero, hblk⟩
      · exact .inl hone
      · exact .inr ⟨hzero, blk, (hleaves.slot hblk.1).2, hblk⟩
    · rw [hlocal.calls q hq] at hlog
      rw [hlocal.times q hq]
      rcases h.once q log hlog with hone | ⟨hzero, b, hb, hbun⟩
      · exact .inl hone
      · right
        have hne : b ≠ blk := by
          rintro rfl
          exact hq (hb.symm.trans (hlocal.mine hbun.1))
        exact ⟨hzero, b, (hlocal.owner b hne).trans hb, (hunhanded hne).mpr hbun⟩
  case distinct =>
    intro a ha b hb hab
    by_cases hna : a = blk
    · by_cases hnb : b = blk
      · rw [hna, hnb]
      · subst hna
        rw [(hleaves.slot ha).2, hlocal.owner b hnb] at hab
        exact absurd hab.symm (hlocal.others b ((hlocal.member b hnb).mp hb) hnb)
    · by_cases hnb : b = blk
      · subst hnb
        rw [(hleaves.slot hb).2, hlocal.owner a hna] at hab
        exact absurd hab (hlocal.others a ((hlocal.member a hna).mp ha) hna)
      · rw [hlocal.owner a hna, hlocal.owner b hnb] at hab
        exact h.distinct a ((hlocal.member a hna).mp ha) b ((hlocal.member b hnb).mp hb) hab

end System

end RtVcom.Ulog

import RtVcom.Ulog.SlotSteps

/-!
# No log is lost

What the asynchronous output of `ulog.c` keeps. That every log with a block is handed on once at
most, and its bytes are its own, holds whatever is thrown away (`Kept`, beside which `Parked` says
where the thread is). Whether the thread learns of a log is another matter: `Noticed` holds as long
as no notice is thrown away (`NoticeKept`).

`rt_sem_control` throws them away: the thread resets the semaphore before it waits, and a log that
was put before that, and after the last look at the ring, stays there. `ulog_async_loses` is the run
with a log that is written before the thread first runs.
-/

namespace RtVcom.Ulog

open RtVcom.Lib RtVcom.Kernel RtVcom.Driver

namespace System

variable {s t : System} {blk p : Nat} {log : Log} {c d : Drainer}

/-! ## The thread -/

/-- The thread stands in the queue of its semaphore only where it waits, with nothing counted, and
it drains the ring only in `ulog_async_output`. -/
structure Parked (s : System) : Prop where
  suspended : s.asyncNotice.suspendThread = if s.async = .blocked then [asyncTh] else []
  idle : s.async ≠ .output → s.drains .async = .idle
  value : s.async = .blocked → s.asyncNotice.value = 0

/-- A step of a call or of a drainer that leaves the semaphore. -/
theorem Parked.frame (h : s.Parked) (hnotice : t.asyncNotice = s.asyncNotice)
    (hasync : t.async = s.async) (hidle : s.async ≠ .output → t.drains .async = s.drains .async) :
    t.Parked where
  suspended := by rw [hnotice, hasync, h.suspended]
  idle hne := by
    rw [hasync] at hne
    rw [hidle hne, h.idle hne]
  value hblocked := by
    rw [hasync] at hblocked
    rw [hnotice, h.value hblocked]

/-- The thread drains the ring only where it is in `ulog_async_output`. -/
theorem Parked.output_of_drain (h : s.Parked) (hdrain : s.drains .async ≠ .idle) :
    s.async = .output := by
  by_cases houtput : s.async = .output
  · exact houtput
  · exact absurd (h.idle houtput) hdrain

/-- A drainer that is under way goes on. -/
theorem Parked.setDrain_async (h : s.Parked) (hdrain : s.drains c ≠ .idle) (drain : Drain)
    (hne : s.async ≠ .output) : (s.setDrain c drain).drains .async = s.drains .async := by
  by_cases hc : c = .async
  · subst hc
    exact absurd (h.output_of_drain hdrain) hne
  · exact setDrain_other drain (Ne.symm hc)

/-- A drainer that ends parks no block. -/
theorem Parked.finish (h : s.Parked) (hdrain : s.drains c ≠ .idle) : (s.finish c).Parked := by
  cases c with
  | async =>
    have houtput := h.output_of_drain hdrain
    constructor
    case suspended =>
      have hsuspended := h.suspended
      rw [houtput] at hsuspended
      exact hsuspended
    case idle =>
      intro _
      exact setDrain_self _
    case value =>
      intro hblocked
      cases hblocked
  | flush n => exact h.frame rfl rfl (h.setDrain_async hdrain .idle)

theorem parked_wake (hsuspended : s.asyncNotice.suspendThread = []) : s.wake.Parked where
  suspended := hsuspended
  idle hne := absurd rfl hne
  value hblocked := by cases hblocked

/-- The thread that takes its notice goes on. -/
theorem Parked.take (h : s.Parked) (htake : s.async = .take) : s.take.Parked := by
  have hsuspended := h.suspended
  rw [htake] at hsuspended
  change s.asyncNotice.suspendThread = [] at hsuspended
  unfold System.take rtSemTake
  by_cases hpos : 0 < s.asyncNotice.value
  · rw [if_pos hpos]
    exact parked_wake hsuspended
  · rw [if_neg hpos, if_neg (show rtWaitingForever ≠ 0 by decide)]
    constructor
    case suspended =>
      change rtIpcListSuspend s.asyncNotice.suspendThread asyncTh s.asyncNotice.flag = [asyncTh]
      rw [hsuspended]
      cases s.asyncNotice.flag <;> rfl
    case idle =>
      intro _
      apply h.idle
      rw [htake]
      decide
    case value =>
      intro _
      exact Nat.eq_zero_of_not_pos hpos

theorem Parked.reset (h : s.Parked) (hreset : s.async = .reset) : s.reset.Parked where
  suspended := rfl
  idle _ := h.idle (by rw [hreset]; decide)
  value hblocked := by cases hblocked

/-- A release wakes the thread where it waits, and else it is counted. -/
theorem Parked.release_cases (h : s.Parked) (p : Nat) (log : Log) :
    s.async = .blocked ∧ s.release p log =
        ({ s with asyncNotice := { s.asyncNotice with suspendThread := [] } }.setCall p
          (.done log)).wake ∨
      s.async ≠ .blocked ∧ s.release p log =
        { s with asyncNotice := { s.asyncNotice with
          value := (s.asyncNotice.value + 1) % rtSemValueMod, suspendThread := [] } }.setCall p
          (.done log) := by
  have hsuspended := h.suspended
  unfold System.release rtSemRelease
  by_cases hblocked : s.async = .blocked
  · rw [if_pos hblocked] at hsuspended
    rw [hsuspended]
    exact .inl ⟨hblocked, rfl⟩
  · rw [if_neg hblocked] at hsuspended
    rw [hsuspended]
    exact .inr ⟨hblocked, rfl⟩

theorem Parked.release (h : s.Parked) (p : Nat) (log : Log) : (s.release p log).Parked := by
  rcases h.release_cases p log with ⟨-, heq⟩ | ⟨hblocked, heq⟩
  · rw [heq]
    exact parked_wake rfl
  · rw [heq]
    constructor
    case suspended => exact (if_neg hblocked).symm
    case idle => exact h.idle
    case value =>
      intro h'
      exact absurd h' hblocked

/-! ## The notices -/

/-- Where the thread is about to wait, or waits, with no notice counted, every block that is put has
its notice still to come. -/
def Noticed (s : System) : Prop :=
  s.async = .take ∨ s.async = .blocked → s.asyncNotice.value = 0 →
    ∀ blk ∈ s.asyncRbb.blkList, (s.asyncRbb.blkSet blk).status = .put → s.Pending blk

/-- Elsewhere there is nothing to keep. -/
theorem noticed_of_async (htake : s.async ≠ .take) (hblocked : s.async ≠ .blocked) : s.Noticed := by
  rintro (h | h)
  · exact absurd h htake
  · exact absurd h hblocked

/-- A step of a call or of a drainer that leaves the semaphore. -/
theorem Noticed.frame (h : s.Noticed) (hnotice : t.asyncNotice = s.asyncNotice)
    (hasync : t.async = s.async)
    (hput : ∀ blk ∈ t.asyncRbb.blkList, (t.asyncRbb.blkSet blk).status = .put →
      t.Pending blk ∨ blk ∈ s.asyncRbb.blkList ∧ (s.asyncRbb.blkSet blk).status = .put ∧
        (s.Pending blk → t.Pending blk)) : t.Noticed := by
  intro hwaits hvalue blk hmember hstatus
  rw [hasync] at hwaits
  rw [hnotice] at hvalue
  rcases hput blk hmember hstatus with hpending | ⟨hmember', hstatus', hkept⟩
  · exact hpending
  · exact hkept (h hwaits hvalue blk hmember' hstatus')

/-- Behind a drain that ends there is a notice for what is still put. -/
theorem Noticed.finish (h : s.Noticed) : (s.finish c).Noticed := by
  cases c with
  | async => exact noticed_of_async (by rintro ⟨⟩) (by rintro ⟨⟩)
  | flush n =>
    refine h.frame rfl rfl ?_
    intro blk hmember hstatus
    exact .inr ⟨hmember, hstatus, id⟩

theorem noticed_wake : s.wake.Noticed :=
  noticed_of_async (by rintro ⟨⟩) (by rintro ⟨⟩)

theorem Noticed.take (h : s.Noticed) (htake : s.async = .take) : s.take.Noticed := by
  unfold System.take rtSemTake
  by_cases hpos : 0 < s.asyncNotice.value
  · rw [if_pos hpos]
    exact noticed_wake
  · rw [if_neg hpos, if_neg (show rtWaitingForever ≠ 0 by decide)]
    intro _ _
    exact h (.inl htake) (Nat.eq_zero_of_not_pos hpos)

/-- A release leaves a notice, if it is kept. -/
theorem Noticed.release (hp : s.Parked) (hkept : NoticeKept s (.release p)) (log : Log) :
    (s.release p log).Noticed := by
  rcases hp.release_cases p log with ⟨-, heq⟩ | ⟨hblocked, heq⟩
  · rw [heq]
    exact noticed_wake
  · rw [heq]
    intro hwaits hvalue
    rcases hwaits with htake | h'
    · have hlt := hkept htake
      change (s.asyncNotice.value + 1) % rtSemValueMod = 0 at hvalue
      rw [Nat.mod_eq_of_lt hlt] at hvalue
      cases hvalue
    · exact absurd h' hblocked

/-- A call that has no release to come may change. -/
theorem pending_setCall {call : Call} (hcall : ¬(s.calls p).Releases blk) (h : s.Pending blk) :
    (s.setCall p call).Pending blk := by
  have hne : s.owner blk ≠ p := by
    intro howner
    exact hcall (howner ▸ h)
  change ((s.setCall p call).calls (s.owner blk)).Releases blk
  rwa [setCall_other call hne]

/-- A block that is allocated needs no notice yet. -/
theorem Noticed.alloc (h : s.Noticed) (hkept : s.Kept) (hcall : s.calls p = .idle)
    (hlen : log.log.length ≤ lineBufSize) : (s.alloc p log).Noticed := by
  have hnone (blk : Nat) : ¬(s.calls p).Releases blk := by
    rw [hcall]
    exact id
  rcases hkept.alloc_cases p hlen with heq | ⟨new, buf, heq, hnotin, -⟩
  · rw [heq]
    refine h.frame rfl rfl ?_
    intro blk hmember hstatus
    exact .inr ⟨hmember, hstatus, pending_setCall (hnone blk)⟩
  · rw [heq]
    refine h.frame rfl rfl ?_
    intro blk hmember hstatus
    right
    rcases List.mem_append.mp hmember with hold | hnew
    · have hne : blk ≠ new := by
        rintro rfl
        exact hnotin hold
      refine ⟨hold, ?_, ?_⟩
      · rw [← hstatus]
        exact congrArg RbbBlk.status (Rbb.append_blkSet_other hne).symm
      · intro hpending
        refine pending_setCall (hnone blk) ?_
        change (s.calls (Function.update s.owner new p blk)).Releases blk
        rwa [Function.update_of_ne hne]
    · obtain rfl := List.mem_singleton.mp hnew
      have hself := @Rbb.append_blkSet_self s.asyncRbb blk buf log.blkSize
      have hinited := congrArg RbbBlk.status hself
      have hput : RbbStatus.inited = .put := hinited.symm.trans hstatus
      cases hput

/-- A block that is put has its release still to come. -/
theorem Noticed.put_block (h : s.Noticed) (hkept : s.Kept)
    (hcall : s.calls p = .filling log blk []) :
    ({ s with asyncRbb := rtRbbBlkPut s.asyncRbb blk }.setCall p (.releasing log blk)).Noticed := by
  obtain ⟨-, howner, -⟩ := hkept.filling p log blk _ hcall
  have hnone (b : Nat) : ¬(s.calls p).Releases b := by
    rw [hcall]
    exact id
  refine h.frame rfl rfl ?_
  intro b hmember hstatus
  by_cases hb : b = blk
  · subst hb
    left
    change (Function.update s.calls p (Call.releasing log b) (s.owner b)).Releases b
    rw [howner, Function.update_self]
    rfl
  · right
    refine ⟨hmember, ?_, ?_⟩
    · rw [← hstatus]
      exact congrArg RbbBlk.status (Function.update_of_ne hb ..).symm
    · exact @pending_setCall { s with asyncRbb := rtRbbBlkPut s.asyncRbb blk } b p _ (hnone b)

/-- A block that is got or freed is not put any more, and nothing else is new. -/
theorem Noticed.drain (h : s.Noticed) {status : RbbStatus} (hstatus : status ≠ .put)
    (hrbb : t.asyncRbb.blkList.Sublist s.asyncRbb.blkList)
    (hset : t.asyncRbb.blkSet = (s.asyncRbb.setStatus blk status).blkSet)
    (hnotice : t.asyncNotice = s.asyncNotice) (hasync : t.async = s.async)
    (hcalls : t.calls = s.calls) (howner : t.owner = s.owner) : t.Noticed := by
  refine h.frame hnotice hasync ?_
  intro b hmember hput
  right
  rw [hset, Rbb.setStatus_blkSet] at hput
  by_cases hb : b = blk
  · rw [if_pos hb] at hput
    exact absurd hput hstatus
  · rw [if_neg hb] at hput
    refine ⟨hrbb.subset hmember, hput, ?_⟩
    unfold Pending
    rw [hcalls, howner]
    exact id

/-! ## The system -/

/-- The steps, with what is known where they are taken. -/
inductive Steps (s : System) : Action → System → Prop
  | alloc {p : Nat} {log : Log} : s.calls p = .idle → log.log.length ≤ lineBufSize →
      Steps s (.alloc p log) (s.alloc p log)
  | store {p blk : Nat} {log : Log} {cell : Cell} {rest : List Cell} :
      s.calls p = .filling log blk (cell :: rest) →
      Steps s (.store p) ({ s with mem := s.mem.put cell }.setCall p (.filling log blk rest))
  | put {p blk : Nat} {log : Log} : s.calls p = .filling log blk [] →
      Steps s (.put p)
        ({ s with asyncRbb := rtRbbBlkPut s.asyncRbb blk }.setCall p (.releasing log blk))
  | release {p blk : Nat} {log : Log} : s.calls p = .releasing log blk →
      Steps s (.release p) (s.release p log)
  | reset : s.async = .reset → Steps s .reset s.reset
  | take : s.async = .take → Steps s .take s.take
  | flush {n : Nat} : s.drains (.flush n) = .idle →
      Steps s (.flush n) (s.setDrain (.flush n) .look)
  | empty {c : Drainer} : s.drains c = .look → Steps s (.look c) (s.finish c)
  | look {c : Drainer} : s.drains c = .look → Steps s (.look c) (s.setDrain c .scan)
  | missed {c : Drainer} : s.drains c = .scan → Steps s (.scan c) (s.finish c)
  | scan {c : Drainer} {blk : Nat} : s.drains c = .scan → blk ∈ s.asyncRbb.blkList →
      (s.asyncRbb.blkSet blk).status = .put →
      Steps s (.scan c)
        ({ s with asyncRbb := s.asyncRbb.setStatus blk .get }.setDrain c (.got blk))
  | output {c : Drainer} {blk : Nat} : s.drains c = .got blk →
      Steps s (.output c) (s.output c blk)
  | free {c : Drainer} {blk : Nat} : s.drains c = .freeing blk →
      Steps s (.free c) ({ s with asyncRbb := rtRbbBlkFree s.asyncRbb blk }.setDrain c .look)

/-- A step of the machine is one of the transitions. -/
theorem steps_of_step {buf : Nat} {blockSet : Nat → RbbBlk} {mem : ByteMemory} {a : Action}
    (h : (asyncMachine buf blockSet mem).step s a = some t) : s.Steps a t := by
  unfold asyncMachine at h
  cases a with
  | alloc p log =>
    dsimp only at h
    split at h
    · next hcall =>
      split at h
      · next hlen =>
        cases h
        exact .alloc hcall hlen
      · cases h
    · cases h
  | store p =>
    dsimp only at h
    split at h
    · next hcall =>
      cases h
      exact .store hcall
    · cases h
  | put p =>
    dsimp only at h
    split at h
    · next hcall =>
      cases h
      exact .put hcall
    · cases h
  | release p =>
    dsimp only at h
    split at h
    · next hcall =>
      cases h
      exact .release hcall
    · cases h
  | reset =>
    dsimp only at h
    split at h
    · next hasync =>
      cases h
      exact .reset hasync
    · cases h
  | take =>
    dsimp only at h
    split at h
    · next hasync =>
      cases h
      exact .take hasync
    · cases h
  | flush n =>
    dsimp only at h
    split at h
    · next hdrain =>
      cases h
      exact .flush hdrain
    · cases h
  | look c =>
    dsimp only at h
    split at h
    · next hdrain =>
      cases h
      split
      · exact .empty hdrain
      · exact .look hdrain
    · cases h
  | scan c =>
    dsimp only at h
    split at h
    · next hdrain =>
      cases h
      unfold System.scan
      rcases Rbb.get_cases s.asyncRbb with ⟨heq, -⟩ | ⟨blk, hmember, hput, heq⟩
      · rw [heq]
        exact .missed hdrain
      · rw [heq]
        exact .scan hdrain hmember hput
    · cases h
  | output c =>
    dsimp only at h
    split at h
    · next hdrain =>
      cases h
      exact .output hdrain
    · cases h
  | free c =>
    dsimp only at h
    split at h
    · next hdrain =>
      cases h
      exact .free hdrain
    · cases h

/-- The thread takes up the ring. -/
theorem Kept.wake (h : s.Kept) (hidle : s.drains .async = .idle) : s.wake.Kept := by
  refine h.quiet rfl rfl rfl rfl (fun _ => .inl rfl) ?_
  exact @setDrain_free { s with async := .output } .async .look (hidle ▸ Drain.free_idle)
    Drain.free_look

/-- The notice and the thread do not concern the blocks. -/
theorem Kept.notice (h : s.Kept) (notice : RtSem) (async : AsyncThread) :
    ({ s with asyncNotice := notice, async } : System).Kept :=
  h.quiet rfl rfl rfl rfl (fun _ => .inl rfl) fun _ => .inl rfl

/-- A release hands the block over. -/
theorem Kept.release (h : s.Kept) (hp : s.Parked) (hcall : s.calls p = .releasing log blk) :
    (s.release p log).Kept := by
  have hdone (notice : RtSem) : ({ s with asyncNotice := notice }.setCall p (.done log)).Kept := by
    refine h.quiet rfl rfl rfl rfl ?_ fun _ => .inl rfl
    exact @setCall_stays { s with asyncNotice := notice } p _ (hcall ▸ .release)
  rcases hp.release_cases p log with ⟨hblocked, heq⟩ | ⟨-, heq⟩
  · rw [heq]
    exact (hdone _).wake (hp.idle (by rw [hblocked]; decide))
  · rw [heq]
    exact hdone _

/-- Taking the notice changes no block. -/
theorem Kept.take (h : s.Kept) (hp : s.Parked) (htake : s.async = .take) : s.take.Kept := by
  have hidle := hp.idle (by rw [htake]; decide)
  unfold System.take
  split
  · exact (h.notice _ _).wake hidle
  · exact h.notice _ _

/-- Every step keeps the invariant of the blocks. -/
theorem Kept.step {a : Action} (h : s.Kept) (hp : s.Parked) (hstep : s.Steps a t) : t.Kept := by
  cases hstep with
  | alloc hcall hlen => exact h.alloc hcall hlen
  | store hcall => exact h.store hcall
  | put hcall => exact h.put hcall
  | release hcall => exact h.release hp hcall
  | reset _ => exact h.notice _ _
  | take htake => exact h.take hp htake
  | flush hdrain =>
    exact h.quiet rfl rfl rfl rfl (fun _ => .inl rfl)
      (setDrain_free (hdrain ▸ Drain.free_idle) Drain.free_look)
  | empty hdrain => exact h.finish (hdrain ▸ Drain.free_look)
  | look hdrain =>
    exact h.quiet rfl rfl rfl rfl (fun _ => .inl rfl)
      (setDrain_free (hdrain ▸ Drain.free_look) Drain.free_scan)
  | missed hdrain => exact h.finish (hdrain ▸ Drain.free_scan)
  | scan hdrain hmember hput => exact h.got hdrain hmember hput
  | output hdrain => exact h.output hdrain
  | free hdrain => exact h.free hdrain

/-- Every step keeps where the thread is parked. -/
theorem Parked.step {a : Action} (h : s.Parked) (hk : s.Kept) (hstep : s.Steps a t) :
    t.Parked := by
  have hbusy {c : Drainer} {drain : Drain} (hdrain : s.drains c = drain) (hne : drain ≠ .idle) :
      s.drains c ≠ .idle := by
    rw [hdrain]
    exact hne
  cases hstep with
  | @alloc p log _ hlen =>
    rcases hk.alloc_cases p hlen with heq | ⟨new, buf, heq, -, -⟩
    · rw [heq]
      exact h.frame rfl rfl fun _ => rfl
    · rw [heq]
      exact h.frame rfl rfl fun _ => rfl
  | store _ => exact h.frame rfl rfl fun _ => rfl
  | put _ => exact h.frame rfl rfl fun _ => rfl
  | release _ => exact h.release _ _
  | reset hreset => exact h.reset hreset
  | take htake => exact h.take htake
  | flush _ => exact h.frame rfl rfl fun _ => rfl
  | empty hdrain => exact h.finish (hbusy hdrain (by decide))
  | look hdrain => exact h.frame rfl rfl (h.setDrain_async (hbusy hdrain (by decide)) _)
  | missed hdrain => exact h.finish (hbusy hdrain (by decide))
  | scan hdrain _ _ => exact h.frame rfl rfl (h.setDrain_async (hbusy hdrain (by decide)) _)
  | @output c blk hdrain =>
    obtain ⟨log, -, heq⟩ := hk.output_eq hdrain
    rw [heq]
    exact h.frame rfl rfl (h.setDrain_async (hbusy hdrain (by rintro ⟨⟩)) _)
  | free hdrain => exact h.frame rfl rfl (h.setDrain_async (hbusy hdrain (by rintro ⟨⟩)) _)

/-- Every step that keeps the notice keeps the law. -/
theorem Noticed.step {a : Action} (h : s.Noticed) (hk : s.Kept) (hp : s.Parked)
    (hok : NoticeKept s a) (hstep : s.Steps a t) : t.Noticed := by
  cases hstep with
  | alloc hcall hlen => exact h.alloc hk hcall hlen
  | @store p blk log cell rest hcall =>
    refine h.frame rfl rfl ?_
    intro b hmember hstatus
    refine .inr ⟨hmember, hstatus, ?_⟩
    refine @pending_setCall { s with mem := s.mem.put cell } b p _ ?_
    change ¬(s.calls p).Releases b
    rw [hcall]
    exact id
  | put hcall => exact h.put_block hk hcall
  | release hcall => exact .release hp hok _
  | reset _ => exact fun _ _ => hok
  | take htake => exact h.take htake
  | flush _ =>
    refine h.frame rfl rfl ?_
    intro b hmember hstatus
    exact .inr ⟨hmember, hstatus, id⟩
  | empty _ => exact h.finish
  | look _ =>
    refine h.frame rfl rfl ?_
    intro b hmember hstatus
    exact .inr ⟨hmember, hstatus, id⟩
  | missed _ => exact h.finish
  | scan _ _ _ =>
    exact h.drain (show RbbStatus.get ≠ .put by decide) (.refl _) rfl rfl rfl rfl rfl
  | @output c blk hdrain =>
    obtain ⟨log, -, heq⟩ := hk.output_eq hdrain
    rw [heq]
    refine h.frame rfl rfl ?_
    intro b hmember hstatus
    exact .inr ⟨hmember, hstatus, id⟩
  | free _ =>
    exact h.drain (show RbbStatus.unused ≠ .put by decide) List.erase_sublist rfl rfl rfl rfl rfl

/-! ## The law -/

section

variable {buf : Nat} {blockSet : Nat → RbbBlk} {mem : ByteMemory}

/-- An empty ring holds the invariant. -/
theorem kept_init (hbuf : buf + asyncOutputBufSize < 0x100000000) :
    (asyncMachine buf blockSet mem).init.Kept where
  ring := Rbb.sound_init blockSet asyncOutputStoreLines hbuf
  bufSize := rfl
  slots blk hblk := by cases hblk
  filling p log blk rest hcall := by cases hcall
  drains c blk hc := by cases hc
  alone c d blk hc := by cases hc
  own h hh := by cases hh
  once p log hlog := by cases hlog
  distinct a ha := by cases ha

theorem parked_init : (asyncMachine buf blockSet mem).init.Parked where
  suspended := rfl
  idle _ := rfl
  value hblocked := by cases hblocked

/-- The run lemma, for what holds whatever is thrown away. -/
theorem kept_of_reach {ok : System → Action → Prop} (hbuf : buf + asyncOutputBufSize < 0x100000000)
    (h : (asyncMachine buf blockSet mem).Reach ok s) : s.Kept ∧ s.Parked := by
  refine h.invariant (P := fun s => s.Kept ∧ s.Parked) ⟨kept_init hbuf, parked_init⟩ ?_
  rintro s a t ⟨hkept, hparked⟩ _ hstep
  have hsteps := steps_of_step hstep
  exact ⟨hkept.step hparked hsteps, hparked.step hkept hsteps⟩

/-- The run lemma, where no notice is thrown away. -/
theorem noticed_of_reach (hbuf : buf + asyncOutputBufSize < 0x100000000)
    (h : (asyncMachine buf blockSet mem).Reach NoticeKept s) : s.Noticed := by
  refine h.invariant_of_reach (P := Noticed) (noticed_of_async (by rintro ⟨⟩) (by rintro ⟨⟩)) ?_
  intro s a t hreach hnoticed hok hstep
  obtain ⟨hkept, hparked⟩ := kept_of_reach hbuf hreach
  exact hnoticed.step hkept hparked hok (steps_of_step hstep)

/-- Where nobody is under way, every log with a block was handed on. -/
theorem Kept.quiet_once (h : s.Kept) (hp : s.Parked) (hn : s.Noticed) (hquiet : s.Quiet)
    (hlog : (s.calls p).log? = some log) : s.times p = 1 := by
  rcases h.once p log hlog with hone | ⟨-, blk, howner, hmember, hused⟩
  · exact hone
  · have hcalls := hquiet.calls p
    have hfree (c : Drainer) (hc : (s.drains c).Has blk) : False := by
      rw [hquiet.drains c] at hc
      cases hc
    cases h.slots blk hmember with
    | filling _ hcall =>
      rw [howner] at hcall
      rcases hcalls with heq | heq | ⟨log', heq⟩ <;> rw [heq] at hcall <;> cases hcall
    | put hput =>
      have hpending := hn (.inr hquiet.thread) (hp.value hquiet.thread) blk hmember hput
      unfold Pending at hpending
      rw [howner] at hpending
      rcases hcalls with heq | heq | ⟨log', heq⟩ <;> rw [heq] at hpending <;> cases hpending
    | @got _ c _ hdrain => exact (hfree c (Drain.has_iff.mpr (.inl hdrain))).elim
    | @freeing c _ hdrain => exact (hfree c (Drain.has_iff.mpr (.inr hdrain))).elim

end

end System

/-- **No log and no notice is lost**, in every run in which no notice is thrown away. -/
theorem ulog_async_delivers {buf : Nat} {blockSet : Nat → RbbBlk} {mem : ByteMemory} {s : System}
    (hbuf : buf + asyncOutputBufSize < 0x100000000)
    (h : (asyncMachine buf blockSet mem).Reach NoticeKept s) : s.Delivers := by
  obtain ⟨hkept, hparked⟩ := System.kept_of_reach hbuf h
  have hnoticed := System.noticed_of_reach hbuf h
  constructor
  case own =>
    intro e he
    exact (hkept.own e he).log_eq
  case once => exact hkept.once
  case quiet =>
    intro hquiet p log hlog
    exact hkept.quiet_once hparked hnoticed hquiet hlog
  case notice =>
    intro hblocked hvalue
    by_cases hput : ∃ blk ∈ s.asyncRbb.blkList, (s.asyncRbb.blkSet blk).status = .put
    · right
      obtain ⟨blk, hmember, hstatus⟩ := hput
      have hpending := hnoticed (.inr hblocked) hvalue blk hmember hstatus
      unfold System.Pending at hpending
      cases hcall : s.calls (s.owner blk) with
      | releasing log b => exact ⟨s.owner blk, log, b, hcall⟩
      | _ => rw [hcall] at hpending; cases hpending
    · left
      intro blk hmember hstatus
      exact hput ⟨blk, hmember, hstatus⟩

/-- A log that is put while the thread waits wakes it, and is handed on before the thread waits
again. -/
theorem ulog_async_delivers_one :
    let log : Log := ⟨6, 0, false, [0x41]⟩
    ∃ s, (asyncMachine 0x20000000 (fun _ => ⟨.unused, 0, 0⟩) fun _ => 0).Reach NoticeKept s ∧
      (s.async = .blocked ∧ s.handed = [(0, log)]) ∧ s.Delivers := by
  obtain ⟨s, hreach, hs⟩ := Machine.exists_reach_of_run
    (asyncMachine 0x20000000 (fun _ => ⟨.unused, 0, 0⟩) fun _ => 0) NoticeKept
    [.reset, .take, .alloc 0 ⟨6, 0, false, [0x41]⟩, .store 0, .store 0, .store 0, .store 0,
      .store 0, .put 0, .release 0, .look .async, .scan .async, .output .async, .free .async,
      .look .async, .reset, .take]
    (fun s => s.async = .blocked ∧ s.handed = [(0, ⟨6, 0, false, [0x41]⟩)]) (by decide +kernel)
  exact ⟨s, hreach, hs, ulog_async_delivers (by decide) hreach⟩

/-- A log that is put before the thread first runs: the thread throws its notice away and waits,
with the log in the ring. -/
theorem ulog_async_loses :
    ∃ s, (asyncMachine 0x20000000 (fun _ => ⟨.unused, 0, 0⟩) fun _ => 0).Reach Machine.any s ∧
      ¬s.Delivers := by
  obtain ⟨s, hrun, hblocked, hvalue, hmember, hput, ⟨log, hdone⟩, hothers⟩ :
      ∃ s, (asyncMachine 0x20000000 (fun _ => ⟨.unused, 0, 0⟩) fun _ => 0).runFrom Machine.any
          (asyncMachine 0x20000000 (fun _ => ⟨.unused, 0, 0⟩) fun _ => 0).init
          [.alloc 0 ⟨6, 0, false, [0x41]⟩, .store 0, .store 0, .store 0, .store 0, .store 0,
            .put 0, .release 0, .reset, .take] = some s ∧
        s.async = .blocked ∧ s.asyncNotice.value = 0 ∧ 0 ∈ s.asyncRbb.blkList ∧
        (s.asyncRbb.blkSet 0).status = .put ∧ (∃ log, s.calls 0 = .done log) ∧
        ∀ p, s.calls (p + 1) = .idle := by
    refine ⟨_, rfl, rfl, rfl, ?_, rfl, ⟨_, rfl⟩, fun p => rfl⟩
    decide +kernel
  refine ⟨s, Machine.reach_of_run hrun, ?_⟩
  intro hdelivers
  rcases hdelivers.notice hblocked hvalue with hnone | ⟨p, log', blk, hcall⟩
  · exact hnone 0 hmember hput
  · cases p with
    | zero =>
      rw [hdone] at hcall
      cases hcall
    | succ p =>
      rw [hothers] at hcall
      cases hcall

end RtVcom.Ulog

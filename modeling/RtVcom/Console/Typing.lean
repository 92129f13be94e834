import RtVcom.Console.Input
import RtVcom.Finsh.Terminal
import RtVcom.Vcom.Reception

/-!
# Typing at the virtual COM port

What a host types goes a long way before the shell shows it: the controller, the OUT message, the
ring, the loop of `rt_hw_serial_isr`, the receive FIFO, and then `finsh_getchar` of the shell
thread, which waits for `rx_sem` when it finds the FIFO empty. `finsh_rx_ind` is called once behind
the loop, and only if something is unread then.

The machine puts the three models side by side, with the shell on `vcom`: the receiver of
`Vcom.Reception`, the semaphore, and the session of `Finsh.Terminal`, which gets each byte that
`finsh_getchar` returns. The callback is two steps of its own, the look at `rx_length` and the
release, so that the shell thread reads, waits and goes on between them.

**The law** (`typing_shown`): the shell shows the terminal that got the bytes it read, and between
what the host has sent and what left the FIFO nothing is lost; and when the shell waits and the
receiver is at rest, nothing is left behind.
-/

namespace RtVcom.Console

open RtVcom.Kernel RtVcom.Serial RtVcom.Lib RtVcom.Vcom RtVcom.Finsh

variable {F : Type}

/-! ## The parties -/

/-- The end of `rt_hw_serial_isr`: outside it, about to look at `rx_length`, about to call
`finsh_rx_ind`. -/
inductive IndicatePc
  | idle
  | looking
  | calling
deriving Repr, DecidableEq

/-- The shell thread: about to read, with a byte, about to take `rx_sem`, waiting for it. -/
inductive TypistPc
  | reading
  | handling (ch : UInt8)
  | taking
  | blocked
deriving Repr, DecidableEq

/-- The receiver, the callback, and the shell. -/
structure Typing (F : Type) where
  rx : VcomRx
  indicate : IndicatePc
  rxSem : RtSem
  reader : TypistPc
  session : FinshSession F

/-- The steps of the parties; those of the receiver are its own but the read. -/
inductive TypingAction
  | usb (a : RxAction)
  | look
  | indicate
  | read
  | handle
  | take
deriving Repr, DecidableEq

namespace Typing

/-- A step of the receiver. The loop of `rt_hw_serial_isr` ends with a `_vcom_getc` that finds
nothing. -/
def usb (s : Typing F) (a : RxAction) : Option (Typing F) :=
  (rxStep s.rx a).map fun rx =>
    { s with rx, indicate := if a = .getc ∧ rx.usbd = .rearm then .looking else .idle }

/-- `rx_length`, and whether the callback is called. -/
def look (s : Typing F) : Typing F :=
  { s with indicate := if rxLength cdcRxBufsize s.rx.fifo.val = 0 then .idle else .calling }

/-- `finsh_rx_ind`: a shell that waits goes on behind `rt_sem_take`. -/
def release (s : Typing F) : Typing F :=
  match rtSemRelease s.rxSem with
  | (rxSem, some _) => { s with rxSem, indicate := .idle, reader := .reading }
  | (rxSem, none) => { s with rxSem, indicate := .idle }

/-- `rt_device_read(shell->device, -1, &ch, 1)`. -/
def read (s : Typing F) : Typing F :=
  match s.rx.fifo.get with
  | some (ch, _) => { s with rx := rxRead s.rx, reader := .handling ch }
  | none => { s with reader := .taking }

/-- `rt_sem_take(&shell->rx_sem, RT_WAITING_FOREVER)`. -/
def take (s : Typing F) : Typing F :=
  match rtSemTake s.rxSem shellTid rtWaitingForever with
  | (rxSem, .returns _) => { s with rxSem, reader := .reading }
  | (rxSem, .suspends) => { s with rxSem, reader := .blocked }

/-- One step of one party. -/
def step (table : CommandTable F) (s : Typing F) : TypingAction → Option (Typing F)
  | .usb a => if s.indicate = .idle ∧ a ≠ .read then s.usb a else none
  | .look => if s.indicate = .looking then some s.look else none
  | .indicate => if s.indicate = .calling then some s.release else none
  | .read => if s.reader = .reading then some s.read else none
  | .handle =>
    match s.reader with
    | .handling ch => ((finshSession table).step s.session (.input ch.toBitVec)).map fun session =>
      { s with session, reader := .reading }
    | _ => none
  | .take => if s.reader = .taking then some s.take else none

end Typing

/-- The shell on `vcom`, with nothing typed yet. -/
def typingSystem (table : CommandTable F) : Machine (Typing F) TypingAction where
  init :=
    { rx := rxSystem.init
      indicate := .idle
      rxSem := rtSemInit 0 .fifo
      reader := .reading
      session := (finshSession table).init }
  step := Typing.step table

/-- A byte is handled where the line has room for it. A token is counted below the end of the
16-bit counter, or for a thread that looks at the FIFO before it takes one. -/
def Typing.Legible (s : Typing F) : TypingAction → Prop
  | .handle => match s.reader with
    | .handling ch => s.session.NoOverflow (.input ch.toBitVec)
    | _ => True
  | .indicate => s.reader = .taking → s.rxSem.value + 1 < rtSemValueMod
  | _ => True

instance : DecidableRel (Typing.Legible (F := F))
  | s, .handle => by
    unfold Typing.Legible
    cases s.reader <;> dsimp only <;> infer_instance
  | _, .indicate => inferInstanceAs (Decidable (_ → _))
  | _, .usb _ | _, .look | _, .read | _, .take => isTrue trivial

/-! ## The invariant -/

/-- The key that a byte is. -/
def typed (ch : UInt8) : Event := .input ch.toBitVec

/-- The byte that the shell has read and not yet handled. -/
def TypistPc.inHand : TypistPc → List UInt8
  | .handling ch => [ch]
  | .reading | .taking | .blocked => []

/-- Whether the shell thread looks at the FIFO before it takes a token. -/
def TypistPc.willRead : TypistPc → Bool
  | .reading | .handling _ => true
  | .taking | .blocked => false

/-- Whether the usbd thread is in the loop of `rt_hw_serial_isr`. -/
def inLoop : RxPc → Bool
  | .getc | .store _ => true
  | .idle | .handler _ | .rearm => false

/-- The shell waits, and no packet is on its way to it. -/
structure Typing.Quiet (s : Typing F) : Prop where
  reader : s.reader = .blocked
  indicate : s.indicate = .idle
  usbd : s.rx.usbd = .idle
  message : s.rx.message = none

/-- The invariant: the account of the receiver, the terminal, and for what is unread a token, a
reader on its way, or a callback to come. -/
structure Typing.Follows (table : CommandTable F) (s : Typing F) : Prop where
  conserved : s.rx.Conserved
  events : ∃ shown, s.rx.reads = shown ++ s.reader.inHand ∧ s.session.events = shown.map typed
  mirrors : s.session.Mirrors (s.session.events.foldl (Terminal.next table.entries) .boot)
  waiting : s.rxSem.suspendThread = if s.reader = .blocked then [shellTid] else []
  spent : s.reader = .blocked → s.rxSem.value = 0
  covered : s.rx.fifo.unread ≠ [] →
    0 < s.rxSem.value ∨ s.reader.willRead = true ∨ s.indicate ≠ .idle ∨ inLoop s.rx.usbd = true

variable {table : CommandTable F} {s s' : Typing F}

/-! ## Steps of the receiver -/

/-- Arming the endpoint touches neither the FIFO nor the reads. -/
theorem prepare_frame (rx : VcomRx) (ops : List Usb.UsbOp) :
    (prepare rx ops).fifo = rx.fifo ∧ (prepare rx ops).reads = rx.reads ∧
      (prepare rx ops).usbd = rx.usbd := by
  induction ops generalizing rx with
  | nil => exact ⟨rfl, rfl, rfl⟩
  | cons op ops ih =>
    cases op with
    | epReadPrepare buffer size => exact ih _
    | _ => exact ih _

/-- Behind a step of the receiver the interrupt routine is in its loop, or at its end, or has left
the FIFO as it was. -/
theorem rxStep_frame {rx rx' : VcomRx} {a : RxAction} (ha : a ≠ .read)
    (hstep : rxStep rx a = some rx') :
    rx'.reads = rx.reads ∧ (inLoop rx'.usbd = true ∨ (a = .getc ∧ rx'.usbd = .rearm) ∨
      rx'.fifo = rx.fifo ∧ (inLoop rx.usbd = true → inLoop rx'.usbd = true)) := by
  cases a with
  | packet bytes =>
    simp only [rxStep] at hstep
    split at hstep
    · rw [Option.ite_none_right_eq_some, Option.some.injEq] at hstep
      obtain ⟨-, rfl⟩ := hstep
      exact ⟨rfl, .inr (.inr ⟨rfl, id⟩)⟩
    · cases hstep
  | notify =>
    simp only [rxStep] at hstep
    split at hstep
    · next hu hm =>
      cases hstep
      have hnot : ¬ inLoop rx.usbd = true := by
        rw [hu]
        decide
      simp only [rxNotify]
      split
      · obtain ⟨hfifo, hreads, -⟩ := prepare_frame { rx with epOut := _, message := none } _
        exact ⟨hreads, .inr (.inr ⟨hfifo, fun h => absurd h hnot⟩)⟩
      · obtain ⟨hfifo, hreads, -⟩ :=
          prepare_frame { rx with epOut := _, message := none, usbd := .handler _ } _
        exact ⟨hreads, .inr (.inr ⟨hfifo, fun h => absurd h hnot⟩)⟩
    · cases hstep
  | handle =>
    simp only [rxStep] at hstep
    split at hstep
    · next hu =>
      cases hstep
      unfold rxHandle
      split
      · exact ⟨rfl, .inl rfl⟩
      · refine ⟨rfl, .inr (.inr ⟨rfl, fun h => ?_⟩)⟩
        rw [hu] at h
        cases h
    · cases hstep
  | getc =>
    simp only [rxStep, Option.ite_none_right_eq_some, Option.some.injEq] at hstep
    obtain ⟨-, rfl⟩ := hstep
    unfold rxGetc
    split
    · exact ⟨rfl, .inl rfl⟩
    · exact ⟨rfl, .inr (.inl ⟨rfl, rfl⟩)⟩
  | store =>
    simp only [rxStep] at hstep
    split at hstep
    · cases hstep
      exact ⟨rfl, .inl rfl⟩
    · cases hstep
  | rearm =>
    simp only [rxStep, Option.ite_none_right_eq_some, Option.some.injEq] at hstep
    obtain ⟨hu, rfl⟩ := hstep
    have hnot : ¬ inLoop rx.usbd = true := by
      rw [hu]
      decide
    have hframe := prepare_frame { rx with
      epOut := (Usb.rtUsbdIoRequest { rx.epOut with request := { rx.epOut.request with
        buffer := some 0, size := rx.epOut.maxPacket, reqType := .readBest } }).1
      usbd := .idle }
    exact ⟨(hframe _).2.1, .inr (.inr ⟨(hframe _).1, fun h => absurd h hnot⟩)⟩
  | read => exact absurd rfl ha

namespace Typing.Follows

/-- The shell follows at the beginning. -/
theorem init (table : CommandTable F) : (typingSystem table).init.Follows table where
  conserved := conserved_init
  events := ⟨[], rfl, rfl⟩
  mirrors := ⟨⟨rfl, boot_sound, boot_remembers.keeps, rfl⟩, rfl, rfl⟩
  waiting := rfl
  spent := fun h => nomatch h
  covered := fun _ => .inr (.inl rfl)

/-- What the receiver leaves unread, somebody will look at. -/
theorem usb (h : s.Follows table) {a : RxAction} (hidle : s.indicate = .idle) (ha : a ≠ .read)
    (hstep : s.usb a = some s') : s'.Follows table := by
  obtain ⟨rx, hrx, rfl⟩ := Option.map_eq_some_iff.mp hstep
  have hconserved : rx.Conserved := conserved_step s.rx a rx h.conserved hrx
  obtain ⟨hreads, hplace⟩ := rxStep_frame ha hrx
  refine ⟨hconserved, ?_, h.mirrors, h.waiting, h.spent, fun hunread => ?_⟩
  · rw [hreads]
    exact h.events
  · rcases hplace with hloop | hend | ⟨hfifo, hloop⟩
    · exact .inr (.inr (.inr hloop))
    · exact .inr (.inr (.inl (by simp only [hend, and_self, if_true]; decide)))
    · rw [hfifo] at hunread
      rcases h.covered hunread with htoken | hread | hindicate | hin
      · exact .inl htoken
      · exact .inr (.inl hread)
      · exact absurd hidle hindicate
      · exact .inr (.inr (.inr (hloop hin)))

/-! ## The callback -/

/-- Without a callback nothing was unread. -/
theorem look (h : s.Follows table) : s.look.Follows table := by
  refine ⟨h.conserved, h.events, h.mirrors, h.waiting, h.spent, fun hunread => ?_⟩
  refine .inr (.inr (.inl ?_))
  have hlength : rxLength cdcRxBufsize s.rx.fifo.val ≠ 0 := by
    rw [← length_unread s.rx.fifo.property]
    exact fun hzero => hunread (List.eq_nil_of_length_eq_zero hzero)
  simp only [Typing.look, if_neg hlength]
  decide

/-- `finsh_rx_ind` wakes the shell, or counts a token. -/
theorem release (h : s.Follows table)
    (hcount : s.reader = .taking → s.rxSem.value + 1 < rtSemValueMod) :
    s.release.Follows table := by
  have hwait := h.waiting
  by_cases hpc : s.reader = .blocked
  · have hevents := h.events
    rw [hpc] at hevents
    rw [if_pos hpc] at hwait
    simp only [Typing.release, rtSemRelease, hwait]
    exact ⟨h.conserved, hevents, h.mirrors, rfl, by rintro ⟨⟩, fun _ => .inr (.inl rfl)⟩
  · rw [if_neg hpc] at hwait
    simp only [Typing.release, rtSemRelease, hwait]
    refine ⟨h.conserved, h.events, h.mirrors, ?_, fun hb => absurd hb hpc, fun _ => ?_⟩
    · rw [if_neg hpc]
    · cases hreader : s.reader with
      | reading => exact .inr (.inl rfl)
      | handling ch => exact .inr (.inl rfl)
      | taking =>
        refine .inl ?_
        dsimp only
        rw [Nat.mod_eq_of_lt (hcount hreader)]
        exact Nat.succ_pos _
      | blocked => exact absurd hreader hpc

/-! ## The shell thread -/

/-- Nobody waits while the shell thread is somewhere else. -/
theorem nobody (h : s.Follows table) {pc : TypistPc} (hpc : s.reader = pc) (hne : pc ≠ .blocked) :
    s.rxSem.suspendThread = [] := by
  rw [h.waiting, if_neg (hpc ▸ hne)]

/-- A shell that finds nothing leaves nothing. -/
theorem read (h : s.Follows table) (hpc : s.reader = .reading) : s.read.Follows table := by
  have hwait := h.nobody hpc (by rintro ⟨⟩)
  obtain ⟨shown, hshown, hevents⟩ := h.events
  rw [hpc] at hshown
  unfold Typing.read
  split
  · next ch fifo hget =>
    have hreads : (rxRead s.rx).reads = s.rx.reads ++ [ch] := by
      simp only [rxRead, hget]
    refine ⟨conserved_read h.conserved, ⟨shown, ?_, hevents⟩, h.mirrors, hwait, by rintro ⟨⟩,
      fun _ => .inr (.inl rfl)⟩
    dsimp only
    rw [hreads, hshown]
    exact congrArg (· ++ [ch]) (List.append_nil shown)
  · next hget =>
    refine ⟨h.conserved, ⟨shown, hshown, hevents⟩, h.mirrors, hwait, by rintro ⟨⟩,
      fun hunread => ?_⟩
    exact absurd ((RxQueue.get_eq_none s.rx.fifo).mp hget) hunread

/-- A byte that is handled is a key of the terminal. -/
theorem handle (h : s.Follows table) {ch : UInt8} (hpc : s.reader = .handling ch)
    (hok : s.session.NoOverflow (typed ch)) {session : FinshSession F}
    (hstep : (finshSession table).step s.session (typed ch) = some session) :
    Typing.Follows table { s with session, reader := .reading } := by
  have hwait := h.nobody hpc (by rintro ⟨⟩)
  obtain ⟨shown, hshown, hevents⟩ := h.events
  rw [hpc] at hshown
  have hlog : session.events = s.session.events ++ [typed ch] := by
    obtain ⟨shell, -, rfl⟩ := Option.map_eq_some_iff.mp hstep
    rfl
  refine ⟨h.conserved, ⟨shown ++ [ch], ?_, ?_⟩, ?_, hwait, by rintro ⟨⟩,
    fun _ => .inr (.inl rfl)⟩
  · exact hshown.trans (List.append_nil _).symm
  · rw [List.map_append, ← hevents]
    exact hlog
  · dsimp only
    rw [hlog, List.foldl_append]
    exact h.mirrors.step table hok hstep

/-- The shell waits only while nothing is unread, or a callback is to come. -/
theorem take (h : s.Follows table) (hpc : s.reader = .taking) : s.take.Follows table := by
  have hwait := h.nobody hpc (by rintro ⟨⟩)
  have hevents := h.events
  rw [hpc] at hevents
  by_cases hv : 0 < s.rxSem.value
  · simp only [Typing.take, rtSemTake, hv, if_true]
    exact ⟨h.conserved, hevents, h.mirrors, hwait, by rintro ⟨⟩, fun _ => .inr (.inl rfl)⟩
  · have hforever : rtWaitingForever ≠ 0 := by decide
    simp only [Typing.take, rtSemTake, hv, if_false, hforever]
    refine ⟨h.conserved, hevents, h.mirrors, ?_, fun _ => Nat.eq_zero_of_not_pos hv,
      fun hunread => ?_⟩
    · show rtIpcListSuspend s.rxSem.suspendThread shellTid s.rxSem.flag = [shellTid]
      rw [hwait]
      cases s.rxSem.flag <;> rfl
    · rcases h.covered hunread with htoken | hread | hcallback
      · exact absurd htoken hv
      · rw [hpc] at hread
        cases hread
      · exact .inr (.inr hcallback)

/-! ## Every run -/

/-- A step that is legible keeps it. -/
theorem step (h : s.Follows table) {a : TypingAction} (hok : s.Legible a)
    (hstep : (typingSystem table).step s a = some s') : s'.Follows table := by
  change Typing.step table s a = some s' at hstep
  cases a with
  | usb a =>
    rw [Typing.step, Option.ite_none_right_eq_some] at hstep
    exact h.usb hstep.1.1 hstep.1.2 hstep.2
  | look =>
    rw [Typing.step, Option.ite_none_right_eq_some, Option.some.injEq] at hstep
    exact hstep.2 ▸ h.look
  | indicate =>
    rw [Typing.step, Option.ite_none_right_eq_some, Option.some.injEq] at hstep
    exact hstep.2 ▸ h.release hok
  | read =>
    rw [Typing.step, Option.ite_none_right_eq_some, Option.some.injEq] at hstep
    exact hstep.2 ▸ h.read hstep.1
  | handle =>
    simp only [Typing.step] at hstep
    split at hstep
    · next ch hpc =>
      obtain ⟨session, hsession, rfl⟩ := Option.map_eq_some_iff.mp hstep
      simp only [Typing.Legible, hpc] at hok
      exact h.handle hpc hok hsession
    · cases hstep
  | take =>
    rw [Typing.step, Option.ite_none_right_eq_some, Option.some.injEq] at hstep
    exact hstep.2 ▸ h.take hstep.1

theorem of_reach (h : (typingSystem table).Reach Typing.Legible s) : s.Follows table :=
  h.invariant (init table) fun _ _ _ hs hok hstep => hs.step hok hstep

/-- What a shell that waits has left behind is in the hands of the receiver. -/
theorem quiet (h : s.Follows table) (hq : s.Quiet) :
    s.rx.fifo.unread = [] ∧ s.rx.underWay = [] := by
  constructor
  · by_contra hunread
    rcases h.covered hunread with htoken | hread | hindicate | hloop
    · rw [h.spent hq.reader] at htoken
      cases htoken
    · rw [hq.reader] at hread
      cases hread
    · exact hindicate hq.indicate
    · rw [hq.usbd] at hloop
      cases hloop
  · unfold VcomRx.underWay
    rw [hq.usbd, hq.message]

end Typing.Follows

/-- Typing, for every command table, every sequence of packets and every interleaving of the
receiver, the callback and the shell thread. What the shell shows, remembers and called is what the
terminal does that got the bytes `shown`; these are the bytes that the shell took from the FIFO but
the one in its hand; what the host has sent is what left the FIFO, which the shell read unless it
was the oldest of more than 127, and what is behind; and a shell that waits, with the receiver at
rest, has nothing in its hand and nothing behind. -/
theorem typing_shown (table : CommandTable F) {s : Typing F}
    (h : (typingSystem table).Reach Typing.Legible s) :
    ∃ shown behind,
      s.session.Mirrors ((shown.map typed).foldl (Terminal.next table.entries) .boot) ∧
      (s.rx.fates.filter fun f => f.2.isRead).map Prod.fst = shown ++ s.reader.inHand ∧
      s.rx.received = s.rx.fates.map Prod.fst ++ behind ∧
      (∀ f ∈ s.rx.fates, f.2 = .read ∨ ∃ n, f.2 = .discarded n ∧ 127 < n) ∧
      (s.Quiet → s.reader.inHand = [] ∧ behind = []) := by
  have hs := Typing.Follows.of_reach h
  obtain ⟨shown, hshown, hevents⟩ := hs.events
  refine ⟨shown, s.rx.fifo.unread ++ s.rx.underWay, ?_, ?_, ?_, hs.conserved.discards, fun hq => ?_⟩
  · rw [← hevents]
    exact hs.mirrors
  · rw [← hs.conserved.reads]
    exact hshown
  · rw [← List.append_assoc]
    exact hs.conserved.bytes
  · obtain ⟨hunread, hway⟩ := hs.quiet hq
    rw [hunread, hway, hq.reader]
    exact ⟨rfl, rfl⟩

/-- "h" in one packet, a tab and Enter in the next: the shell completes and calls `help`, waits,
and has nothing behind. -/
theorem typing_shown_help : ∃ s, (typingSystem helpTable).Reach Typing.Legible s ∧
    s.session.answers = [.called () [[0x68, 0x65, 0x6C, 0x70]]] ∧
    ∃ behind, s.rx.received = s.rx.fates.map Prod.fst ++ behind ∧ behind = [] := by
  obtain ⟨s, hs, hanswers, hreader, hindicate, husbd, hmessage⟩ := Machine.exists_reach_of_run
    (typingSystem helpTable) Typing.Legible
    ([.read, .take, .usb (.packet [0x68]), .usb .notify, .usb .handle, .usb .getc, .usb .store,
      .usb .getc, .look, .indicate, .read, .usb .rearm, .handle, .usb (.packet [0x09, 0x0D]),
      .usb .notify, .usb .handle, .usb .getc, .usb .store, .usb .getc, .read, .usb .store,
      .usb .getc, .handle, .look, .read, .indicate, .handle, .read, .usb .rearm, .take, .read,
      .take])
    (fun s => s.session.answers = [.called () [[0x68, 0x65, 0x6C, 0x70]]] ∧ s.reader = .blocked ∧
      s.indicate = .idle ∧ s.rx.usbd = .idle ∧ s.rx.message = none) (by decide +kernel)
  obtain ⟨-, behind, -, -, hbehind, -, hquiet⟩ := typing_shown helpTable hs
  exact ⟨s, hs, hanswers, behind, hbehind, (hquiet ⟨hreader, hindicate, husbd, hmessage⟩).2⟩

end RtVcom.Console

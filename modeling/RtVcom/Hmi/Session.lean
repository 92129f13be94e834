import RtVcom.Hmi.Command
import RtVcom.Hmi.Wakeup

/-!
# A session with the panel

From the line of uart3 to the settings: the receive interrupt, its FIFO and its semaphore
(`uart3System`), the frames that `hmi_thread` reads from it, and what `hmi_cmd_analysis` makes of
them.

The history keeps the bytes that came in and those that the thread has read. Where every byte has
an interrupt of its own, the FIFO has room for it and no wait expires, the semaphore counts exactly
the unread bytes. So each pass of the thread reads one byte, the thread has run over the bytes that
came in but for the unread ones, and it does not sleep on them. Whatever frames came in, their
settings are made in order, each of them once (`hmi_session_executes`).
-/

namespace RtVcom.Hmi

open RtVcom.Lib RtVcom.Kernel RtVcom.Serial

/-! ## The history -/

/-- The system, with the bytes that came in and those that the thread has read. -/
structure Session where
  sys : Uart3
  arrived : List UInt8
  read : List UInt8

/-- The history behind a step that leads to `sys`. -/
def Session.next (h : Session) (sys : Uart3) : Uart3Action → Session
  | .irq chars => { h with sys, arrived := h.arrived ++ chars }
  | .take | .timeout => { h with sys }
  | .read =>
    match h.sys.pc with
    | .reading err => { h with sys, read := h.read ++ (hmiReadByte h.sys err).1.toList }
    | .taking | .blocked => { h with sys }

def sessionSystem : Machine Session Uart3Action where
  init := { sys := uart3System.init, arrived := [], read := [] }
  step h a := (uart3System.step h.sys a).map (h.next · a)

/-- A byte comes alone and finds room, and no wait expires. -/
def OneByOne (h : Session) : Uart3Action → Prop
  | .irq chars => chars.length = 1 ∧ h.sys.fifo.unread.length + 1 < rtSerialRbBufsz
  | .timeout => False
  | .take | .read => True

instance : DecidableRel OneByOne
  | _, .irq _ => inferInstanceAs (Decidable (_ ∧ _))
  | _, .timeout => isFalse id
  | _, .take | _, .read => isTrue trivial

/-! ## What the thread has read -/

/-- The invariant. -/
structure Session.Followed (h : Session) : Prop where
  waiting : h.sys.sem.suspendThread = if h.sys.pc = .blocked then [hmiTid] else []
  tokens : h.sys.tokens = h.sys.fifo.unread.length
  asleep : h.sys.pc = .blocked → h.sys.sem.value = 0
  noError : ∀ err, h.sys.pc = .reading err → err = rtEok
  bytes : h.arrived = h.read ++ h.sys.fifo.unread
  hmi : hmiRun hmiInit (arriving h.read) = .ok h.sys.hmi

/-- The session is followed from the beginning. -/
theorem followed_init : sessionSystem.init.Followed where
  waiting := rfl
  tokens := by
    simp only [sessionSystem, uart3System, RxQueue.unread_empty, List.length_nil]
    rfl
  asleep := nofun
  noError := nofun
  bytes := by simp only [sessionSystem, uart3System, RxQueue.unread_empty, List.append_nil]
  hmi := rfl

/-- `uart3_input` wakes the thread where it waits, and leaves it where it is otherwise. -/
theorem uart3Input_frame (s : Uart3)
    (hwaiting : s.sem.suspendThread = if s.pc = .blocked then [hmiTid] else []) :
    (uart3Input s).hmi = s.hmi ∧
      ((uart3Input s).pc = .reading rtEok ∨ (uart3Input s).pc = s.pc ∧ s.pc ≠ .blocked) := by
  unfold uart3Input rtSemRelease
  by_cases hblocked : s.pc = .blocked
  · rw [hwaiting, if_pos hblocked]
    exact ⟨rfl, .inl rfl⟩
  · rw [hwaiting, if_neg hblocked]
    exact ⟨rfl, .inr ⟨rfl, hblocked⟩⟩

/-- A byte comes in. -/
theorem Session.Followed.irq {h : Session} (hf : h.Followed) {b : UInt8}
    (hroom : h.sys.fifo.unread.length + 1 < rtSerialRbBufsz) :
    (h.next (uart3Isr h.sys [b]) (.irq [b])).Followed := by
  have htokens := hf.tokens
  have hvalue : h.sys.pc = .blocked ∨ h.sys.sem.value + 1 < rtSemValueMod := by
    have hle : h.sys.sem.value ≤ h.sys.tokens := Nat.le_add_right _ _
    have hbufsz : rtSerialRbBufsz = 64 := rfl
    have hmod : rtSemValueMod = 0x10000 := rfl
    right
    omega
  obtain ⟨hfifo, htok, hwait⟩ :=
    uart3Input_adds { h.sys with fifo := h.sys.fifo.drain [b] } hf.waiting hvalue
  have hunread : (h.sys.fifo.drain [b]).unread = h.sys.fifo.unread ++ [b] := by
    rw [RxQueue.unread_drain, keepLast_of_length_le]
    rw [List.length_append, List.length_singleton]
    exact Nat.le_sub_one_of_lt hroom
  obtain ⟨hhmi, hpc⟩ := uart3Input_frame { h.sys with fifo := h.sys.fifo.drain [b] } hf.waiting
  dsimp only [Session.next]
  rw [uart3Isr_eq h.sys (List.cons_ne_nil b [])]
  refine ⟨hwait, ?_, fun hblocked => ?_, fun err herr => ?_, ?_, ?_⟩
  · rw [hfifo, htok, hunread, List.length_append, List.length_singleton, ← htokens]
    rfl
  · rcases hpc with hreading | ⟨hsame, hne⟩
    · exact nomatch hreading.symm.trans hblocked
    · exact absurd (hsame.symm.trans hblocked) hne
  · rcases hpc with hreading | ⟨hsame, -⟩
    · exact (HmiPc.reading.inj (hreading.symm.trans herr)).symm
    · exact hf.noError err (hsame.symm.trans herr)
  · rw [hfifo, hunread, ← List.append_assoc, ← hf.bytes]
  · rw [hhmi]
    exact hf.hmi

/-- The thread takes a token, or goes to sleep where there is none. -/
theorem Session.Followed.take {h : Session} (hf : h.Followed) (hpc : h.sys.pc = .taking) :
    (h.next (hmiTake h.sys) .take).Followed := by
  have hwaiting := hf.waiting
  have htokens := hf.tokens
  rw [if_neg (by rw [hpc]; exact HmiPc.noConfusion)] at hwaiting
  simp only [Uart3.tokens, hpc, reduceCtorEq, if_false, Nat.add_zero] at htokens
  have htime : h.sys.hmi.loop.time ≠ 0 := by
    cases h.sys.hmi.loop with
    | outer => decide
    | inner => decide
  by_cases hvalue : 0 < h.sys.sem.value
  · have htake : hmiTake h.sys = { h.sys with
        sem := { h.sys.sem with value := h.sys.sem.value - 1 }, pc := .reading rtEok } := by
      simp only [hmiTake, rtSemTake, hvalue, if_true]
    rw [htake]
    refine ⟨hwaiting, ?_, fun hblocked => HmiPc.noConfusion hblocked,
      fun err herr => (HmiPc.reading.inj herr).symm, hf.bytes, hf.hmi⟩
    simp only [Uart3.tokens, Session.next, if_true]
    omega
  · have htake : hmiTake h.sys = { h.sys with
        sem := { h.sys.sem with suspendThread := [hmiTid] }, pc := .blocked } := by
      simp only [hmiTake, rtSemTake, hvalue, if_false, htime, hwaiting, rtIpcListSuspend]
      cases h.sys.sem.flag <;> rfl
    rw [htake]
    refine ⟨rfl, ?_, fun _ => Nat.eq_zero_of_not_pos hvalue,
      fun err herr => HmiPc.noConfusion herr, hf.bytes, hf.hmi⟩
    simp only [Uart3.tokens, Session.next, reduceCtorEq, if_false]
    omega

/-- The thread reads a byte for its token. -/
theorem Session.Followed.read {h : Session} (hf : h.Followed) {err : Int}
    (hpc : h.sys.pc = .reading err) {t : Uart3} (hstep : hmiReadPass h.sys err = some t) :
    (h.next t .read).Followed := by
  obtain rfl := hf.noError err hpc
  have htokens := hf.tokens
  simp only [Uart3.tokens, hpc, if_true] at htokens
  have hreads : passReads h.sys.hmi.loop rtEok = true := by
    cases h.sys.hmi.loop <;> rfl
  cases hget : h.sys.fifo.get with
  | none =>
    rw [(RxQueue.get_eq_none h.sys.fifo).mp hget] at htokens
    cases htokens
  | some taken =>
    obtain ⟨b, fifo⟩ := taken
    have hbyte : hmiReadByte h.sys rtEok = (some b, fifo) := by
      unfold hmiReadByte
      rw [if_pos hreads, hget]
    have hunread := RxQueue.get_eq_some hget
    unfold hmiReadPass at hstep
    rw [hbyte] at hstep
    dsimp only at hstep
    split at hstep
    · next hmi hpass =>
      cases hstep
      have hnext : h.next { h.sys with fifo, pc := .taking, hmi } .read =
          { sys := { h.sys with fifo, pc := .taking, hmi }
            arrived := h.arrived
            read := h.read ++ [b] } := by
        unfold Session.next
        rw [hpc]
        dsimp only
        rw [hbyte, Option.toList_some]
      rw [hnext]
      refine ⟨?_, ?_, fun hblocked => HmiPc.noConfusion hblocked,
        fun err herr => HmiPc.noConfusion herr, ?_, ?_⟩
      · have hwaiting := hf.waiting
        rw [if_neg (by rw [hpc]; exact HmiPc.noConfusion)] at hwaiting
        exact hwaiting
      · rw [hunread, List.length_cons] at htokens
        simp only [Uart3.tokens, reduceCtorEq, if_false, Nat.add_zero]
        omega
      · rw [hf.bytes, hunread, List.append_assoc, List.singleton_append]
      · rw [arriving_append, hmiRun_append, hf.hmi]
        change (hmiStep h.sys.hmi ⟨.token, some b⟩).bind (fun t => .ok t) = .ok hmi
        have hpossible : Wakeup.token.possible h.sys.hmi.loop.time = true := by
          cases h.sys.hmi.loop <;> rfl
        rw [hmiStep, if_pos hpossible]
        change (hmiPass h.sys.hmi rtEok (some b)).bind (fun t => .ok t) = .ok hmi
        rw [hpass]
        rfl
    · cases hstep

/-- A step with one byte at a time is followed. -/
theorem followed_step (h : Session) (a : Uart3Action) (h' : Session) (hf : h.Followed)
    (hok : OneByOne h a) (hstep : sessionSystem.step h a = some h') : h'.Followed := by
  obtain ⟨t, ht, rfl⟩ := Option.map_eq_some_iff.mp hstep
  simp only [uart3System] at ht
  cases a with
  | irq chars =>
    simp only [uart3Step, Option.ite_none_left_eq_some, Option.some.injEq] at ht
    obtain ⟨-, rfl⟩ := ht
    obtain ⟨b, rfl⟩ := List.length_eq_one_iff.mp hok.1
    exact hf.irq hok.2
  | take =>
    simp only [uart3Step, Option.ite_none_right_eq_some, Option.some.injEq] at ht
    obtain ⟨hpc, rfl⟩ := ht
    exact hf.take hpc
  | timeout => exact hok.elim
  | read =>
    simp only [uart3Step] at ht
    cases hpc : h.sys.pc with
    | taking => rw [hpc] at ht; cases ht
    | blocked => rw [hpc] at ht; cases ht
    | reading err =>
      rw [hpc] at ht
      exact hf.read hpc ht

/-! ## The frames -/

/-- The thread over whole frames. -/
theorem hmiRun_frames (frames : List PanelFrame) (calls : List (List UInt8)) :
    hmiRun (idle 0 calls) (arriving (frames.flatMap PanelFrame.bytes)) =
      .ok (idle 0 (calls ++ frames.map fun f => padded f.payload.bytes)) := by
  induction frames generalizing calls with
  | nil => rw [List.flatMap_nil, List.map_nil, List.append_nil]; rfl
  | cons f frames ih =>
    rw [List.flatMap_cons, arriving_append, hmiRun_append, hmiRun_frame]
    change hmiRun (idle 0 (calls ++ [padded f.payload.bytes])) _ = _
    rw [ih, List.map_cons, List.append_assoc, List.singleton_append]

/-- In every interleaving of the interrupts and the thread in which each byte has an interrupt of
its own and finds room and no wait expires: the thread is not suspended while bytes are unread, and
when the bytes of some frames have come in and none is unread, their payloads (1 to 29 bytes without
the end byte and NUL) were dispatched in order, each of them once, and the settings are those that
they ask for, one after another. -/
theorem hmi_session_executes (p : Panel) {h : Session} (hr : sessionSystem.Reach OneByOne h) :
    (h.sys.fifo.unread ≠ [] → h.sys.pc ≠ .blocked) ∧
      ∀ (frames : List PanelFrame) (trail : Noise), (∀ f ∈ frames, 0 ∉ f.payload.bytes) →
        h.arrived = frames.flatMap PanelFrame.bytes ++ trail.bytes → h.sys.fifo.unread = [] →
        h.sys.hmi.calls = (frames.map fun f => padded f.payload.bytes) ∧
        (h.sys.hmi.calls.map (List.map UInt8.toBitVec)).foldlM hmiCmdAnalysis p =
          some ((frames.filterMap PanelFrame.setting).foldl Panel.apply p) := by
  have hf : h.Followed := hr.invariant followed_init followed_step
  refine ⟨fun hunread hblocked => ?_, fun frames trail hnul harrived hunread => ?_⟩
  · have htokens := hf.tokens
    have hpos := List.length_pos_iff.mpr hunread
    simp only [Uart3.tokens, hblocked, reduceCtorEq, if_false, hf.asleep hblocked] at htokens
    omega
  · have hbytes := hf.bytes
    rw [hunread, List.append_nil, harrived] at hbytes
    have hhmi := hf.hmi
    rw [← hbytes, hmiInit_eq_idle, arriving_append, hmiRun_append, hmiRun_frames] at hhmi
    change hmiRun (idle 0 _) _ = _ at hhmi
    rw [hmiRun_noise _ trail.quiet] at hhmi
    have hcalls := congrArg HmiState.calls (Except.ok.inj hhmi)
    have hcalls : h.sys.hmi.calls = frames.map fun f => padded f.payload.bytes := hcalls.symm
    refine ⟨hcalls, ?_⟩
    rw [hcalls, List.map_map]
    exact foldlM_frames p frames hnul

/-- The bytes of `f0=11000000` come in before the thread reads, but for the first one. -/
theorem hmi_session_executes_retune :
    ∃ h, sessionSystem.Reach OneByOne h ∧
      (h.sys.hmi.calls.map (List.map UInt8.toBitVec)).foldlM hmiCmdAnalysis Panel.boot =
        some (Panel.boot.apply (.f0 11000000)) := by
  let frame : PanelFrame := ⟨⟨[], List.not_mem_nil⟩,
    ⟨retune, List.cons_ne_nil _ _, by decide, by decide⟩⟩
  obtain ⟨h, hreach, harrived, hunread⟩ := Machine.exists_reach_of_run sessionSystem OneByOne
    ([.take, .irq [0xFE], .read] ++ retune.map (.irq [·]) ++ [.irq [0xFF]] ++
      (List.replicate 12 [.take, .read]).flatten ++ [.take])
    (fun h => h.arrived = frame.bytes ∧ h.sys.fifo.unread = []) (by decide +kernel)
  obtain ⟨-, hcalls⟩ := (hmi_session_executes Panel.boot hreach).2 [frame] ⟨[], List.not_mem_nil⟩
    (by decide) harrived hunread
  have hsettings : [frame].filterMap PanelFrame.setting = [.f0 11000000] := by decide
  rw [hsettings] at hcalls
  exact ⟨h, hreach, hcalls⟩

end RtVcom.Hmi

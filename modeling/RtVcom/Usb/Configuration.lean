import RtVcom.Usb.Effect

/-!
# Configured and detached

Two laws couple the state of the device with its function and the controller. A configured device
can receive: its function is enabled, and a read stands prepared on the bulk-OUT endpoint since
that endpoint was last restarted. A detached device runs no function: it is not enabled, the line
is down and the buffer of the bulk-OUT endpoint is given back.

Neither holds in every run. `FUNC_ENABLE` prepares the read only when the function was not enabled
yet, while `_set_config` and `_set_interface` restart the endpoints every time; and a reset stops
the function only in two states, `FUNC_DISABLE` does nothing to a function that is not enabled,
and the line state is set whether the function runs or not. `KeepsReceiving` and `KeepsStopped`
name the events that go wrong, each judged in the state it is met in: in every run without them
the laws hold.
-/

namespace RtVcom.Usb

open RtVcom.Kernel RtVcom.Lib RtVcom.Lib.Machine

/-! ## A configured device can receive -/

/-- The function is enabled and a read stands prepared. -/
def Receives (s : Udevice) : Prop :=
  s.state = .configured → s.enabled = true ∧ s.outPrepared = true

/-- The endpoints are restarted only where the function is enabled behind it: SET_CONFIGURATION
finds the function not enabled and its bulk-OUT endpoint not stalled, and SET_INTERFACE for the
data interface is refused. -/
def KeepsReceiving (s : Udevice) : UsbEvent → Prop
  | .message _ (.setupNotify setup) =>
    (setup.SetsConfiguration → s.enabled = false ∧ (s.ep .epOut).stalled = false) ∧
      (setup.SetsDataInterface → s.state ≠ .configured)
  | _ => True

instance : DecidableRel KeepsReceiving
  | _, .message _ (.setupNotify _) => inferInstanceAs (Decidable (_ ∧ _))
  | _, .message _ (.dataNotify _ _ _) | _, .message _ (.ep0Out _ _)
  | _, .message _ .epClearFeature | _, .message _ .sof | _, .message _ .reset
  | _, .message _ .plugIn | _, .message _ .plugOut | _, .transmit _ _
  | _, .ep0Interrupt _ => isTrue trivial

/-- A quiet step lets the device receive on. -/
theorem Receives.of_quiet {s t : Udevice} (h : Receives s) (hq : Quiet s t) : Receives t := by
  intro hstate
  obtain ⟨he, hp⟩ := h (hq.state.symm.trans hstate)
  exact ⟨hq.enabled.trans he, hq.outPrepared hp⟩

/-- A device in another state owes nothing. -/
theorem Receives.of_state {t : Udevice} (h : t.state ≠ .configured) : Receives t :=
  fun hstate => absurd hstate h

/-- A setup packet that keeps the rule lets the device receive on. -/
theorem Receives.setup {s t : Udevice} {setup : Urequest} {malloc : Option Nat} (h : Receives s)
    (hok : KeepsReceiving s (.message malloc (.setupNotify setup)))
    (he : SetupEffect s setup t) : Receives t := by
  cases he with
  | quiet hq => exact h.of_quiet hq
  | address hq => exact Receives.of_state fun hstate => nomatch hq.state.symm.trans hstate
  | controlLine _ hq =>
    have h' : Receives { s with connected := setup.wValue.getLsbD 0 } := h
    exact h'.of_quiet hq
  | configure hset hc =>
    obtain ⟨hen, hstall⟩ := hok.1 hset
    exact fun _ => ⟨hc.enabled, hc.outPrepared hen hstall⟩
  | restart hset hstate _ => exact absurd hstate (hok.2 hset)

theorem Receives.step {s t : Udevice} {a : UsbEvent} (h : Receives s) (hok : KeepsReceiving s a)
    (he : Effect s a t) : Receives t := by
  cases he with
  | quiet hq => exact h.of_quiet hq
  | setup he => exact h.setup hok he
  | reset _ => exact Receives.of_state nofun
  | resetOther _ => exact Receives.of_state nofun
  | plugIn => exact Receives.of_state nofun
  | plugOut =>
    refine Receives.of_state fun hstate => ?_
    rw [funcDisable_state] at hstate
    cases hstate

/-- A configured device can receive, in every run whose restarts of the bulk-OUT endpoint are
followed by an enabling of the function. -/
theorem configured_receives {s : Udevice} (h : usbSystem.Reach KeepsReceiving s)
    (hstate : s.state = .configured) : s.enabled = true ∧ s.outPrepared = true := by
  have hinv : Cdc s ∧ Receives s := by
    refine h.invariant (P := fun s => Cdc s ∧ Receives s)
      ⟨⟨rfl, fun _ => rfl⟩, Receives.of_state (t := cdcDevice) nofun⟩ ?_
    intro s a t ⟨hcdc, hrec⟩ hok hstep
    have he := usbStep_effect hcdc hstep
    exact ⟨he.cdc hcdc, hrec.step hok he⟩
  exact hinv.2 hstate

/-- A setup packet without data. -/
def setupPacket (requestType bRequest : BitVec 8) (wValue wIndex : BitVec 16) : Urequest :=
  { requestType, bRequest, wValue, wIndex, wLength := 0 }

/-- SET_CONFIGURATION(1), SET_CONTROL_LINE_STATE with the terminal ready, and a message that is no
setup packet. -/
def setConfiguration : UsbEvent := .message (some 0x400) (.setupNotify (setupPacket 0x00 0x09 1 0))
def setLineState : UsbEvent := .message none (.setupNotify (setupPacket 0x21 0x22 1 0))
def event (msg : UdevMsg) : UsbEvent := .message none msg

/-- A device that is configured, receives a packet, is reset and configured again. -/
theorem configured_receives_again :
    ∃ s, (usbSystem.Reach KeepsReceiving s ∧ s.state = .configured) ∧
      s.enabled = true ∧ s.outPrepared = true := by
  obtain ⟨s, h, hstate⟩ := exists_reach_of_run usbSystem KeepsReceiving
    [setConfiguration, event (.dataNotify 0x01 5 0), event .reset, setConfiguration]
    (fun s => s.state = .configured) (by decide)
  exact ⟨s, ⟨h, hstate⟩, configured_receives h hstate⟩

/-- A host that configures the device twice restarts the bulk-OUT endpoint under a function that
stays enabled, and no read is prepared again. -/
theorem configured_twice_receives_nothing :
    ¬∀ s, usbSystem.Reach Machine.any s → s.state = .configured →
      s.enabled = true ∧ s.outPrepared = true := by
  intro hall
  obtain ⟨s, h, hstate, hprep⟩ := exists_reach_of_run usbSystem Machine.any
    [setConfiguration, setConfiguration]
    (fun s => s.state = .configured ∧ s.outPrepared = false) (by decide)
  have hrec := (hall s h hstate).2
  rw [hprep] at hrec
  cases hrec

/-! ## A detached device runs no function -/

/-- The function is stopped and its line is down while the device is detached. A function that is
not enabled has given its buffer back. -/
structure Stopped (s : Udevice) : Prop where
  enabled : s.state = .notAttached → s.enabled = false
  connected : s.state = .notAttached → s.connected = false
  buffer : s.enabled = false → (s.ep .epOut).buffer = none

/-- The events that leave a detached device stopped: a reset or an unplugging finds the line down
where `FUNC_DISABLE` will do nothing, a reset in the states that do not stop the function finds it
stopped, and the line is raised while the device is attached only. -/
def KeepsStopped (s : Udevice) : UsbEvent → Prop
  | .message _ (.setupNotify setup) =>
    setup.SetsControlLine → setup.wValue.getLsbD 0 = true → s.state ≠ .notAttached
  | .message _ .reset =>
    (s.state = .address ∨ s.state = .configured → s.enabled = true ∨ s.connected = false) ∧
      (¬(s.state = .address ∨ s.state = .configured) → s.enabled = false ∧ s.connected = false)
  | .message _ .plugOut => s.enabled = true ∨ s.connected = false
  | _ => True

instance : DecidableRel KeepsStopped
  | _, .message _ (.setupNotify _) => inferInstanceAs (Decidable (_ → _ → _))
  | _, .message _ .reset => inferInstanceAs (Decidable (_ ∧ _))
  | _, .message _ .plugOut => inferInstanceAs (Decidable (_ ∨ _))
  | _, .message _ (.dataNotify _ _ _) | _, .message _ (.ep0Out _ _)
  | _, .message _ .epClearFeature | _, .message _ .sof | _, .message _ .plugIn | _, .transmit _ _
  | _, .ep0Interrupt _ => isTrue trivial

/-- Nothing that the law speaks of has changed. -/
theorem Stopped.of_kept {s t : Udevice} (h : Stopped s) (hk : Kept s t) : Stopped t where
  enabled hstate := hk.enabled.trans (h.enabled (hk.state.symm.trans hstate))
  connected hstate := hk.connected.trans (h.connected (hk.state.symm.trans hstate))
  buffer he := hk.buffer.trans (h.buffer (hk.enabled.symm.trans he))

/-- An attached device owes the buffer only. -/
theorem Stopped.of_state {t : Udevice} (hstate : t.state ≠ .notAttached)
    (hbuf : t.enabled = false → (t.ep .epOut).buffer = none) : Stopped t :=
  ⟨fun h => absurd h hstate, fun h => absurd h hstate, hbuf⟩

/-- `FUNC_DISABLE` stops a function that is enabled, and leaves one whose line is down. -/
theorem Stopped.funcDisable {s : Udevice} (hbuf : s.enabled = false → (s.ep .epOut).buffer = none)
    (hok : s.enabled = true ∨ s.connected = false) (state : UdeviceState) :
    Stopped { funcDisable s with state } where
  enabled _ := funcDisable_enabled s
  connected _ := by
    refine (funcDisable_connected s).trans ?_
    rcases hok with he | hc
    · rw [he, Bool.not_true, Bool.false_and]
    · rw [hc, Bool.and_false]
  buffer _ := by
    refine (funcDisable_buffer s).trans ?_
    split
    · rfl
    · next he => exact hbuf (eq_false_of_ne_true he)

/-- A device that is stopped stays so behind a setup packet that keeps the rule. -/
theorem Stopped.setup {s t : Udevice} {setup : Urequest} {malloc : Option Nat} (h : Stopped s)
    (hok : KeepsStopped s (.message malloc (.setupNotify setup)))
    (he : SetupEffect s setup t) : Stopped t := by
  cases he with
  | quiet hq => exact h.of_kept hq.toKept
  | address hq =>
    have h' : Stopped { s with state := .address } := Stopped.of_state nofun h.buffer
    exact h'.of_kept hq.toKept
  | controlLine hset hq =>
    have h' : Stopped { s with connected := setup.wValue.getLsbD 0 } := by
      refine ⟨h.enabled, fun hstate => ?_, h.buffer⟩
      exact eq_false_of_ne_true fun hbit => hok hset hbit hstate
    exact h'.of_kept hq.toKept
  | configure _ hc =>
    refine Stopped.of_state (fun hstate => ?_) fun he => ?_
    · rw [hc.state] at hstate
      cases hstate
    · rw [hc.enabled] at he
      cases he
  | restart _ _ hk => exact h.of_kept hk

theorem Stopped.step {s t : Udevice} {a : UsbEvent} (h : Stopped s) (hok : KeepsStopped s a)
    (he : Effect s a t) : Stopped t := by
  cases he with
  | quiet hq => exact h.of_kept hq.toKept
  | setup he => exact h.setup hok he
  | reset hstate => exact Stopped.funcDisable h.buffer (hok.1 hstate) _
  | resetOther hstate =>
    obtain ⟨he, hc⟩ := hok.2 hstate
    exact ⟨fun _ => he, fun _ => hc, h.buffer⟩
  | plugIn => exact Stopped.of_state nofun h.buffer
  | plugOut =>
    have hd := Stopped.funcDisable (s := { s with state := .notAttached }) h.buffer hok
    exact hd (Usb.funcDisable { s with state := .notAttached }).state

/-- A detached device runs no function, in every run of such events. -/
theorem detached_stopped {s : Udevice} (h : usbSystem.Reach KeepsStopped s)
    (hstate : s.state = .notAttached) :
    s.enabled = false ∧ s.connected = false ∧ (s.ep .epOut).buffer = none := by
  have hinv : Cdc s ∧ Stopped s := by
    refine h.invariant (P := fun s => Cdc s ∧ Stopped s)
      ⟨⟨rfl, fun _ => rfl⟩, ⟨fun _ => rfl, fun _ => rfl, fun _ => rfl⟩⟩ ?_
    intro s a t ⟨hcdc, hs⟩ hok hstep
    have he := usbStep_effect hcdc hstep
    exact ⟨he.cdc hcdc, hs.step hok he⟩
  have he := hinv.2.enabled hstate
  exact ⟨he, hinv.2.connected hstate, hinv.2.buffer he⟩

/-- A device that is configured, with the line raised, and then unplugged. -/
theorem detached_stopped_unplugged :
    ∃ s, (usbSystem.Reach KeepsStopped s ∧ s.state = .notAttached) ∧
      s.enabled = false ∧ s.connected = false ∧ (s.ep .epOut).buffer = none := by
  obtain ⟨s, h, hstate⟩ := exists_reach_of_run usbSystem KeepsStopped
    [event .plugIn, setConfiguration, setLineState, event .plugOut]
    (fun s => s.state = .notAttached) (by decide)
  exact ⟨s, ⟨h, hstate⟩, detached_stopped h hstate⟩

/-- Plugged in again before the reset arrives, the device is detached with its function running. -/
theorem detached_runs_function :
    ¬∀ s, usbSystem.Reach Machine.any s → s.state = .notAttached →
      s.enabled = false ∧ s.connected = false ∧ (s.ep .epOut).buffer = none := by
  intro hall
  obtain ⟨s, h, hstate, hen⟩ := exists_reach_of_run usbSystem Machine.any
    [setConfiguration, event .plugIn, event .reset]
    (fun s => s.state = .notAttached ∧ s.enabled = true) (by decide)
  have hoff := (hall s h hstate).1
  rw [hen] at hoff
  cases hoff

end RtVcom.Usb

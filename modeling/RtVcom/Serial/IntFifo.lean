import RtVcom.Lib.BoundedQueue
import RtVcom.Lib.Object
import RtVcom.Serial.RxFifo

/-!
# The serial receive FIFO in interrupt mode, under interleaved calls

The loops of `rt_hw_serial_isr` and `_serial_int_rx` lock out interrupts for one pass only, so a
character can arrive between two passes of a reader, and one reader can overtake another. The
calls of the object below are these passes. It stands for a queue of `bufsz - 1` bytes that
discards its oldest (`int_fifo_refines_queue`): readers return what the queue hands out, and the
callback is told its length.
-/

namespace RtVcom.Serial

open RtVcom.Lib

/-! ## The passes -/

/-- A call of `_serial_int_rx` under way: its variables `size` and `length`, and what it has
stored at `data`. -/
structure IntRead where
  size : Int
  length : Int
  data : List UInt8
deriving Repr, DecidableEq

/-- A FIFO with the calls of `_serial_int_rx` under way, by reader. -/
structure Readers (ρ σ : Type) where
  fifo : σ
  reads : ρ → Option IntRead

/-- The passes: a character that `getc` handed out, the end of the interrupt with `rx_indicate` set
or not, a call of `_serial_int_rx`, and a pass of its loop. -/
inductive IntCall (ρ : Type)
  | received (ch : UInt8)
  | indicate (rxIndicate : Bool)
  | read (reader : ρ) (length : Int)
  | turn (reader : ρ)
deriving Repr, DecidableEq

/-- What they answer: the length that `rx_indicate` is called with, and the bytes of a call of
`_serial_int_rx` with the number it returns. -/
inductive IntAnswer
  | none
  | indicated (rxLength : Nat)
  | returned (data : List UInt8) (count : Int)
deriving Repr, DecidableEq

variable {ρ : Type}

/-- The call of one reader replaced. -/
def Readers.set {σ : Type} [DecidableEq ρ] (s : Readers ρ σ) (reader : ρ) (read : Option IntRead) :
    Readers ρ σ :=
  { s with reads := fun other => if other = reader then read else s.reads other }

/-- A new call of `_serial_int_rx` of a reader that is in none. -/
def Readers.start {σ : Type} [DecidableEq ρ] (s : Readers ρ σ) (reader : ρ) (length : Int) :
    Readers ρ σ :=
  match s.reads reader with
  | none => s.set reader (some { size := length, length, data := [] })
  | some _ => s

/-- A pass of the code. -/
def intCall [DecidableEq ρ] (bufsz : Nat) (s : Readers ρ RxFifo) :
    IntCall ρ → Readers ρ RxFifo × IntAnswer
  | .received ch => ({ s with fifo := isrPut bufsz s.fifo ch }, .none)
  | .indicate rxIndicate =>
    if rxIndicate = true ∧ rxLength bufsz s.fifo ≠ 0 then (s, .indicated (rxLength bufsz s.fifo))
    else (s, .none)
  | .read reader length => (s.start reader length, .none)
  | .turn reader =>
    match s.reads reader with
    | none => (s, .none)
    | some read =>
      if read.length = 0 then
        (s.set reader none, .returned read.data (read.size - read.length))
      else
        match serialIntRxByte bufsz s.fifo with
        | none => (s.set reader none, .returned read.data (read.size - read.length))
        | some (ch, fifo) =>
          ({ s with fifo }.set reader
            (some { read with length := read.length - 1, data := read.data ++ [ch] }), .none)

/-- The same pass on a queue that discards its oldest: a reader takes the front, and returns how
many bytes it took. -/
def dropOldestCall [DecidableEq ρ] {capacity : Nat} (s : Readers ρ (BoundedQueue UInt8 capacity)) :
    IntCall ρ → Readers ρ (BoundedQueue UInt8 capacity) × IntAnswer
  | .received ch => ({ s with fifo := s.fifo.force ch }, .none)
  | .indicate rxIndicate =>
    if rxIndicate = true ∧ s.fifo.items.length ≠ 0 then (s, .indicated s.fifo.items.length)
    else (s, .none)
  | .read reader length => (s.start reader length, .none)
  | .turn reader =>
    match s.reads reader with
    | none => (s, .none)
    | some read =>
      if read.length = 0 then (s.set reader none, .returned read.data read.data.length)
      else
        match s.fifo.items with
        | [] => (s.set reader none, .returned read.data read.data.length)
        | ch :: _ =>
          ({ s with fifo := s.fifo.dropFront 1 }.set reader
            (some { read with length := read.length - 1, data := read.data ++ [ch] }), .none)

/-- The FIFO as `rt_serial_open` sets it up, with no reader. -/
def intFifoObject (ρ : Type) [DecidableEq ρ] (bufsz : Nat) :
    Object (Readers ρ RxFifo) (IntCall ρ) IntAnswer where
  init := { fifo := rxFifoInit bufsz, reads := fun _ => none }
  call := intCall bufsz

/-- The empty queue, with no reader. -/
def dropOldestObject (ρ : Type) [DecidableEq ρ] (capacity : Nat) :
    Object (Readers ρ (BoundedQueue UInt8 capacity)) (IntCall ρ) IntAnswer where
  init := { fifo := .empty, reads := fun _ => none }
  call := dropOldestCall

/-! ## The refinement -/

variable {bufsz : Nat} {s : Readers ρ RxFifo} {t : Readers ρ (BoundedQueue UInt8 (bufsz - 1))}

/-- The FIFO stands for the queue, and the readers of both are at the same point, with the bytes
counted that they have. -/
structure IntStands (bufsz : Nat) (s : Readers ρ RxFifo)
    (t : Readers ρ (BoundedQueue UInt8 (bufsz - 1))) : Prop where
  valid : s.fifo.Valid bufsz
  unread : s.fifo.unread bufsz = t.fifo.items
  reads : s.reads = t.reads
  counted : ∀ reader read, s.reads reader = some read →
    read.size - read.length = read.data.length

/-- The length is that of the queue it stands for. -/
theorem IntStands.rxLength_eq (h : IntStands bufsz s t) :
    rxLength bufsz s.fifo = t.fifo.items.length := by
  rw [← h.unread, length_unread h.valid]

/-- A pass of a reader that finds a byte takes the front of the queue. -/
theorem IntStands.take (h : IntStands bufsz s t) {ch : UInt8} {fifo : RxFifo}
    (hbyte : serialIntRxByte bufsz s.fifo = some (ch, fifo)) :
    t.fifo.items = ch :: fifo.unread bufsz ∧
      IntStands bufsz { s with fifo } { t with fifo := t.fifo.dropFront 1 } := by
  have hunread := serialIntRxByte_eq_some h.valid hbyte
  rw [h.unread] at hunread
  refine ⟨hunread, serialIntRxByte_valid h.valid hbyte, ?_, h.reads, h.counted⟩
  rw [BoundedQueue.items_dropFront, hunread, List.drop_one, List.tail_cons]

variable [DecidableEq ρ]

/-- One reader's call changes on both sides. -/
theorem IntStands.set (h : IntStands bufsz s t) (reader : ρ) {read : Option IntRead}
    (hcounted : ∀ call, read = some call → call.size - call.length = call.data.length) :
    IntStands bufsz (s.set reader read) (t.set reader read) := by
  refine ⟨h.valid, h.unread, ?_, fun other call hcall => ?_⟩
  · rw [Readers.set, Readers.set, h.reads]
  · simp only [Readers.set] at hcall
    split at hcall
    · exact hcounted call hcall
    · exact h.counted other call hcall

theorem IntStands.start (h : IntStands bufsz s t) (reader : ρ) (length : Int) :
    IntStands bufsz (s.start reader length) (t.start reader length) := by
  rw [Readers.start, Readers.start, ← h.reads]
  cases s.reads reader with
  | some _ => exact h
  | none =>
    refine h.set reader fun call hcall => ?_
    cases hcall
    exact Int.sub_self length

/-- One pass: the FIFO answers as the queue does and stands for it again. -/
theorem IntStands.call (h : IntStands bufsz s t) (call : IntCall ρ) :
    (intCall bufsz s call).2 = (dropOldestCall t call).2 ∧
      IntStands bufsz (intCall bufsz s call).1 (dropOldestCall t call).1 := by
  cases call with
  | received ch =>
    refine ⟨rfl, isrPut_valid h.valid ch, ?_, h.reads, h.counted⟩
    rw [intCall, unread_isrPut h.valid, h.unread]
    rfl
  | indicate rxIndicate =>
    simp only [intCall, dropOldestCall, h.rxLength_eq]
    split
    · exact ⟨rfl, h⟩
    · exact ⟨rfl, h⟩
  | read reader length => exact ⟨rfl, h.start reader length⟩
  | turn reader =>
    have hdone : IntStands bufsz (s.set reader none) (t.set reader none) :=
      h.set reader fun call hcall => by cases hcall
    have hsame : s.reads reader = t.reads reader := congrFun h.reads reader
    cases hread : s.reads reader with
    | none =>
      simp only [intCall, dropOldestCall, ← hsame, hread]
      exact ⟨trivial, h⟩
    | some read =>
      have hcount := h.counted reader read hread
      simp only [intCall, dropOldestCall, ← hsame, hread, hcount]
      by_cases hzero : read.length = 0
      · rw [if_pos hzero, if_pos hzero]
        exact ⟨rfl, hdone⟩
      · rw [if_neg hzero, if_neg hzero]
        cases hbyte : serialIntRxByte bufsz s.fifo with
        | none =>
          have hempty := (serialIntRxByte_eq_none h.valid).mp hbyte
          rw [h.unread] at hempty
          simp only [hempty]
          exact ⟨trivial, hdone⟩
        | some taken =>
          obtain ⟨ch, fifo⟩ := taken
          obtain ⟨hitems, hnext⟩ := h.take hbyte
          simp only [hitems]
          refine ⟨trivial, hnext.set reader fun call hcall => ?_⟩
          cases hcall
          simp only [List.length_append, List.length_singleton]
          omega

theorem intStands_init (hroom : 2 ≤ bufsz) :
    IntStands bufsz (intFifoObject ρ bufsz).init (dropOldestObject ρ (bufsz - 1)).init :=
  ⟨rxFifoInit_valid hroom, unread_rxFifoInit, rfl, fun _ _ hread => by cases hread⟩

/-- Whatever the order of the passes of interrupts and readers, the FIFO of `bufsz` bytes answers
as the queue of `bufsz - 1` bytes that discards its oldest, and holds what that queue holds. -/
theorem int_fifo_refines_queue (hroom : 2 ≤ bufsz) (calls : List (IntCall ρ)) :
    let fifo := (intFifoObject ρ bufsz).run (intFifoObject ρ bufsz).init calls
    let queue := (dropOldestObject ρ (bufsz - 1)).run (dropOldestObject ρ (bufsz - 1)).init calls
    fifo.2 = queue.2 ∧ fifo.1.fifo.unread bufsz = queue.1.fifo.items ∧
      fifo.1.fifo.putIndex < bufsz ∧ fifo.1.fifo.getIndex < bufsz := by
  obtain ⟨hanswers, hstands⟩ := Object.run_refines (O := intFifoObject ρ bufsz)
    (A := dropOldestObject ρ (bufsz - 1)) (R := IntStands bufsz) (fun _ _ call h _ => h.call call)
    (intStands_init hroom) (Object.meets_anyCall _ _ calls)
  exact ⟨hanswers, hstands.unread, hstands.valid.put_lt, hstands.valid.get_lt⟩

/-- A FIFO of three bytes with an overrun between two passes of a reader. -/
theorem int_fifo_refines_queue_three :
    let calls : List (IntCall Unit) := [.received 1, .received 2, .read () 2, .turn (),
      .received 3, .received 4, .indicate true, .turn (), .turn (), .indicate true]
    let fifo := (intFifoObject Unit 3).run (intFifoObject Unit 3).init calls
    let queue := (dropOldestObject Unit 2).run (dropOldestObject Unit 2).init calls
    fifo.2 = queue.2 ∧ fifo.1.fifo.unread 3 = queue.1.fifo.items ∧
      fifo.1.fifo.putIndex < 3 ∧ fifo.1.fifo.getIndex < 3 :=
  int_fifo_refines_queue (by decide) _

end RtVcom.Serial

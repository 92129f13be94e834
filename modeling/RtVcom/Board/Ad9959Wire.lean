import RtVcom.Board.Ad9959

/-!
# The waveform of the AD9959

What `ad9959_write_data` puts on the wires, for a receiver that knows nothing of registers. It looks
at the levels of CS, SCLK, SDIO0 and UPDATE, whatever they were before the call, samples SDIO0 on a
rising edge of SCLK while CS is low, and puts eight samples into a byte, the most significant first.

The law is `ad9959WriteData_decodes`: the samples are those of the address and of the data, and the
edges of UPDATE stand between the last sample and the rising edge of CS.
-/

namespace RtVcom.Board.Ad9959

/-! ## The receiver -/

/-- The levels of the wires. -/
structure Wires where
  cs : Bool
  sclk : Bool
  sdio0 : Bool
  update : Bool
deriving Repr, DecidableEq

/-- What a receiver sees of a pin that is written. -/
inductive Edge
  | bit (level : Bool)
  | updateRises
  | updateFalls
  | csRises
deriving Repr, DecidableEq

/-- The wires behind a write. -/
def Wires.pin (w : Wires) : PinWrite → Wires
  | .cs level => { w with cs := level }
  | .sclk level => { w with sclk := level }
  | .sdio0 level => { w with sdio0 := level }
  | .update level => { w with update := level }

/-- What a write shows. A level that is written again is no edge. -/
def Wires.edge (w : Wires) : PinWrite → List Edge
  | .cs level => if level ∧ !w.cs then [.csRises] else []
  | .sclk level => if level ∧ !w.sclk ∧ !w.cs then [.bit w.sdio0] else []
  | .sdio0 _ => []
  | .update level =>
    if level ∧ !w.update then [.updateRises] else if !level ∧ w.update then [.updateFalls] else []

def Wires.pins (w : Wires) (writes : List PinWrite) : Wires := writes.foldl Wires.pin w

/-- What some writes show, in their order. -/
def Wires.edges : Wires → List PinWrite → List Edge
  | _, [] => []
  | w, p :: writes => w.edge p ++ (w.pin p).edges writes

/-- The samples among the edges. -/
def sampled (edges : List Edge) : List Bool :=
  edges.filterMap fun
    | .bit level => some level
    | _ => none

/-- A bit is shifted in. -/
def shiftBit (acc : BitVec 8) (bit : Bool) : BitVec 8 := acc <<< 1 ||| (if bit then 1 else 0)

/-- A byte, its most significant bit first. -/
def byteOfBits (bits : List Bool) : BitVec 8 := bits.foldl shiftBit 0

/-- The bytes of some samples, and the samples that make no whole byte. -/
def decode : List Bool → List (BitVec 8) × List Bool
  | b7 :: b6 :: b5 :: b4 :: b3 :: b2 :: b1 :: b0 :: rest =>
    (byteOfBits [b7, b6, b5, b4, b3, b2, b1, b0] :: (decode rest).1, (decode rest).2)
  | left => ([], left)

/-! ## Bytes and their bits -/

/-- The bits that `shiftOut` takes from a byte. -/
def topBits : Nat → BitVec 8 → List Bool
  | 0, _ => []
  | n + 1, value => topBit value :: topBits n (value <<< 1)

theorem foldl_topBits (n : Nat) (acc value : BitVec 8) :
    (topBits n value).foldl shiftBit acc = shiftIn n acc value := by
  induction n generalizing acc value with
  | zero => rfl
  | succ n ih =>
    rw [topBits, List.foldl_cons, ih]
    rfl

theorem byteOfBits_topBits (value : BitVec 8) : byteOfBits (topBits 8 value) = value := by
  rw [byteOfBits, foldl_topBits, shiftIn_eight]

/-- A byte in front of other samples is decoded first. -/
theorem decode_topBits (value : BitVec 8) (rest : List Bool) :
    decode (topBits 8 value ++ rest) = (value :: (decode rest).1, (decode rest).2) := by
  have hbyte := byteOfBits_topBits value
  simp only [topBits, List.cons_append, List.nil_append] at hbyte ⊢
  rw [decode, hbyte]

/-- The samples of some bytes are decoded to these bytes. -/
theorem decode_flatMap (bytes : List (BitVec 8)) :
    decode (bytes.flatMap (topBits 8)) = (bytes, []) := by
  induction bytes with
  | nil => rfl
  | cons value bytes ih => rw [List.flatMap_cons, decode_topBits, ih]

/-! ## The writes of a transfer -/

@[simp]
theorem Wires.pins_nil (w : Wires) : w.pins [] = w := rfl

@[simp]
theorem Wires.pins_cons (w : Wires) (p : PinWrite) (writes : List PinWrite) :
    w.pins (p :: writes) = (w.pin p).pins writes := rfl

theorem Wires.pins_append (w : Wires) (l l' : List PinWrite) :
    w.pins (l ++ l') = (w.pins l).pins l' := List.foldl_append

theorem Wires.edges_append (w : Wires) (l l' : List PinWrite) :
    w.edges (l ++ l') = w.edges l ++ (w.pins l).edges l' := by
  induction l generalizing w with
  | nil => rfl
  | cons p l ih => rw [List.cons_append, Wires.edges, Wires.edges, ih, pins_cons, List.append_assoc]

/-- The wires while the receiver is selected. The level of SDIO0 is what was sent last. -/
structure Selected (w w' : Wires) : Prop where
  cs : w'.cs = false
  update : w'.update = w.update

/-- One bit: the clock falls, the data line is set, the clock rises. -/
theorem edges_bit {w : Wires} (hcs : w.cs = false) (level : Bool) :
    w.edges [.sclk false, .sdio0 level, .sclk true] = [.bit level] := by
  simp only [Wires.edges, Wires.edge, Wires.pin, hcs, Bool.false_eq_true, false_and, if_false,
    Bool.not_false, and_self, if_true, List.nil_append, List.append_nil]

/-- The loop over the bits of a byte shows these bits. -/
theorem edges_shiftOut (n : Nat) {w : Wires} (hcs : w.cs = false) (value : BitVec 8) :
    w.edges (shiftOut n value) = (topBits n value).map .bit ∧
      Selected w (w.pins (shiftOut n value)) := by
  induction n generalizing w value with
  | zero => exact ⟨rfl, hcs, rfl⟩
  | succ n ih =>
    have hsplit : shiftOut (n + 1) value =
        [.sclk false, .sdio0 (topBit value), .sclk true] ++ shiftOut n (value <<< 1) := rfl
    obtain ⟨hedges, hsel⟩ := ih (w := w.pins [.sclk false, .sdio0 (topBit value), .sclk true])
      hcs (value <<< 1)
    rw [hsplit, Wires.edges_append, Wires.pins_append, edges_bit hcs, hedges]
    exact ⟨rfl, hsel.cs, hsel.update⟩

/-- The writes of a byte, with the clock low behind it. -/
def byteWrites (value : BitVec 8) : List PinWrite := shiftOut 8 value ++ [.sclk false]

/-- A byte makes eight edges, highest bit first. -/
theorem edges_byteWrites {w : Wires} (hcs : w.cs = false) (value : BitVec 8) :
    w.edges (byteWrites value) = (topBits 8 value).map .bit ∧
      Selected w (w.pins (byteWrites value)) ∧ (w.pins (byteWrites value)).sclk = false := by
  obtain ⟨hedges, hsel⟩ := edges_shiftOut 8 hcs value
  rw [byteWrites, Wires.edges_append, Wires.pins_append, hedges]
  generalize w.pins (shiftOut 8 value) = w' at hsel
  exact ⟨List.append_nil _, ⟨hsel.cs, hsel.update⟩, rfl⟩

/-- The bytes of a transfer. -/
theorem edges_bytes (bytes : List (BitVec 8)) {w : Wires} (hcs : w.cs = false)
    (hsclk : w.sclk = false) :
    w.edges (bytes.flatMap byteWrites) = (bytes.flatMap (topBits 8)).map .bit ∧
      Selected w (w.pins (bytes.flatMap byteWrites)) ∧
      (w.pins (bytes.flatMap byteWrites)).sclk = false := by
  induction bytes generalizing w with
  | nil => exact ⟨rfl, ⟨hcs, rfl⟩, hsclk⟩
  | cons value bytes ih =>
    obtain ⟨hbyte, hsel, hlow⟩ := edges_byteWrites hcs value
    obtain ⟨hrest, hsel', hlow'⟩ := ih hsel.cs hlow
    rw [List.flatMap_cons, List.flatMap_cons, Wires.edges_append, Wires.pins_append, hbyte, hrest,
      List.map_append]
    exact ⟨rfl, ⟨hsel'.cs, hsel'.update.trans hsel.update⟩, hlow'⟩

/-- What `_io_updata` shows. It starts with a low level, which is an edge if the line was high. -/
def Wires.pulse (w : Wires) : List Edge :=
  (if w.update then [.updateFalls] else []) ++ [.updateRises, .updateFalls]

theorem edges_ioUpdata (w : Wires) : w.edges ioUpdata = w.pulse := by
  cases hup : w.update with
  | false => simp [ioUpdata, Wires.edges, Wires.edge, Wires.pin, Wires.pulse, hup]
  | true => simp [ioUpdata, Wires.edges, Wires.edge, Wires.pin, Wires.pulse, hup]

/-- The address is sent as the data are. -/
theorem ad9959WriteData_eq (registerAddress : BitVec 8) (numberofRegisters : Nat)
    (registerData : List (BitVec 8)) (temp : Nat) :
    ad9959WriteData registerAddress numberofRegisters registerData temp =
      [.sclk false, .cs false] ++
        ((registerAddress :: registerData.take numberofRegisters).flatMap byteWrites ++
          ((if temp = 1 then ioUpdata else []) ++ [.cs true])) := by
  rw [List.flatMap_cons, List.append_assoc, ← List.append_assoc, ← List.append_assoc,
    ← List.append_assoc]
  rfl

/-- The end of a transfer: UPDATE pulsed for a `temp` of 1, and CS high. -/
theorem edges_close {w : Wires} (hcs : w.cs = false) (temp : Nat) :
    w.edges ((if temp = 1 then ioUpdata else []) ++ [.cs true]) =
        (if temp = 1 then w.pulse else []) ++ [.csRises] ∧
      w.pins ((if temp = 1 then ioUpdata else []) ++ [.cs true]) =
        { w with cs := true, update := if temp = 1 then false else w.update } := by
  have hrise : ∀ w : Wires, w.cs = false → w.edges [.cs true] = [.csRises] := by
    intro w hcs
    simp [Wires.edges, Wires.edge, hcs]
  rw [Wires.edges_append, Wires.pins_append]
  by_cases htemp : temp = 1
  · rw [if_pos htemp, if_pos htemp, if_pos htemp, edges_ioUpdata]
    exact ⟨congrArg _ (hrise _ hcs), rfl⟩
  · rw [if_neg htemp, if_neg htemp, if_neg htemp]
    exact ⟨hrise w hcs, rfl⟩

/-- The waveform of a transfer: the address and the data bit by bit, and the end. -/
theorem edges_ad9959WriteData (w : Wires) (registerAddress : BitVec 8) (numberofRegisters : Nat)
    (registerData : List (BitVec 8)) (temp : Nat) :
    let writes := ad9959WriteData registerAddress numberofRegisters registerData temp
    w.edges writes =
        ((registerAddress :: registerData.take numberofRegisters).flatMap (topBits 8)).map .bit ++
          ((if temp = 1 then w.pulse else []) ++ [.csRises]) ∧
      (w.pins writes).cs = true ∧ (w.pins writes).sclk = false ∧
      (w.pins writes).update = (if temp = 1 then false else w.update) := by
  have hopen : w.edges [.sclk false, .cs false] = [] := by
    simp [Wires.edges, Wires.edge, Wires.pin]
  obtain ⟨hbits, hsel, hlow⟩ :=
    edges_bytes (registerAddress :: registerData.take numberofRegisters)
      (w := w.pins [.sclk false, .cs false]) rfl rfl
  obtain ⟨hend, hafter⟩ := edges_close hsel.cs temp
  have hupdate : ((w.pins [.sclk false, .cs false]).pins
      ((registerAddress :: registerData.take numberofRegisters).flatMap byteWrites)).update =
        w.update := hsel.update
  dsimp only
  rw [ad9959WriteData_eq, Wires.edges_append, Wires.edges_append, Wires.pins_append,
    Wires.pins_append, hopen, hbits, hend, hafter, hupdate, Wires.pulse, hupdate, ← Wires.pulse]
  exact ⟨rfl, rfl, hlow, rfl⟩

theorem sampled_append (edges edges' : List Edge) :
    sampled (edges ++ edges') = sampled edges ++ sampled edges' := List.filterMap_append

theorem sampled_bits (bits : List Bool) : sampled (bits.map .bit) = bits := by
  rw [sampled, List.filterMap_map]
  exact List.filterMap_some

/-- No bit is sampled at the end of a transfer. -/
theorem sampled_close (w : Wires) (temp : Nat) :
    sampled ((if temp = 1 then w.pulse else []) ++ [.csRises]) = [] := by
  have hpulse : sampled w.pulse = [] := by
    rw [Wires.pulse, sampled_append]
    split <;> rfl
  rw [sampled_append]
  split
  · rw [hpulse]
    rfl
  · rfl

/-- Whatever the levels were, a receiver that samples SDIO0 on the rising edges of SCLK while CS is
low finds the address and the data and nothing else. CS is high and SCLK low behind the transfer.
The edges of UPDATE, one pulse for a `temp` of 1 and none for any other, stand between the last
sample and the rising edge of CS. -/
theorem ad9959WriteData_decodes (w : Wires) (registerAddress numberofRegisters : BitVec 8)
    (registerData : List (BitVec 8)) (temp : BitVec 8) :
    let writes :=
      ad9959WriteData registerAddress numberofRegisters.toNat registerData temp.toNat
    decode (sampled (w.edges writes)) =
        (registerAddress :: registerData.take numberofRegisters.toNat, []) ∧
      (w.pins writes).cs = true ∧ (w.pins writes).sclk = false ∧
      w.edges writes =
        (sampled (w.edges writes)).map .bit ++
          ((if temp = 1 then w.pulse else []) ++ [.csRises]) ∧
      (w.pins writes).update = (if temp = 1 then false else w.update) := by
  have htemp : temp.toNat = 1 ↔ temp = 1 := (BitVec.toNat_inj (y := 1#8)).trans Iff.rfl
  obtain ⟨hedges, hcs, hsclk, hupdate⟩ :=
    edges_ad9959WriteData w registerAddress numberofRegisters.toNat registerData temp.toNat
  have hsampled := congrArg sampled hedges
  rw [sampled_append, sampled_bits, sampled_close, List.append_nil] at hsampled
  simp only [htemp] at hedges hupdate
  dsimp only
  rw [hsampled, decode_flatMap]
  exact ⟨rfl, hcs, hsclk, hedges, hupdate⟩

end RtVcom.Board.Ad9959

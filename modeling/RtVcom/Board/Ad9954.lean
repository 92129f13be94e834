/-!
# The byte stream of the AD9954

`board/board_ad9954.c` drives the chip through a serial port without a chip select: `AD9954_CS` is a
dummy variable in this build, so nothing but the count of the bytes tells the chip where a register
ends and the next instruction begins. The driver is modelled by what it sends, an instruction and
the data of its register, call by call, and by the levels of the pin that selects the profile.

The chip takes as many bytes behind an instruction as the register is wide. A write of the RAM is
as long as the segment that was programmed for the selected profile, and a segment is one word long
behind a reset.

`framed_iff` is the exact law of the driver: a run of calls keeps the framing when every
`ad9954_change_freq_ram_config`, which sends 1024 words, finds a segment of 1024 words. The boot
does not: it writes the RAM behind a reset, where the code that programs the segment first is
commented out. So no sequence of calls behind the boot is framed (`boot_never_framed`).

The numbers that are computed in floating point are a parameter, `Floats`.
-/

namespace RtVcom.Board.Ad9954

/-! ## The driver -/

/-- What the driver sends: a register with its data, byte by byte through `AD9954_Send_Byte`, or a
level of the pin that `AD9954_PS0` and `AD9954_PS1` both stand for. -/
inductive Op
  | register (address : BitVec 8) (data : List (BitVec 8))
  | p0 (level : Bool)
deriving Repr, DecidableEq

/-- The floating-point side of the driver, over the type `double`: `Get_FTW`, the frequency of a
word of the RAM, the range that `ad9954_change_speed` tests, `RAMP_SPEED_NUM`, the words of
`Line_AR_Sweep`, and the conversion of an integer. -/
structure Floats (R : Type) where
  getFtw : R → BitVec 32
  ramFreq : BitVec 32 → BitVec 32 → Nat → R
  outOfRange : R → Bool
  rampSpeedNum : R → BitVec 16
  sweepWord : R → BitVec 32
  ofUint32 : BitVec 32 → R

/-- The four bytes of a word, most significant first. -/
def wordBytes (w : BitVec 32) : List (BitVec 8) :=
  [(w >>> 24).setWidth 8, (w >>> 16).setWidth 8, (w >>> 8).setWidth 8, w.setWidth 8]

/-- `AD9954_RAM_SIZE`. -/
def ad9954RamSize : Nat := 1024

section Driver

variable {R : Type} (fl : Floats R)

/-- `Write_ASF`. -/
def writeAsf (factor : BitVec 16) : List Op :=
  [.register 0x02 [(factor >>> 8).setWidth 8, factor.setWidth 8]]

/-- `AD9954_Set_Freq`. -/
def ad9954SetFreq (f : R) : List Op := [.register 0x04 (wordBytes (fl.getFtw f))]

/-- `AD9954_Init`, behind the reset: `PLL_MULTIPLIER << 3 | 0x04 | 0X03` is 0x57. -/
def ad9954Init : List Op :=
  [.p0 false, .register 0x01 [0x00, 0x00, 0x57]] ++ writeAsf 0x0FFF ++
    ad9954SetFreq fl (fl.ofUint32 10650000)

/-- The loop of `ad9954_change_freq_ram_config`, from word `i` on. -/
def ramWords (f0 fp : BitVec 32) : Nat → Nat → List (BitVec 8)
  | _, 0 => []
  | i, n + 1 => wordBytes (fl.getFtw (fl.ramFreq f0 fp i)) ++ ramWords f0 fp (i + 1) n

/-- `ad9954_change_freq_ram_config`. -/
def ad9954ChangeFreqRamConfig (f0 fp : BitVec 32) : List Op :=
  [.p0 false, .p0 false, .register 0x00 [0x00, 0x00, 0x00, 0x00],
    .register 0x0b (ramWords fl f0 fp 0 ad9954RamSize),
    .register 0x00 [0x80, 0x00, 0x00, 0x00]]

/-- `write_sine_freq_data_to_ram`, with `fsk_f0_freq` and `fsk_fp_freq` as they are at the boot. -/
def writeSineFreqDataToRam : List Op := ad9954ChangeFreqRamConfig fl 10650000 50000

/-- The segment that `change_ramp_speed` and `ad9954_change_speed` program. -/
def rampSegment (temp : BitVec 16) : Op :=
  .register 0x07 [temp.setWidth 8, (temp >>> 8).setWidth 8, 0xFF, 0x03, 0x80]

/-- `change_ramp_speed`, with the number of its argument if there is one. -/
def changeRampSpeed (argument : Option (BitVec 32)) : List Op :=
  [.p0 false, .p0 false,
    rampSegment (match argument with
      | some inputFreq =>
        if 97000 < inputFreq.toNat ∨ inputFreq.toNat < 2 then 0xFFFF
        else fl.rampSpeedNum (fl.ofUint32 inputFreq)
      | none => 0xFFFF)]

/-- `ad9954_change_speed`. -/
def ad9954ChangeSpeed (inputFreq : R) : List Op :=
  [rampSegment (if fl.outOfRange inputFreq then 0xFFFF else fl.rampSpeedNum inputFreq)]

/-- `ASK_Init`. -/
def askInit : List Op :=
  [.register 0x00 [0x02, 0x00, 0x20, 0x40], .register 0x05 [0x30, 0x00]]

/-- `AM_Init`. -/
def amInit : List Op := [.register 0x00 [0x02, 0x00, 0x00, 0x40]]

/-- `Linear_Sweep`. -/
def linearSweep (minFreq maxFreq upStepFreq : R) (upStepTime : BitVec 8) (downStepFreq : R)
    (downStepTime mode : BitVec 8) : List Op :=
  [.p0 false, .p0 false,
    .register 0x00 [0x02, 0x20, 0x00, if mode &&& 0x80 ≠ 0 then 0x44 else 0x40],
    .register 0x04 (wordBytes (fl.getFtw minFreq)),
    .register 0x06 (wordBytes (fl.getFtw maxFreq))] ++
  (if mode &&& 0x7F ≠ 1 then
    [.register 0x07 (downStepTime :: wordBytes (fl.getFtw downStepFreq)), .p0 false]
  else []) ++
  (if mode &&& 0x7F ≠ 0 then
    [.register 0x08 (upStepTime :: wordBytes (fl.getFtw upStepFreq)), .p0 true]
  else [])

/-- `Line_AR_Sweep`; `PLL_MULTIPLIER << 3 | 0x04` is 0x54. -/
def lineARSweep (f1 f2 : R) : List Op :=
  [.p0 false, .p0 false, .register 0x00 [0x00, 0x20, 0x00, 0x40],
    .register 0x01 [0x00, 0x00, 0x54], .register 0x04 (wordBytes (fl.sweepWord f1)),
    .register 0x06 (wordBytes (fl.sweepWord f2)),
    .register 0x07 [0x01, 0x00, 0x00, 0x1b, 0xf4], .register 0x08 [0x01, 0x00, 0x01, 0xa3, 0x6f]]

end Driver

/-- A call of the driver. -/
inductive Call (R : Type)
  | setFreq (f : R)
  | writeAsf (factor : BitVec 16)
  | changeFreqRamConfig (f0 fp : BitVec 32)
  | changeSpeed (inputFreq : R)
  | changeRampSpeed (argument : Option (BitVec 32))
  | linearSweep (minFreq maxFreq upStepFreq : R) (upStepTime : BitVec 8) (downStepFreq : R)
      (downStepTime mode : BitVec 8)
  | askInit
  | amInit
  | lineARSweep (f1 f2 : R)

def Call.ops {R : Type} (fl : Floats R) : Call R → List Op
  | .setFreq f => ad9954SetFreq fl f
  | .writeAsf factor => Ad9954.writeAsf factor
  | .changeFreqRamConfig f0 fp => ad9954ChangeFreqRamConfig fl f0 fp
  | .changeSpeed inputFreq => ad9954ChangeSpeed fl inputFreq
  | .changeRampSpeed argument => Ad9954.changeRampSpeed fl argument
  | .linearSweep minFreq maxFreq upStepFreq upStepTime downStepFreq downStepTime mode =>
    Ad9954.linearSweep fl minFreq maxFreq upStepFreq upStepTime downStepFreq downStepTime mode
  | .askInit => Ad9954.askInit
  | .amInit => Ad9954.amInit
  | .lineARSweep f1 f2 => Ad9954.lineARSweep fl f1 f2

/-! ## The chip -/

/-- A byte on the wire with what the driver means by it, or a level of the pin. -/
inductive Sent
  | instruction (byte : BitVec 8)
  | data (byte : BitVec 8)
  | p0 (level : Bool)
deriving Repr, DecidableEq

def Op.sent : Op → List Sent
  | .register address data => .instruction address :: data.map .data
  | .p0 level => [.p0 level]

/-- The chip: the instruction and the bytes it has taken behind it, how many are still to come, the
words of the segments of the four profiles, and the level of the pin. -/
structure Chip where
  instruction : BitVec 8
  taken : List (BitVec 8)
  pending : Nat
  segment : Fin 4 → Nat
  p0 : Bool

/-- The width of a register, the RAM apart. -/
def fixedWidth (address : BitVec 8) : Nat :=
  match address with
  | 0x00 => 4
  | 0x01 => 3
  | 0x02 => 2
  | 0x03 => 1
  | 0x04 => 4
  | 0x05 => 2
  | 0x06 => 4
  | 0x07 => 5
  | 0x08 => 5
  | 0x09 => 5
  | 0x0A => 5
  | _ => 0

/-- The words of a segment, from its begin address to its final one: `final<7:0>` is in the third
byte, `begin<5:0>` and `final<9:8>` are in the fourth, `begin<9:6>` is in the fifth. -/
def segmentWords (data : List (BitVec 8)) : Nat :=
  let final := (data.getD 2 0).toNat + 0x100 * ((data.getD 3 0).toNat % 4)
  let start := (data.getD 3 0).toNat / 4 + 0x40 * ((data.getD 4 0).toNat % 0x10)
  final + 1 - start

section Chip

variable (high : Fin 4)

/-- The selected profile; `high` is the one that is selected while the pin is high. -/
def Chip.profile (k : Chip) : Fin 4 := if k.p0 then high else 0

def Chip.width (k : Chip) (address : BitVec 8) : Nat :=
  if address = 0x0B then 4 * k.segment (k.profile high) else fixedWidth address

/-- The segments behind a register: 07h to 0Ah program those of the four profiles, unless bit 7 of
the instruction asks for a read. -/
def segmentsAfter (segment : Fin 4 → Nat) (instruction : BitVec 8) (data : List (BitVec 8)) :
    Fin 4 → Nat :=
  fun i => if instruction = 0x07 + BitVec.ofNat 8 i then segmentWords data else segment i

/-- A byte is received: an instruction where nothing is pending, and data of its register
otherwise. -/
def Chip.receive (k : Chip) (byte : BitVec 8) : Chip :=
  if k.pending = 0 then
    { k with instruction := byte, taken := [], pending := k.width high (byte &&& 0x1F) }
  else if k.pending = 1 then
    { k with
      taken := []
      pending := 0
      segment := segmentsAfter k.segment (k.instruction &&& 0x9F) (k.taken ++ [byte]) }
  else { k with taken := k.taken ++ [byte], pending := k.pending - 1 }

def Chip.step (k : Chip) : Sent → Chip
  | .instruction byte => k.receive high byte
  | .data byte => k.receive high byte
  | .p0 level => { k with p0 := level }

def Chip.run (k : Chip) (sent : List Sent) : Chip := sent.foldl (Chip.step high) k

/-- No data byte is taken for an instruction. -/
def NoMistake (k : Chip) : List Sent → Prop
  | [] => True
  | .data byte :: sent => k.pending ≠ 0 ∧ NoMistake (k.step high (.data byte)) sent
  | .instruction byte :: sent => NoMistake (k.step high (.instruction byte)) sent
  | .p0 level :: sent => NoMistake (k.step high (.p0 level)) sent

/-- The framing of some calls: none of their data bytes is taken for an instruction, and every call
leaves the chip at an instruction boundary. -/
def Framed (k : Chip) : List (List Op) → Prop
  | [] => True
  | call :: calls =>
    NoMistake high k (call.flatMap Op.sent) ∧ (k.run high (call.flatMap Op.sent)).pending = 0 ∧
      Framed (k.run high (call.flatMap Op.sent)) calls

end Chip

/-- The chip behind its reset. -/
def resetChip : Chip where
  instruction := 0
  taken := []
  pending := 0
  segment := fun _ => 1
  p0 := false

/-- The boot: `AD9954_Init` and `write_sine_freq_data_to_ram`. -/
def boot {R : Type} (fl : Floats R) : List (List Op) := [ad9954Init fl, writeSineFreqDataToRam fl]

/-! ## One register -/

section Register

variable (high : Fin 4)

/-- A run is a run and then another. -/
theorem run_append (k : Chip) (l l' : List Sent) :
    k.run high (l ++ l') = (k.run high l).run high l' := by
  rw [Chip.run, List.foldl_append]
  rfl

/-- There is no mistake when there is none in either part. -/
theorem noMistake_append : ∀ {k : Chip} (l l' : List Sent),
    NoMistake high k (l ++ l') ↔ NoMistake high k l ∧ NoMistake high (k.run high l) l'
  | k, [], l' => by
    rw [List.nil_append]
    exact ⟨fun h => ⟨trivial, h⟩, fun h => h.2⟩
  | k, .data byte :: l, l' => by
    have ih := noMistake_append (k := k.step high (.data byte)) l l'
    rw [List.cons_append, NoMistake, NoMistake, ih, and_assoc]
    rfl
  | k, .instruction byte :: l, l' => noMistake_append (k := k.step high (.instruction byte)) l l'
  | k, .p0 level :: l, l' => noMistake_append (k := k.step high (.p0 level)) l l'

/-- The data of a register, as many bytes as are pending. -/
theorem run_data : ∀ {k : Chip} (data : List (BitVec 8)), k.pending = data.length → data ≠ [] →
    NoMistake high k (data.map .data) ∧
      k.run high (data.map .data) =
        { k with
          taken := []
          pending := 0
          segment := segmentsAfter k.segment (k.instruction &&& 0x9F) (k.taken ++ data) }
  | k, [], _, hne => absurd rfl hne
  | k, [byte], hp, _ => by
    have hp : k.pending = 1 := hp
    have hstep : k.receive high byte = _ :=
      (if_neg (by rw [hp]; exact Nat.one_ne_zero)).trans (if_pos hp)
    exact ⟨⟨by rw [hp]; exact Nat.one_ne_zero, trivial⟩, hstep⟩
  | k, byte :: byte' :: data, hp, _ => by
    have hp : k.pending = data.length + 2 := hp
    have hzero : k.pending ≠ 0 := by omega
    have hone : k.pending ≠ 1 := by omega
    have hstep : k.receive high byte =
        { k with taken := k.taken ++ [byte], pending := k.pending - 1 } :=
      (if_neg hzero).trans (if_neg hone)
    have hpend : k.pending - 1 = (byte' :: data).length := by
      rw [hp]
      rfl
    have ih := run_data (k := { k with taken := k.taken ++ [byte], pending := k.pending - 1 })
      (byte' :: data) hpend (List.cons_ne_nil _ _)
    rw [List.append_assoc, List.singleton_append] at ih
    refine ⟨⟨hzero, ?_⟩, ?_⟩
    · rw [Chip.step, hstep]
      exact ih.1
    · rw [List.map_cons, Chip.run, List.foldl_cons, Chip.step, hstep]
      exact ih.2

/-- Data that goes on when nothing is pending any more. -/
theorem mistake_data : ∀ {k : Chip} (data : List (BitVec 8)), k.pending < data.length →
    ¬NoMistake high k (data.map .data)
  | k, [], hlt, _ => absurd hlt (Nat.not_lt_zero _)
  | k, byte :: data, hlt, h => by
    obtain ⟨hzero, hrest⟩ := h
    have hlt : k.pending < data.length + 1 := hlt
    refine mistake_data data ?_ hrest
    rw [Chip.step, Chip.receive, if_neg hzero]
    split
    · next hone =>
      have hpos : 0 < data.length := by omega
      exact hpos
    · have hless : k.pending - 1 < data.length := by omega
      exact hless

section Write

variable {k : Chip} {address : BitVec 8} {data : List (BitVec 8)}

/-- An instruction at an instruction boundary. -/
theorem step_instruction (hp : k.pending = 0) (haddr : address &&& 0x1F = address) :
    k.step high (.instruction address) =
      { k with instruction := address, taken := [], pending := k.width high address } := by
  rw [Chip.step, Chip.receive, if_pos hp, haddr]

/-- A register with as much data as it is wide. -/
theorem run_register (hp : k.pending = 0) (haddr : address &&& 0x1F = address)
    (hwidth : k.width high address = data.length) (hne : data ≠ []) :
    NoMistake high k (Op.sent (.register address data)) ∧
      k.run high (Op.sent (.register address data)) =
        { k with
          instruction := address
          taken := []
          pending := 0
          segment := segmentsAfter k.segment (address &&& 0x9F) data } := by
  have hdata := run_data high
    (k := { k with instruction := address, taken := [], pending := k.width high address })
    data hwidth hne
  rw [Op.sent, NoMistake, Chip.run, List.foldl_cons, step_instruction high hp haddr]
  exact hdata

/-- A register with more data than it is wide. -/
theorem mistake_register (hp : k.pending = 0) (haddr : address &&& 0x1F = address)
    (hwidth : k.width high address < data.length) :
    ¬NoMistake high k (Op.sent (.register address data)) := by
  rw [Op.sent, NoMistake, step_instruction high hp haddr]
  exact mistake_data high data hwidth

end Write

end Register

/-! ## The calls -/

/-- A register other than the RAM, with as much data as it is wide. -/
def Op.Fits : Op → Prop
  | .register address data =>
    address &&& 0x1F = address ∧ address ≠ 0x0B ∧ fixedWidth address = data.length ∧ data ≠ []
  | .p0 _ => True

/-- The width alone tells a register from the RAM, which has no fixed one. -/
theorem fits_register {address byte : BitVec 8} {data : List (BitVec 8)}
    (hmask : address &&& 0x1F = address) (hwidth : fixedWidth address = (byte :: data).length) :
    (Op.register address (byte :: data)).Fits := by
  refine ⟨hmask, ?_, hwidth, List.cons_ne_nil byte data⟩
  rintro rfl
  cases hwidth

/-- A register below those of the segments. -/
def Op.Below : Op → Prop
  | .register address _ => address &&& 0x9F < 0x07
  | .p0 _ => True

section Ops

variable (high : Fin 4)

/-- An instruction below those of the segments leaves them alone. -/
theorem segmentsAfter_below {segment : Fin 4 → Nat} {instruction : BitVec 8}
    (h : instruction < 0x07) (data : List (BitVec 8)) :
    segmentsAfter segment instruction data = segment := by
  funext i
  refine if_neg fun he => ?_
  rw [he] at h
  match i, h with
  | 0, h | 1, h | 2, h | 3, h => exact absurd h (by decide)

/-- One operation at an instruction boundary. -/
theorem whole_op {k : Chip} (hp : k.pending = 0) {op : Op} (h : op.Fits) :
    NoMistake high k op.sent ∧ (k.run high op.sent).pending = 0 ∧
      (op.Below → (k.run high op.sent).segment = k.segment) := by
  cases op with
  | register address data =>
    obtain ⟨haddr, hram, hwidth, hne⟩ := h
    have hreg := run_register high hp haddr ((if_neg hram).trans hwidth) hne
    refine ⟨hreg.1, ?_, fun hbelow => ?_⟩
    · rw [hreg.2]
    · rw [hreg.2]
      exact segmentsAfter_below hbelow data
  | p0 level => exact ⟨trivial, hp, fun _ => rfl⟩

/-- A call without the RAM keeps the framing. -/
theorem whole_ops : ∀ {k : Chip} (ops : List Op), k.pending = 0 → (∀ op ∈ ops, op.Fits) →
    NoMistake high k (ops.flatMap Op.sent) ∧ (k.run high (ops.flatMap Op.sent)).pending = 0 ∧
      ((∀ op ∈ ops, op.Below) → (k.run high (ops.flatMap Op.sent)).segment = k.segment)
  | k, [], hp, _ => ⟨trivial, hp, fun _ => rfl⟩
  | k, op :: ops, hp, h => by
    obtain ⟨hno, hpend, hseg⟩ := whole_op high hp (h op List.mem_cons_self)
    obtain ⟨hno', hpend', hseg'⟩ := whole_ops ops hpend
      fun op' hmem => h op' (List.mem_cons_of_mem _ hmem)
    rw [List.flatMap_cons, noMistake_append, run_append]
    refine ⟨⟨hno, hno'⟩, hpend', fun hbelow => ?_⟩
    rw [hseg' fun op' hmem => hbelow op' (List.mem_cons_of_mem _ hmem),
      hseg (hbelow op List.mem_cons_self)]

end Ops


/-- No segment is longer than the RAM. -/
def Chip.Bounded (k : Chip) : Prop := ∀ i, k.segment i ≤ ad9954RamSize

theorem segmentWords_le (data : List (BitVec 8)) : segmentWords data ≤ ad9954RamSize := by
  have hlow := (data.getD 2 0).isLt
  simp only [segmentWords, ad9954RamSize]
  omega

section Run

variable (high : Fin 4)

/-- A byte received keeps the addresses inside. -/
theorem Chip.Bounded.receive {k : Chip} (h : k.Bounded) (byte : BitVec 8) :
    (k.receive high byte).Bounded := by
  unfold Chip.receive
  split
  · exact h
  split
  · intro i
    unfold segmentsAfter
    dsimp only
    split
    · exact segmentWords_le _
    · exact h i
  · exact h

theorem Chip.Bounded.run {k : Chip} (h : k.Bounded) (sent : List Sent) :
    (k.run high sent).Bounded := by
  induction sent generalizing k with
  | nil => exact h
  | cons x sent ih =>
    cases x with
    | instruction byte => exact ih (h.receive high byte)
    | data byte => exact ih (h.receive high byte)
    | p0 level => exact ih (k := { k with p0 := level }) h

end Run

section Calls

variable {R : Type} (fl : Floats R)

/-- A word of the memory has four bytes. -/
theorem length_ramWords (f0 fp : BitVec 32) (i n : Nat) :
    (ramWords fl f0 fp i n).length = 4 * n := by
  induction n generalizing i with
  | zero => rfl
  | succ n ih =>
    rw [ramWords, List.length_append, ih]
    simp only [wordBytes, List.length_cons, List.length_nil]
    omega

/-- The call that writes the RAM. -/
def Call.WritesRam : Call R → Prop
  | .changeFreqRamConfig _ _ => True
  | _ => False

/-- Every other call sends registers of fixed width, with as much data as they are wide. -/
theorem fits_call {call : Call R} (h : ¬call.WritesRam) : ∀ op ∈ call.ops fl, op.Fits := by
  cases call with
  | changeFreqRamConfig f0 fp => exact absurd trivial h
  | setFreq f =>
    exact List.forall_mem_singleton.mpr (fits_register rfl rfl)
  | writeAsf factor =>
    exact List.forall_mem_singleton.mpr (fits_register rfl rfl)
  | changeSpeed inputFreq =>
    exact List.forall_mem_singleton.mpr (fits_register rfl rfl)
  | changeRampSpeed argument =>
    refine List.forall_mem_cons.mpr ⟨trivial, List.forall_mem_cons.mpr ⟨trivial, ?_⟩⟩
    exact List.forall_mem_singleton.mpr (fits_register rfl rfl)
  | amInit => exact List.forall_mem_singleton.mpr (fits_register rfl rfl)
  | askInit =>
    refine List.forall_mem_cons.mpr ⟨fits_register rfl rfl, ?_⟩
    exact List.forall_mem_singleton.mpr (fits_register rfl rfl)
  | lineARSweep f1 f2 =>
    refine List.forall_mem_cons.mpr ⟨trivial, List.forall_mem_cons.mpr ⟨trivial, ?_⟩⟩
    refine List.forall_mem_cons.mpr ⟨fits_register rfl rfl, ?_⟩
    refine List.forall_mem_cons.mpr ⟨fits_register rfl rfl, ?_⟩
    refine List.forall_mem_cons.mpr ⟨fits_register rfl rfl, ?_⟩
    refine List.forall_mem_cons.mpr ⟨fits_register rfl rfl, ?_⟩
    refine List.forall_mem_cons.mpr ⟨fits_register rfl rfl, ?_⟩
    exact List.forall_mem_singleton.mpr (fits_register rfl rfl)
  | linearSweep minFreq maxFreq upStepFreq upStepTime downStepFreq downStepTime mode =>
    refine List.forall_mem_append.mpr ⟨List.forall_mem_append.mpr ⟨?_, ?_⟩, ?_⟩
    · refine List.forall_mem_cons.mpr ⟨trivial, List.forall_mem_cons.mpr ⟨trivial, ?_⟩⟩
      refine List.forall_mem_cons.mpr ⟨fits_register rfl rfl, ?_⟩
      refine List.forall_mem_cons.mpr ⟨fits_register rfl rfl, ?_⟩
      exact List.forall_mem_singleton.mpr (fits_register rfl rfl)
    · split
      · refine List.forall_mem_cons.mpr ⟨fits_register rfl rfl, ?_⟩
        exact List.forall_mem_singleton.mpr trivial
      · exact List.forall_mem_nil _
    · split
      · refine List.forall_mem_cons.mpr ⟨fits_register rfl rfl, ?_⟩
        exact List.forall_mem_singleton.mpr trivial
      · exact List.forall_mem_nil _

variable (high : Fin 4)

/-- The control register, written at an instruction boundary. -/
theorem run_cfr1 {k : Chip} (hp : k.pending = 0) (first : BitVec 8) :
    NoMistake high k (Op.sent (.register 0x00 [first, 0x00, 0x00, 0x00])) ∧
      k.run high (Op.sent (.register 0x00 [first, 0x00, 0x00, 0x00])) =
        { k with instruction := 0x00, taken := [], pending := 0 } := by
  have hreg := @run_register high k 0x00 [first, 0x00, 0x00, 0x00] hp rfl rfl
    (List.cons_ne_nil _ _)
  rw [segmentsAfter_below (by decide)] at hreg
  exact hreg

/-- Writing the RAM keeps the framing where the segment of the profile 0 is as long as the RAM. -/
theorem whole_ram_iff {k : Chip} (hp : k.pending = 0) (hb : k.Bounded) (f0 fp : BitVec 32) :
    (NoMistake high k ((ad9954ChangeFreqRamConfig fl f0 fp).flatMap Op.sent) ∧
      (k.run high ((ad9954ChangeFreqRamConfig fl f0 fp).flatMap Op.sent)).pending = 0) ↔
        k.segment 0 = ad9954RamSize := by
  have hsplit : (ad9954ChangeFreqRamConfig fl f0 fp).flatMap Op.sent =
      [.p0 false, .p0 false] ++ (Op.sent (.register 0x00 [0x00, 0x00, 0x00, 0x00]) ++
        (Op.sent (.register 0x0b (ramWords fl f0 fp 0 ad9954RamSize)) ++
          Op.sent (.register 0x00 [0x80, 0x00, 0x00, 0x00]))) := by
    simp only [ad9954ChangeFreqRamConfig, List.flatMap_cons, List.flatMap_nil, List.append_nil]
    rfl
  -- the pin is low and the control register is written: the segments are as they were
  have hlow : k.run high [.p0 false, .p0 false] = { k with p0 := false } := rfl
  obtain ⟨hno, hrun⟩ := @run_cfr1 high { k with p0 := false } hp 0x00
  have hlen := length_ramWords fl f0 fp 0 ad9954RamSize
  rw [hsplit, noMistake_append, hlow, noMistake_append, hrun, noMistake_append, run_append, hlow,
    run_append, hrun, run_append]
  constructor
  · rintro ⟨⟨_, _, hram, _⟩, _⟩
    refine Nat.le_antisymm (hb 0) (Nat.le_of_not_lt fun hlt => ?_)
    refine mistake_register high rfl rfl ?_ hram
    rw [hlen]
    exact Nat.mul_lt_mul_of_pos_left hlt (by decide)
  · intro hseg
    have hne : ramWords fl f0 fp 0 ad9954RamSize ≠ [] := by
      intro he
      rw [he] at hlen
      cases hlen
    obtain ⟨hram, hrun'⟩ := @run_register high
      { k with p0 := false, instruction := 0x00, taken := [], pending := 0 } 0x0b _ rfl rfl
      ((congrArg (4 * ·) hseg).trans hlen.symm) hne
    rw [hrun']
    refine ⟨⟨trivial, hno, hram, (run_cfr1 high rfl 0x80).1⟩, ?_⟩
    exact congrArg Chip.pending (run_cfr1 high rfl 0x80).2

/-- Every call that writes the RAM finds a segment as long as the RAM, each judged where it is
made. -/
def RamReady (k : Chip) : List (Call R) → Prop
  | [] => True
  | call :: calls =>
    (call.WritesRam → k.segment 0 = ad9954RamSize) ∧
      RamReady (k.run high ((call.ops fl).flatMap Op.sent)) calls

/-- One call at an instruction boundary. -/
theorem whole_call_iff {k : Chip} (hp : k.pending = 0) (hb : k.Bounded) (call : Call R) :
    (NoMistake high k ((call.ops fl).flatMap Op.sent) ∧
      (k.run high ((call.ops fl).flatMap Op.sent)).pending = 0) ↔
        (call.WritesRam → k.segment 0 = ad9954RamSize) := by
  by_cases hram : call.WritesRam
  · cases call with
    | changeFreqRamConfig f0 fp =>
      rw [Call.ops, whole_ram_iff fl high hp hb]
      exact ⟨fun h _ => h, fun h => h trivial⟩
    | _ => exact absurd hram id
  · obtain ⟨hno, hpend, _⟩ := whole_ops high (call.ops fl) hp (fits_call fl hram)
    exact iff_of_true ⟨hno, hpend⟩ fun h => absurd h hram

/-- The framing of a run of calls, from every chip at an instruction boundary. -/
theorem framed_iff {k : Chip} (hp : k.pending = 0) (hb : k.Bounded) (calls : List (Call R)) :
    Framed high k (calls.map (Call.ops fl)) ↔ RamReady fl high k calls := by
  induction calls generalizing k with
  | nil => exact Iff.rfl
  | cons call calls ih =>
    have hcall := whole_call_iff fl high hp hb call
    rw [List.map_cons, Framed, RamReady]
    constructor
    · rintro ⟨hno, hpend, hrest⟩
      exact ⟨hcall.mp ⟨hno, hpend⟩, (ih hpend (hb.run high _)).mp hrest⟩
    · rintro ⟨hready, hrest⟩
      obtain ⟨hno, hpend⟩ := hcall.mpr hready
      exact ⟨hno, hpend, (ih hpend (hb.run high _)).mpr hrest⟩

/-- `AD9954_Init` itself is framed, and programs no segment. -/
theorem whole_ad9954Init {k : Chip} (hp : k.pending = 0) :
    NoMistake high k ((ad9954Init fl).flatMap Op.sent) ∧
      (k.run high ((ad9954Init fl).flatMap Op.sent)).pending = 0 ∧
      (k.run high ((ad9954Init fl).flatMap Op.sent)).segment = k.segment := by
  have hfits : ∀ op ∈ ad9954Init fl, op.Fits ∧ op.Below := by
    refine List.forall_mem_cons.mpr ⟨⟨trivial, trivial⟩, ?_⟩
    refine List.forall_mem_cons.mpr ⟨⟨fits_register rfl rfl, ?_⟩, ?_⟩
    · exact (by decide : (0x01 : BitVec 8) &&& 0x9F < 0x07)
    refine List.forall_mem_cons.mpr ⟨⟨fits_register rfl rfl, ?_⟩, ?_⟩
    · exact (by decide : (0x02 : BitVec 8) &&& 0x9F < 0x07)
    refine List.forall_mem_singleton.mpr ⟨fits_register rfl rfl, ?_⟩
    exact (by decide : (0x04 : BitVec 8) &&& 0x9F < 0x07)
  obtain ⟨hno, hpend, hseg⟩ := whole_ops high (ad9954Init fl) hp fun op hop => (hfits op hop).1
  exact ⟨hno, hpend, hseg fun op hop => (hfits op hop).2⟩

end Calls

/-- The boot writes the RAM into a segment of one word. -/
theorem boot_not_whole {R : Type} (fl : Floats R) (high : Fin 4) {k : Chip}
    (hk : k = resetChip.run high ((ad9954Init fl).flatMap Op.sent)) :
    ¬(NoMistake high k ((writeSineFreqDataToRam fl).flatMap Op.sent) ∧
      (k.run high ((writeSineFreqDataToRam fl).flatMap Op.sent)).pending = 0) := by
  obtain ⟨_, hpend, hseg⟩ := whole_ad9954Init fl high (k := resetChip) rfl
  have hone : (1 : Nat) ≤ ad9954RamSize := by decide
  have hb : resetChip.Bounded := fun _ => hone
  rw [hk, writeSineFreqDataToRam, whole_ram_iff fl high hpend (hb.run high _), hseg]
  decide

/-- Behind the boot nothing is framed: the second word that is written to the RAM is taken for
instructions. -/
theorem boot_never_framed {R : Type} (fl : Floats R) (high : Fin 4) (calls : List (Call R)) :
    ¬Framed high resetChip (boot fl ++ calls.map (Call.ops fl)) := by
  rintro ⟨_, _, hno, hpend, _⟩
  exact boot_not_whole fl high rfl ⟨hno, hpend⟩

/-- Words in integer arithmetic, with a RAM that holds the middle frequency throughout. -/
def flatFloats : Floats Nat where
  getFtw f := BitVec.ofNat 32 (f * 1073741824 / 100000000)
  ramFreq f0 _ _ := f0.toNat
  outOfRange f := decide (97000 < f ∨ f < 2)
  rampSpeedNum f := BitVec.ofNat 16 (100000000 / f / 1024)
  sweepWord f := BitVec.ofNat 32 (f * 107374 / 10000)
  ofUint32 := BitVec.toNat

/-- The boot alone, on a board where both profile pins follow the pin. -/
theorem boot_flat_not_framed : ¬Framed 3 resetChip (boot flatFloats ++ []) := by
  rintro ⟨_, _, hno, hpend, _⟩
  exact boot_not_whole flatFloats 3 rfl ⟨hno, hpend⟩

end RtVcom.Board.Ad9954

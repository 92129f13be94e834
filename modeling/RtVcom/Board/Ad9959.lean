/-!
# The four channels of the AD9959

`board/ad9959/board_ad9959.c` drives the chip over three wires and an update line. Each call of
`ad9959_write_freq`, `ad9959_write_amp` and `ad9959_write_phase` is two transfers: the first puts
the channel into the channel-select register, the second writes a register that every channel has,
and the chip takes it for the channels that are selected.

The driver is modelled by the writes of its pins in their order, bit by bit. The chip is modelled
from its side of the wires: it samples SDIO0 on the rising edge of SCLK while CS is low, takes the
first byte of a transfer for the instruction and as many bytes behind it as the register is wide,
keeps what it has taken in a buffer and makes the buffer active on the rising edge of the update
line. CS high ends a transfer.

The law is a simulation between the calls and the waveform, `ad9959_channels_isolated`: whatever
was called, a channel holds the words of the last calls made for it.
-/

namespace RtVcom.Board.Ad9959

/-! ## The driver -/

/-- A pin is written. -/
inductive PinWrite
  | cs (level : Bool)
  | sclk (level : Bool)
  | sdio0 (level : Bool)
  | update (level : Bool)
deriving Repr, DecidableEq

/-- `0x80 == (value & 0x80)`. -/
def topBit (value : BitVec 8) : Bool := value &&& 0x80 == 0x80

/-- The inner loop of `ad9959_write_data`, with the bits that are left. -/
def shiftOut : Nat → BitVec 8 → List PinWrite
  | 0, _ => []
  | i + 1, value =>
    .sclk false :: .sdio0 (topBit value) :: .sclk true :: shiftOut i (value <<< 1)

/-- `_io_updata`. -/
def ioUpdata : List PinWrite := [.update false, .update true, .update false]

/-- `ad9959_write_data`. -/
def ad9959WriteData (registerAddress : BitVec 8) (numberofRegisters : Nat)
    (registerData : List (BitVec 8)) (temp : Nat) : List PinWrite :=
  [.sclk false, .cs false] ++ (shiftOut 8 registerAddress ++ [.sclk false]) ++
    (registerData.take numberofRegisters).flatMap (fun valueToWrite =>
      shiftOut 8 valueToWrite ++ [.sclk false]) ++
    (if temp = 1 then ioUpdata else []) ++ [.cs true]

/-- `CSR_ADD`, `CFTW0_ADD`, `CPOW0_ADD` and `ACR_ADD`. -/
def csrAdd : BitVec 8 := 0x00
def cftw0Add : BitVec 8 := 0x04
def cpow0Add : BitVec 8 := 0x05
def acrAdd : BitVec 8 := 0x06

/-- `CSR_DATA0` to `CSR_DATA3`, by the channel. -/
def csrData (channel : BitVec 8) : Option (List (BitVec 8)) :=
  if channel = 0 then some [0x10]
  else if channel = 1 then some [0x20]
  else if channel = 2 then some [0x40]
  else if channel = 3 then some [0x80]
  else none

/-- The branches over the channel that the three functions share. -/
def writeChannel (channel address : BitVec 8) (numberofRegisters : Nat)
    (data : List (BitVec 8)) : List PinWrite :=
  match csrData channel with
  | some csr => ad9959WriteData csrAdd 1 csr 0 ++ ad9959WriteData address numberofRegisters data 1
  | none => []

/-- The words that are computed in floating point: `Freq * 8.589934592` and
`(float)Phase / 360 * 16384`, each converted back. -/
structure FloatWords where
  freq : BitVec 32 → BitVec 32
  phase : BitVec 16 → BitVec 16

/-- `ad9959_write_freq`. -/
def ad9959WriteFreq (w : FloatWords) (channel : BitVec 8) (freq : BitVec 32) : List PinWrite :=
  let temp := w.freq freq
  writeChannel channel cftw0Add 4
    [(temp >>> 24).setWidth 8, (temp >>> 16).setWidth 8, (temp >>> 8).setWidth 8, temp.setWidth 8]

/-- `ad9959_write_amp`. -/
def ad9959WriteAmp (channel : BitVec 8) (ampli : BitVec 16) : List PinWrite :=
  let aTemp := ampli ||| 0x1000
  writeChannel channel acrAdd 3 [0x00, (aTemp >>> 8).setWidth 8, aTemp.setWidth 8]

/-- `ad9959_write_phase`. -/
def ad9959WritePhase (w : FloatWords) (channel : BitVec 8) (phase : BitVec 16) : List PinWrite :=
  let pTemp := w.phase phase
  writeChannel channel cpow0Add 2 [(pTemp >>> 8).setWidth 8, pTemp.setWidth 8]

/-! ## The chip -/

/-- The width of a register in bytes. -/
def regWidth (address : BitVec 8) : Option Nat :=
  match address with
  | 0x00 => some 1
  | 0x01 => some 3
  | 0x02 => some 2
  | 0x03 => some 3
  | 0x04 => some 4
  | 0x05 => some 2
  | 0x06 => some 3
  | 0x07 => some 2
  | 0x08 => some 4
  | 0x09 => some 4
  | _ => none

/-- The word of some bytes, most significant first. -/
def wordOfBytes (bytes : List (BitVec 8)) : Nat := bytes.foldl (fun w b => 0x100 * w + b.toNat) 0

/-- The registers: the channel-select register, and those of each channel, as they were taken and as
they are active. -/
structure Regs where
  csr : BitVec 8
  buffer : Fin 4 → BitVec 8 → Nat
  active : Fin 4 → BitVec 8 → Nat

/-- A register is written: the channel-select register at once, the register of a channel where
the channel is selected. The function registers 01h and 02h belong to no channel. -/
def Regs.write (r : Regs) (address : BitVec 8) (data : List (BitVec 8)) : Regs :=
  if address = 0x00 then { r with csr := data.headD 0 }
  else if address = 0x01 ∨ address = 0x02 then r
  else
    { r with buffer := fun c a =>
        if r.csr.getLsbD (4 + c) ∧ a = address then wordOfBytes data else r.buffer c a }

/-- A byte comes in behind the bytes of a transfer. Bit 7 of the instruction asks for a read, which
writes nothing. -/
def Regs.receive (r : Regs) (bytes : List (BitVec 8)) (byte : BitVec 8) :
    List (BitVec 8) × Regs :=
  match bytes with
  | [] => ([byte], r)
  | instruction :: data =>
    if regWidth (instruction &&& 0x1F) = some (data.length + 1) then
      ([], if topBit instruction then r else r.write (instruction &&& 0x1F) (data ++ [byte]))
    else (instruction :: (data ++ [byte]), r)

/-- The chip: the levels of its pins, the bits and the bytes of the transfer under way, and its
registers. -/
structure Chip where
  cs : Bool
  sclk : Bool
  sdio0 : Bool
  update : Bool
  shift : BitVec 8
  count : Nat
  bytes : List (BitVec 8)
  regs : Regs

def Chip.takeByte (k : Chip) (byte : BitVec 8) : Chip :=
  { k with
    bytes := (k.regs.receive k.bytes byte).1
    regs := (k.regs.receive k.bytes byte).2 }

/-- SDIO0 is sampled. -/
def Chip.sample (k : Chip) : Chip :=
  let shift := k.shift <<< 1 ||| (if k.sdio0 then 1 else 0)
  if k.count + 1 = 8 then Chip.takeByte { k with shift, count := 0 } shift
  else { k with shift, count := k.count + 1 }

/-- The port is in its single-bit mode with the most significant bit first: the low bits of the
channel-select register are 0. -/
def Regs.SingleBit (r : Regs) : Prop := r.csr &&& 0x07 = 0

instance (r : Regs) : Decidable r.SingleBit := inferInstanceAs (Decidable (_ = _))

/-- A pin of the chip changes. -/
def Chip.pin (k : Chip) : PinWrite → Chip
  | .cs level =>
    if level then { k with cs := true, count := 0, bytes := [] } else { k with cs := false }
  | .sclk level =>
    if level = true ∧ k.sclk = false ∧ k.cs = false ∧ k.regs.SingleBit then
      Chip.sample { k with sclk := true }
    else { k with sclk := level }
  | .sdio0 level => { k with sdio0 := level }
  | .update level =>
    if level = true ∧ k.update = false then
      { k with update := true, regs := { k.regs with active := k.regs.buffer } }
    else { k with update := level }

/-- The waveform of some pin writes. -/
def Chip.pins (k : Chip) (writes : List PinWrite) : Chip := writes.foldl Chip.pin k

/-! ## A byte on the wire -/

theorem pins_append (k : Chip) (l l' : List PinWrite) : k.pins (l ++ l') = (k.pins l).pins l' := by
  rw [Chip.pins, List.foldl_append]
  rfl

theorem pins_nil (k : Chip) : k.pins [] = k := rfl

theorem pins_cons (k : Chip) (w : PinWrite) (l : List PinWrite) :
    k.pins (w :: l) = (k.pin w).pins l := rfl

/-- The bits of `value` shifted into `acc`, most significant first. -/
def shiftIn : Nat → BitVec 8 → BitVec 8 → BitVec 8
  | 0, acc, _ => acc
  | i + 1, acc, value => shiftIn i (acc <<< 1 ||| (if topBit value then 1 else 0)) (value <<< 1)

/-- The bit sent is the highest one. -/
theorem topBit_eq (value : BitVec 8) : topBit value = value.getLsbD 7 := by
  have hbit : ∀ i < 8, (value &&& 0x80).getLsbD i = (decide (i = 7) && value.getLsbD 7) := by
    intro i hi
    rw [BitVec.getLsbD_and]
    match i, hi with
    | 0, _ | 1, _ | 2, _ | 3, _ | 4, _ | 5, _ | 6, _ => exact Bool.and_false _
    | 7, _ => exact (Bool.and_true _).trans (Bool.true_and _).symm
  cases htop : value.getLsbD 7 with
  | true =>
    refine beq_iff_eq.mpr (BitVec.eq_of_getLsbD_eq fun i hi => ?_)
    rw [hbit i hi, htop, Bool.and_true]
    match i, hi with
    | 0, _ | 1, _ | 2, _ | 3, _ | 4, _ | 5, _ | 6, _ | 7, _ => rfl
  | false =>
    refine beq_eq_false_iff_ne.mpr fun he => ?_
    have h7 := hbit 7 (by omega)
    rw [he, htop] at h7
    cases h7

/-- The shift register behind some bits: the bits of the value below, what it held above. -/
theorem getLsbD_shiftIn : ∀ (n : Nat) (acc value : BitVec 8) (i : Nat), n ≤ 8 → i < 8 →
    (shiftIn n acc value).getLsbD i =
      if i < n then value.getLsbD (8 - n + i) else acc.getLsbD (i - n)
  | 0, acc, value, i, _, _ => by
    rw [if_neg (Nat.not_lt_zero i), Nat.sub_zero]
    rfl
  | n + 1, acc, value, i, hn, hi => by
    rw [shiftIn, getLsbD_shiftIn n _ _ i (Nat.le_of_succ_le hn) hi, topBit_eq]
    by_cases hlt : i < n
    · have hge : 8 - n + i - 1 = 8 - (n + 1) + i := by omega
      rw [if_pos hlt, if_pos (Nat.lt_succ_of_lt hlt), BitVec.getLsbD_shiftLeft, hge,
        decide_eq_true (by omega : 8 - n + i < 8), decide_eq_false (by omega : ¬8 - n + i < 1)]
      rfl
    · have hone : ∀ b : Bool, (if b then 1 else 0 : BitVec 8).getLsbD (i - n) =
          (decide (i = n) && b) := by
        intro b
        cases b with
        | false => exact BitVec.getLsbD_zero.trans (Bool.and_false _).symm
        | true =>
          refine (BitVec.getLsbD_one (w := 8)).trans ?_
          rw [Bool.and_true, decide_eq_true (by omega : 0 < 8), Bool.true_and]
          exact decide_eq_decide.mpr (by omega)
      rw [if_neg hlt, BitVec.getLsbD_or, BitVec.getLsbD_shiftLeft, hone]
      by_cases heq : i = n
      · have h7 : 8 - (n + 1) + i = 7 := by omega
        rw [if_pos (by omega), h7, heq, Nat.sub_self]
        simp only [Nat.reduceLT, decide_true, Bool.not_true, Bool.and_false, Bool.false_and,
          Bool.false_or, Bool.true_and]
      · have hsub : i - n - 1 = i - (n + 1) := by omega
        rw [if_neg (by omega), hsub, decide_eq_true (by omega : i - n < 8),
          decide_eq_false (by omega : ¬i - n < 1), decide_eq_false heq, Bool.false_and,
          Bool.or_false]
        rfl

/-- Eight bits make the byte, whatever was there. -/
theorem shiftIn_eight (acc value : BitVec 8) : shiftIn 8 acc value = value := by
  refine BitVec.eq_of_getLsbD_eq fun i hi => ?_
  rw [getLsbD_shiftIn 8 acc value i (Nat.le_refl 8) hi, if_pos hi, Nat.sub_self, Nat.zero_add]

theorem pin_sclk_low (k : Chip) : k.pin (.sclk false) = { k with sclk := false } := rfl

/-- A rising edge of the clock while the chip is selected. -/
theorem pin_bit {k : Chip} (hcs : k.cs = false) (hmode : k.regs.SingleBit) (level : Bool) :
    k.pins [.sclk false, .sdio0 level, .sclk true] =
      Chip.sample { k with sdio0 := level, sclk := true } := by
  rw [pins_cons, pin_sclk_low]
  exact if_pos ⟨rfl, rfl, hcs, hmode⟩

/-- The loop over the bits: the last one completes the byte. -/
theorem pins_shiftOut : ∀ (n : Nat) {k : Chip} (value : BitVec 8), k.cs = false → k.regs.SingleBit →
    k.count + (n + 1) = 8 →
      ∃ level, k.pins (shiftOut (n + 1) value) =
        Chip.takeByte { k with
          shift := shiftIn (n + 1) k.shift value, count := 0, sdio0 := level, sclk := true }
          (shiftIn (n + 1) k.shift value)
  | 0, k, value, hcs, hmode, hcount => by
    refine ⟨topBit value, ?_⟩
    rw [shiftOut, shiftOut, pin_bit hcs hmode, Chip.sample, if_pos hcount]
    rfl
  | n + 1, k, value, hcs, hmode, hcount => by
    have hsplit : shiftOut (n + 1 + 1) value =
        [.sclk false, .sdio0 (topBit value), .sclk true] ++ shiftOut (n + 1) (value <<< 1) := rfl
    have hmore : k.count + 1 ≠ 8 := by omega
    have hrest : k.count + 1 + (n + 1) = 8 := by omega
    rw [hsplit, pins_append, pin_bit hcs hmode, Chip.sample, if_neg hmore]
    exact pins_shiftOut n (value <<< 1) hcs hmode hrest

/-! ## Transfers -/

/-- A chip between two bytes: the clock and the update line are low, no bit is under way. -/
structure Between (k : Chip) (cs : Bool) (bytes : List (BitVec 8)) (r : Regs) : Prop where
  cs : k.cs = cs
  sclk : k.sclk = false
  update : k.update = false
  count : k.count = 0
  bytes : k.bytes = bytes
  regs : k.regs = r

section Transfer

variable {k : Chip} {r : Regs}

/-- A byte on the wire is received, and the clock is low again. -/
theorem between_byte {bytes : List (BitVec 8)} (h : Between k false bytes r)
    (hmode : r.SingleBit) (value : BitVec 8) :
    Between (k.pins (shiftOut 8 value ++ [.sclk false])) false (r.receive bytes value).1
      (r.receive bytes value).2 := by
  have hk : k.regs.SingleBit := by
    rw [h.regs]
    exact hmode
  obtain ⟨level, hpins⟩ := pins_shiftOut 7 value h.cs hk (by rw [h.count])
  rw [pins_append, hpins, shiftIn_eight]
  refine ⟨h.cs, rfl, h.update, rfl, ?_, ?_⟩
  · rw [← h.bytes, ← h.regs]
    rfl
  · rw [← h.bytes, ← h.regs]
    rfl

/-- The data of a register, behind its instruction. -/
theorem between_data {instruction : BitVec 8} (hwrite : topBit instruction = false)
    (hmode : r.SingleBit) :
    ∀ {k : Chip} (rest data : List (BitVec 8)), rest ≠ [] →
      regWidth (instruction &&& 0x1F) = some (data.length + rest.length) →
      Between k false (instruction :: data) r →
        Between (k.pins (rest.flatMap fun value => shiftOut 8 value ++ [.sclk false])) false []
          (r.write (instruction &&& 0x1F) (data ++ rest))
  | k, [], data, hne, _, _ => absurd rfl hne
  | k, [value], data, _, hwidth, h => by
    have hb := between_byte h hmode value
    simp only [Regs.receive, List.length_singleton] at hb hwidth
    rw [if_pos hwidth, hwrite, if_neg Bool.false_ne_true] at hb
    simpa only [List.flatMap_cons, List.flatMap_nil, List.append_nil] using hb
  | k, value :: value' :: rest, data, _, hwidth, h => by
    have hb := between_byte h hmode value
    have hmore : regWidth (instruction &&& 0x1F) ≠ some (data.length + 1) := by
      rw [hwidth]
      intro he
      have := Option.some.inj he
      simp only [List.length_cons] at this
      omega
    simp only [Regs.receive] at hb
    rw [if_neg hmore] at hb
    have hlen : (data ++ [value]).length + (value' :: rest).length =
        data.length + (value :: value' :: rest).length := by
      simp only [List.length_append, List.length_cons, List.length_nil]
      omega
    have hrest := between_data hwrite hmode (value' :: rest) (data ++ [value])
      (List.cons_ne_nil _ _) (by rw [hlen]; exact hwidth) hb
    rw [List.append_assoc, List.singleton_append] at hrest
    rw [List.flatMap_cons, pins_append]
    exact hrest

/-- `_io_updata` makes the registers active. -/
theorem between_ioUpdata {cs : Bool} {bytes : List (BitVec 8)} (h : Between k cs bytes r) :
    Between (k.pins ioUpdata) cs bytes { r with active := r.buffer } := by
  have hpins : k.pins ioUpdata =
      { k with update := false, regs := { k.regs with active := k.regs.buffer } } := rfl
  rw [hpins]
  exact ⟨h.cs, h.sclk, rfl, h.count, h.bytes, by rw [h.regs]⟩

/-- The registers behind `ad9959_write_data`. -/
def Regs.afterWrite (r : Regs) (address : BitVec 8) (data : List (BitVec 8)) (temp : Nat) : Regs :=
  let r := r.write address data
  if temp = 1 then { r with active := r.buffer } else r

/-- CS high ends the transfer. -/
theorem between_release {bytes : List (BitVec 8)} (h : Between k false bytes r) :
    Between (k.pins [.cs true]) true [] r :=
  ⟨rfl, h.sclk, h.update, rfl, rfl, h.regs⟩

/-- `ad9959_write_data` of a register with as many bytes as it is wide. -/
theorem between_ad9959WriteData {address : BitVec 8} {data : List (BitVec 8)}
    (h : Between k true [] r) (hmode : r.SingleBit) (haddr : address &&& 0x1F = address)
    (hwrite : topBit address = false) (hwidth : regWidth address = some data.length)
    (hne : data ≠ []) (temp : Nat) :
    Between (k.pins (ad9959WriteData address data.length data temp)) true []
      (r.afterWrite address data temp) := by
  have hsel : Between (k.pins [.sclk false, .cs false]) false [] r :=
    ⟨rfl, rfl, h.update, h.count, h.bytes, h.regs⟩
  have hinstr := between_byte hsel hmode address
  have hwidth' : regWidth (address &&& 0x1F) =
      some (([] : List (BitVec 8)).length + data.length) := by
    rw [haddr, hwidth, List.length_nil, Nat.zero_add]
  have hdata := between_data hwrite hmode data [] hne hwidth' hinstr
  rw [haddr, List.nil_append] at hdata
  rw [ad9959WriteData, List.take_length, pins_append, pins_append, pins_append, pins_append,
    Regs.afterWrite]
  by_cases htemp : temp = 1
  · have hup := between_ioUpdata hdata
    rw [if_pos htemp, if_pos htemp]
    exact between_release hup
  · rw [if_neg htemp, if_neg htemp, pins_nil]
    exact between_release hdata

end Transfer

/-! ## Calls -/

/-- The bit of a channel in the channel-select register. -/
theorem csrData_eq_some {channel : BitVec 8} {data : List (BitVec 8)}
    (h : csrData channel = some data) :
    ∃ csr : BitVec 8, data = [csr] ∧ csr &&& 0x07 = 0 ∧ channel.toNat < 4 ∧
      ∀ c : Fin 4, csr.getLsbD (4 + c) = true ↔ channel.toNat = c := by
  unfold csrData at h
  split at h
  · next hc =>
    cases h
    exact ⟨0x10, rfl, rfl, by rw [hc]; decide, by rw [hc]; decide⟩
  split at h
  · next hc =>
    cases h
    exact ⟨0x20, rfl, rfl, by rw [hc]; decide, by rw [hc]; decide⟩
  split at h
  · next hc =>
    cases h
    exact ⟨0x40, rfl, rfl, by rw [hc]; decide, by rw [hc]; decide⟩
  split at h
  · next hc =>
    cases h
    exact ⟨0x80, rfl, rfl, by rw [hc]; decide, by rw [hc]; decide⟩
  · cases h

/-- Only the channels to 3 have a selection. -/
theorem csrData_eq_none {channel : BitVec 8} : csrData channel = none ↔ 3 < channel.toNat := by
  constructor
  · intro h
    have hne : ∀ n : BitVec 8, csrData n ≠ none → channel.toNat ≠ n.toNat := by
      intro n hn he
      rw [BitVec.eq_of_toNat_eq he] at h
      exact hn h
    have h0 : channel.toNat ≠ 0 := hne 0 nofun
    have h1 : channel.toNat ≠ 1 := hne 1 nofun
    have h2 : channel.toNat ≠ 2 := hne 2 nofun
    have h3 : channel.toNat ≠ 3 := hne 3 nofun
    omega
  · intro hlt
    cases h : csrData channel with
    | none => rfl
    | some data =>
      obtain ⟨_, _, _, hle, _⟩ := csrData_eq_some h
      omega

/-- A chip at rest: deselected, in its single-bit mode, with everything it has taken active. -/
structure Idle (k : Chip) : Prop where
  between : Between k true [] k.regs
  singleBit : k.regs.SingleBit
  active : k.regs.active = k.regs.buffer

/-- The three kinds of words, by the register they are written to. -/
inductive Kind
  | freq
  | amp
  | phase
deriving Repr, DecidableEq

def Kind.address : Kind → BitVec 8
  | .freq => cftw0Add
  | .amp => acrAdd
  | .phase => cpow0Add

/-- A call of the driver. -/
inductive Call
  | writeFreq (channel : BitVec 8) (freq : BitVec 32)
  | writeAmp (channel : BitVec 8) (ampli : BitVec 16)
  | writePhase (channel : BitVec 8) (phase : BitVec 16)
deriving Repr, DecidableEq

def Call.pins (w : FloatWords) : Call → List PinWrite
  | .writeFreq channel freq => ad9959WriteFreq w channel freq
  | .writeAmp channel ampli => ad9959WriteAmp channel ampli
  | .writePhase channel phase => ad9959WritePhase w channel phase

/-- The chip behind some calls. -/
def Chip.calls (w : FloatWords) (k : Chip) (calls : List Call) : Chip :=
  calls.foldl (fun k call => k.pins (call.pins w)) k

def Call.channel : Call → BitVec 8
  | .writeFreq channel _ => channel
  | .writeAmp channel _ => channel
  | .writePhase channel _ => channel

def Call.kind : Call → Kind
  | .writeFreq _ _ => .freq
  | .writeAmp _ _ => .amp
  | .writePhase _ _ => .phase

/-- The word that a call computes: `Temp`, `A_temp` or `P_temp`. -/
def Call.word (w : FloatWords) : Call → Nat
  | .writeFreq _ freq => (w.freq freq).toNat
  | .writeAmp _ ampli => (ampli ||| 0x1000).toNat
  | .writePhase _ phase => (w.phase phase).toNat

/-- The word that a call computes for a register of a channel, if it is for that one. -/
def Call.wordFor (w : FloatWords) (kind : Kind) (c : Fin 4) (call : Call) : Option Nat :=
  if call.channel.toNat = c ∧ call.kind = kind then some (call.word w) else none

/-- The channel-select register is written. -/
theorem afterWrite_csr (r : Regs) (csr : BitVec 8) :
    r.afterWrite csrAdd [csr] 0 = { r with csr } := rfl

/-- A register of the channels is written, and made active. -/
theorem afterWrite_channel (r : Regs) {address : BitVec 8} (data : List (BitVec 8))
    (haddr : address = cftw0Add ∨ address = acrAdd ∨ address = cpow0Add) :
    r.afterWrite address data 1 =
      { r with
        buffer := fun c a =>
          if r.csr.getLsbD (4 + c) ∧ a = address then wordOfBytes data else r.buffer c a
        active := fun c a =>
          if r.csr.getLsbD (4 + c) ∧ a = address then wordOfBytes data else r.buffer c a } := by
  rcases haddr with rfl | rfl | rfl
  · rfl
  · rfl
  · rfl

/-- The two transfers of a call: the register of the channel, and nothing else. -/
theorem idle_writeChannel {k : Chip} (h : Idle k) {channel address : BitVec 8}
    {data : List (BitVec 8)} (hchannel : channel.toNat ≤ 3)
    (haddr : address = cftw0Add ∨ address = acrAdd ∨ address = cpow0Add)
    (hwidth : regWidth address = some data.length) (hne : data ≠ []) :
    Idle (k.pins (writeChannel channel address data.length data)) ∧
      ∀ c a, (k.pins (writeChannel channel address data.length data)).regs.active c a =
        if channel.toNat = c ∧ a = address then wordOfBytes data else k.regs.active c a := by
  cases hcsr : csrData channel with
  | none =>
    have := csrData_eq_none.mp hcsr
    omega
  | some csrBytes =>
    obtain ⟨csr, rfl, hmode, _, hbit⟩ := csrData_eq_some hcsr
    have hcontrol : address &&& 0x1F = address ∧ topBit address = false := by
      rcases haddr with rfl | rfl | rfl
      · exact ⟨rfl, rfl⟩
      · exact ⟨rfl, rfl⟩
      · exact ⟨rfl, rfl⟩
    have hsel := @between_ad9959WriteData k k.regs csrAdd [csr] h.between h.singleBit rfl rfl rfl
      (List.cons_ne_nil _ _) 0
    rw [afterWrite_csr] at hsel
    have hreg := between_ad9959WriteData hsel hmode hcontrol.1 hcontrol.2 hwidth hne 1
    rw [afterWrite_channel _ _ haddr] at hreg
    have hpins : k.pins (writeChannel channel address data.length data) =
        (k.pins (ad9959WriteData csrAdd [csr].length [csr] 0)).pins
          (ad9959WriteData address data.length data 1) := by
      rw [writeChannel, hcsr, ← pins_append]
      rfl
    rw [hpins]
    refine ⟨⟨?_, ?_, ?_⟩, fun c a => ?_⟩
    · rw [hreg.regs]
      exact hreg
    · rw [hreg.regs]
      exact hmode
    · rw [hreg.regs]
    · rw [hreg.regs]
      simp only [hbit c, h.active]

/-- The bytes of a call, most significant first. -/
def Call.data (w : FloatWords) : Call → List (BitVec 8)
  | .writeFreq _ freq =>
    [(w.freq freq >>> 24).setWidth 8, (w.freq freq >>> 16).setWidth 8,
      (w.freq freq >>> 8).setWidth 8, (w.freq freq).setWidth 8]
  | .writeAmp _ ampli =>
    [0x00, ((ampli ||| 0x1000) >>> 8).setWidth 8, (ampli ||| 0x1000).setWidth 8]
  | .writePhase _ phase => [(w.phase phase >>> 8).setWidth 8, (w.phase phase).setWidth 8]

section Calls

variable (w : FloatWords)

/-- A call selects the channel and writes the register. -/
theorem pins_call (call : Call) :
    call.pins w =
      writeChannel call.channel call.kind.address (call.data w).length (call.data w) := by
  cases call with
  | writeFreq channel freq => rfl
  | writeAmp channel ampli => rfl
  | writePhase channel phase => rfl

theorem regWidth_call (call : Call) :
    regWidth call.kind.address = some (call.data w).length := by
  cases call with
  | writeFreq channel freq => rfl
  | writeAmp channel ampli => rfl
  | writePhase channel phase => rfl

/-- The bytes are those of the word. -/
theorem wordOfBytes_call (call : Call) : wordOfBytes (call.data w) = call.word w := by
  cases call with
  | writeFreq channel freq =>
    have hlt := (w.freq freq).isLt
    simp only [wordOfBytes, Call.data, Call.word, List.foldl_cons, List.foldl_nil,
      BitVec.toNat_setWidth, BitVec.toNat_ushiftRight, Nat.shiftRight_eq_div_pow]
    omega
  | writeAmp channel ampli =>
    have hlt := (ampli ||| 0x1000).isLt
    simp only [wordOfBytes, Call.data, Call.word, List.foldl_cons, List.foldl_nil,
      BitVec.toNat_setWidth, BitVec.toNat_ushiftRight, Nat.shiftRight_eq_div_pow]
    generalize (ampli ||| 0x1000).toNat = n at hlt
    have hzero : BitVec.toNat (0 : BitVec 8) = 0 := rfl
    omega
  | writePhase channel phase =>
    have hlt := (w.phase phase).isLt
    simp only [wordOfBytes, Call.data, Call.word, List.foldl_cons, List.foldl_nil,
      BitVec.toNat_setWidth, BitVec.toNat_ushiftRight, Nat.shiftRight_eq_div_pow]
    omega

/-- The register of a call is one of the three. -/
theorem Kind.address_mem (kind : Kind) :
    kind.address = cftw0Add ∨ kind.address = acrAdd ∨ kind.address = cpow0Add := by
  cases kind with
  | freq => exact .inl rfl
  | amp => exact .inr (.inl rfl)
  | phase => exact .inr (.inr rfl)

theorem Kind.address_inj {kind kind' : Kind} (h : kind.address = kind'.address) : kind = kind' := by
  cases kind <;> cases kind' <;> first | rfl | cases h

/-- A call for no channel writes no pin. -/
theorem pins_call_none {call : Call} (h : 3 < call.channel.toNat) : call.pins w = [] := by
  rw [pins_call, writeChannel, csrData_eq_none.mpr h]

/-- One call: the register of its channel, and nothing else. -/
theorem idle_call {k : Chip} (h : Idle k) (call : Call) :
    Idle (k.pins (call.pins w)) ∧
      ∀ c a, (k.pins (call.pins w)).regs.active c a =
        if call.channel.toNat = c ∧ a = call.kind.address then call.word w
        else k.regs.active c a := by
  by_cases hle : call.channel.toNat ≤ 3
  · rw [pins_call, ← wordOfBytes_call]
    refine idle_writeChannel h hle call.kind.address_mem (regWidth_call w call) ?_
    cases call with
    | writeFreq channel freq => nofun
    | writeAmp channel ampli => nofun
    | writePhase channel phase => nofun
  · rw [pins_call_none w (by omega)]
    refine ⟨h, fun c a => (if_neg fun hc => ?_).symm⟩
    have := c.isLt
    omega

/-- The chip is idle between calls. -/
theorem idle_calls {k : Chip} (h : Idle k) (calls : List Call) : Idle (k.calls w calls) := by
  induction calls generalizing k with
  | nil => exact h
  | cons call calls ih => exact ih (idle_call w h call).1

/-- The words of the channels behind some calls, by the last ones. -/
theorem calls_active {k : Chip} (h : Idle k) (calls : List Call) (c : Fin 4) (kind : Kind) :
    (k.calls w calls).regs.active c kind.address =
      ((calls.filterMap (Call.wordFor w kind c)).getLast?).getD
        (k.regs.active c kind.address) := by
  induction calls generalizing k with
  | nil => rfl
  | cons call calls ih =>
    obtain ⟨hidle, hactive⟩ := idle_call w h call
    rw [Chip.calls, List.foldl_cons, ← Chip.calls, ih hidle, hactive, List.filterMap_cons]
    by_cases hcall : call.channel.toNat = c ∧ call.kind = kind
    · have haddr : kind.address = call.kind.address := by rw [hcall.2]
      rw [Call.wordFor, if_pos hcall, if_pos ⟨hcall.1, haddr⟩, List.getLast?_cons, Option.getD_some]
    · have haddr : ¬(call.channel.toNat = c ∧ kind.address = call.kind.address) :=
        fun hc => hcall ⟨hc.1, (Kind.address_inj hc.2).symm⟩
      rw [Call.wordFor, if_neg hcall, if_neg haddr]

/-- One more call behind the others. -/
theorem calls_snoc (k : Chip) (calls : List Call) (call : Call) :
    k.calls w (calls ++ [call]) = (k.calls w calls).pins (call.pins w) := by
  rw [Chip.calls, List.foldl_append]
  rfl

end Calls

/-- The channels are isolated. Behind every sequence of calls a channel holds the words of the last
calls made for it, a call for another channel changes none of its registers, and a call for no
channel changes nothing at all. -/
theorem ad9959_channels_isolated (w : FloatWords) {k : Chip} (h : Idle k) (calls : List Call)
    (c : Fin 4) :
    (∀ kind, (k.calls w calls).regs.active c kind.address =
      ((calls.filterMap (Call.wordFor w kind c)).getLast?).getD (k.regs.active c kind.address)) ∧
    (∀ call : Call, call.channel.toNat ≠ c →
      (k.calls w (calls ++ [call])).regs.active c = (k.calls w calls).regs.active c) ∧
    (∀ call : Call, 3 < call.channel.toNat →
      k.calls w (calls ++ [call]) = k.calls w calls) := by
  refine ⟨calls_active w h calls c, fun call hne => ?_, fun call hgt => ?_⟩
  · funext a
    rw [calls_snoc, (idle_call w (idle_calls w h calls) call).2, if_neg fun hc => hne hc.1]
  · rw [calls_snoc, pins_call_none w hgt, pins_nil]

/-- The chip behind its reset: all channels are selected. -/
def resetChip : Chip where
  cs := true
  sclk := false
  sdio0 := false
  update := false
  shift := 0
  count := 0
  bytes := []
  regs := { csr := 0xF0, buffer := fun _ _ => 0, active := fun _ _ => 0 }

theorem idle_resetChip : Idle resetChip := ⟨⟨rfl, rfl, rfl, rfl, rfl, rfl⟩, rfl, rfl⟩

/-- The words in exact arithmetic, rounded down. -/
def exactWords : FloatWords where
  freq freq := BitVec.ofNat 32 (freq.toNat * 8589934592 / 1000000000)
  phase phase := BitVec.ofNat 16 (phase.toNat * 16384 / 360)

/-- Frequencies and an amplitude, on two channels: each keeps its own. -/
theorem ad9959_two_channels :
    Idle resetChip ∧
      (resetChip.calls exactWords [.writeFreq 0 1, .writeAmp 3 5, .writeFreq 3 2]).regs.active 0
        Kind.freq.address = 8 ∧
      (resetChip.calls exactWords [.writeFreq 0 1, .writeAmp 3 5, .writeFreq 3 2]).regs.active 3
        Kind.amp.address = 0x1005 :=
  ⟨idle_resetChip,
    (ad9959_channels_isolated exactWords idle_resetChip
      [.writeFreq 0 1, .writeAmp 3 5, .writeFreq 3 2] 0).1 .freq,
    (ad9959_channels_isolated exactWords idle_resetChip
      [.writeFreq 0 1, .writeAmp 3 5, .writeFreq 3 2] 3).1 .amp⟩

end RtVcom.Board.Ad9959

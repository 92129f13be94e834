import RtVcom.Board.Ad9959
import RtVcom.Lib.CNumber

/-!
# The words of the AD9959

The shell command `9959_c` hands what `atoi` makes of its arguments to `ad9959_write_freq`,
`ad9959_write_amp` and `ad9959_write_phase`, narrowed to the types of their parameters, and nobody
looks at the range. What the three functions make of it is compared here with the fields it is meant
for: 32 bits of frequency, 10 bits of amplitude under the bit that enables the multiplier, and 14
bits of phase in a register of 16.

`ad9959ControlCmd_fits_iff` is the exact range. A frequency of 500 MHz, which is that of the system
clock, an amplitude that reaches into the bits above its field and a phase of four turns do not fit.
-/

namespace RtVcom.Board.Ad9959

open RtVcom.Lib.CNumber

/-! ## The command -/

/-- The words `freq`, `amp` and `phase` of the command. -/
def freqWord : List (BitVec 8) := [0x66, 0x72, 0x65, 0x71]
def ampWord : List (BitVec 8) := [0x61, 0x6D, 0x70]
def phaseWord : List (BitVec 8) := [0x70, 0x68, 0x61, 0x73, 0x65]

/-- `ad9959_control_cmd`: the call that is made, if one is. The arguments are narrowed to the types
of the parameters. -/
def ad9959ControlCmd (atoi : List (BitVec 8) → ℤ) (argv : List (List (BitVec 8))) : Option Call :=
  match argv with
  | _ :: word :: channel :: data :: _ =>
    let channel := BitVec.ofInt 8 (atoi channel)
    if freqWord = word then some (.writeFreq channel (BitVec.ofInt 32 (atoi data)))
    else if ampWord = word then some (.writeAmp channel (BitVec.ofInt 16 (atoi data)))
    else if phaseWord = word then some (.writePhase channel (BitVec.ofInt 16 (atoi data)))
    else none
  | _ => none

/-! ## The words -/

/-- `Freq * 8.589934592`. -/
def freqProduct (freq : BitVec 32) : ℚ := freq.toNat * (8589934592 / 1000000000)

/-- `(float)Phase / 360 * 16384`. -/
def phaseProduct (phase : BitVec 16) : ℚ := phase.toNat / 360 * 16384

/-- The words come from the exact products wherever the conversion is defined. -/
structure Converts (w : FloatWords) : Prop where
  freq : ∀ freq word, toUint 32 (freqProduct freq) = some word → w.freq freq = word
  phase : ∀ phase word, toUint 16 (phaseProduct phase) = some word → w.phase phase = word

/-- The word of a call fits its field. An amplitude is sent for the four channels only. -/
def Call.WordFits (w : FloatWords) : Call → Prop
  | .writeFreq _ freq => trunc (freqProduct freq) < 2 ^ 32
  | .writeAmp channel ampli =>
    channel.toNat ≤ 3 → (ampli ||| 0x1000) &&& 0xFC00 = (0x1000 : BitVec 16)
  | .writePhase _ phase =>
    trunc (phaseProduct phase) < 2 ^ 16 ∧
      ((w.phase phase).toNat : ℤ) % 2 ^ 14 = trunc (phaseProduct phase) % 2 ^ 14

/-- The arguments for which it does: a frequency below 500 MHz, no bit of the amplitude above its
field but the one that is set anyway, a phase below four turns. -/
def Call.InRange : Call → Prop
  | .writeFreq _ freq => freq.toNat < 500000000
  | .writeAmp channel ampli => channel.toNat ≤ 3 → ampli &&& 0xEC00 = 0
  | .writePhase _ phase => phase.toNat < 1440

theorem freqProduct_nonneg (freq : BitVec 32) : 0 ≤ freqProduct freq := by
  unfold freqProduct
  positivity

theorem phaseProduct_nonneg (phase : BitVec 16) : 0 ≤ phaseProduct phase := by
  unfold phaseProduct
  positivity

/-- The frequencies whose product fits 32 bits. -/
theorem freqProduct_lt_iff (freq : BitVec 32) :
    freqProduct freq < 2 ^ 32 ↔ freq.toNat < 500000000 := by
  have hscale : freqProduct freq < 2 ^ 32 ↔ (freq.toNat : ℚ) < 500000000 := by
    unfold freqProduct
    constructor
    · intro h
      linarith
    · intro h
      linarith
  rw [hscale]
  exact_mod_cast Iff.rfl

/-- The phases whose product fits 16 bits. -/
theorem phaseProduct_lt_iff (phase : BitVec 16) :
    phaseProduct phase < 2 ^ 16 ↔ phase.toNat < 1440 := by
  have hscale : phaseProduct phase < 2 ^ 16 ↔ (phase.toNat : ℚ) < 1440 := by
    unfold phaseProduct
    constructor
    · intro h
      linarith
    · intro h
      linarith
  rw [hscale]
  exact_mod_cast Iff.rfl

/-- A bit that is set anyway does not count: what is left of a word under a mask is that bit alone
where no other bit of the word is under the mask. -/
theorem or_and_or_iff {n : Nat} {word mask bit : BitVec n} (h : mask &&& bit = 0) :
    (word ||| bit) &&& (mask ||| bit) = bit ↔ word &&& mask = 0 := by
  have hbits : ∀ i, i < n → (mask.getLsbD i && bit.getLsbD i) = false := by
    intro i _
    rw [← BitVec.getLsbD_and, h, BitVec.ofNat_eq_ofNat, BitVec.getLsbD_zero]
  rw [BitVec.eq_of_getLsbD_eq_iff, BitVec.eq_of_getLsbD_eq_iff]
  refine forall₂_congr fun i hi => ?_
  have hi := hbits i hi
  simp only [BitVec.getLsbD_and, BitVec.getLsbD_or, BitVec.ofNat_eq_ofNat, BitVec.getLsbD_zero]
  cases word.getLsbD i <;> cases hmask : mask.getLsbD i <;> cases hbit : bit.getLsbD i <;>
    simp_all

/-- One call. -/
theorem wordFits_iff {w : FloatWords} (hw : Converts w) (call : Call) :
    call.WordFits w ↔ call.InRange := by
  cases call with
  | writeFreq channel freq =>
    have hlt := trunc_lt_iff (freqProduct_nonneg freq) (n := 2 ^ 32)
    push_cast at hlt
    exact hlt.trans (freqProduct_lt_iff freq)
  | writeAmp channel ampli =>
    have hmask : (0xEC00 : BitVec 16) &&& 0x1000 = 0 := rfl
    exact imp_congr Iff.rfl (or_and_or_iff hmask)
  | writePhase channel phase =>
    have hlt := trunc_lt_iff (phaseProduct_nonneg phase) (n := 2 ^ 16)
    push_cast at hlt
    constructor
    · intro h
      exact (phaseProduct_lt_iff phase).mp (hlt.mp h.1)
    · intro h
      have hfits := (phaseProduct_lt_iff phase).mpr h
      obtain ⟨word, hword⟩ := (toUint_isSome_iff (phaseProduct_nonneg phase)).mpr hfits
      refine ⟨hlt.mpr hfits, ?_⟩
      rw [hw.phase phase word hword, toUint_eq_some hword]

/-! ## The law of the command -/

/-- Whatever `atoi` makes of the arguments, the words that a command computes fit their fields
exactly where the arguments are in range. -/
theorem ad9959ControlCmd_fits_iff {w : FloatWords} (hw : Converts w) (atoi : List (BitVec 8) → ℤ)
    (argv : List (List (BitVec 8))) :
    (∀ call ∈ ad9959ControlCmd atoi argv, call.WordFits w) ↔
      ∀ call ∈ ad9959ControlCmd atoi argv, call.InRange :=
  forall₂_congr fun call _ => wordFits_iff hw call

/-- The exact products of `exactWords`, as fractions. -/
theorem trunc_div {q : ℚ} {a b : Nat} (h : q = (a : ℤ) / (b : ℤ)) : trunc q = (a / b : Nat) := by
  have hnonneg : 0 ≤ q := by
    rw [h]
    positivity
  rw [trunc_of_nonneg hnonneg, h]
  exact_mod_cast Rat.floor_intCast_div_natCast a b

/-- Words taken from the exact products satisfy `Converts`. -/
theorem converts_exactWords : Converts exactWords where
  freq freq word hword := by
    have htrunc : trunc (freqProduct freq) = (freq.toNat * 8589934592 / 1000000000 : Nat) := by
      refine trunc_div ?_
      unfold freqProduct
      push_cast
      ring
    have hnat := toUint_eq_some hword
    rw [htrunc] at hnat
    show BitVec.ofNat 32 (freq.toNat * 8589934592 / 1000000000) = word
    rw [← Int.ofNat.inj hnat, BitVec.ofNat_toNat, BitVec.setWidth_eq]
  phase phase word hword := by
    have htrunc : trunc (phaseProduct phase) = (phase.toNat * 16384 / 360 : Nat) := by
      refine trunc_div ?_
      unfold phaseProduct
      push_cast
      ring
    have hnat := toUint_eq_some hword
    rw [htrunc] at hnat
    show BitVec.ofNat 16 (phase.toNat * 16384 / 360) = word
    rw [← Int.ofNat.inj hnat, BitVec.ofNat_toNat, BitVec.setWidth_eq]

/-- `9959_c freq 0 500000000`, with the name of the command as `argv[0]`. -/
def overflowingFreq : List (List (BitVec 8)) :=
  [[0x39, 0x39, 0x35, 0x39, 0x5F, 0x63], freqWord, [0x30],
    [0x35, 0x30, 0x30, 0x30, 0x30, 0x30, 0x30, 0x30, 0x30]]

/-- `9959_c amp 0 1024`. -/
def overflowingAmp : List (List (BitVec 8)) :=
  [[0x39, 0x39, 0x35, 0x39, 0x5F, 0x63], ampWord, [0x30], [0x31, 0x30, 0x32, 0x34]]

/-- `9959_c phase 0 1440`. -/
def overflowingPhase : List (List (BitVec 8)) :=
  [[0x39, 0x39, 0x35, 0x39, 0x5F, 0x63], phaseWord, [0x30], [0x31, 0x34, 0x34, 0x30]]

/-- Each of the three words can be driven out of its field. -/
theorem ad9959ControlCmd_overflows :
    (∃ call ∈ ad9959ControlCmd intValue overflowingFreq, ¬call.WordFits exactWords) ∧
      (∃ call ∈ ad9959ControlCmd intValue overflowingAmp, ¬call.WordFits exactWords) ∧
      ∃ call ∈ ad9959ControlCmd intValue overflowingPhase, ¬call.WordFits exactWords := by
  have hfreq : ad9959ControlCmd intValue overflowingFreq = some (.writeFreq 0 500000000) := by
    decide
  have hamp : ad9959ControlCmd intValue overflowingAmp = some (.writeAmp 0 1024) := by decide
  have hphase : ad9959ControlCmd intValue overflowingPhase = some (.writePhase 0 1440) := by decide
  refine ⟨⟨_, hfreq, ?_⟩, ⟨_, hamp, ?_⟩, ⟨_, hphase, ?_⟩⟩
  · rw [wordFits_iff converts_exactWords]
    exact Nat.lt_irrefl 500000000
  · rw [wordFits_iff converts_exactWords]
    intro h
    exact absurd (h (Nat.zero_le 3)) (by decide)
  · rw [wordFits_iff converts_exactWords]
    exact Nat.lt_irrefl 1440

/-- A quarter of a turn. -/
theorem ad9959ControlCmd_quarter :
    ∃ call ∈ ad9959ControlCmd intValue [[], phaseWord, [0x31], [0x39, 0x30]],
      call = .writePhase 1 90 ∧ call.WordFits exactWords := by
  have hphase : ad9959ControlCmd intValue [[], phaseWord, [0x31], [0x39, 0x30]] =
      some (.writePhase 1 90) := by decide
  have hrange : ∀ call ∈ ad9959ControlCmd intValue [[], phaseWord, [0x31], [0x39, 0x30]],
      call.InRange := by
    intro call hcall
    rw [hphase] at hcall
    cases hcall
    exact (by decide : 90 < 1440)
  exact ⟨_, hphase, rfl, (ad9959ControlCmd_fits_iff converts_exactWords _ _).mpr hrange _ hphase⟩

end RtVcom.Board.Ad9959

import RtVcom.Hmi.Receiver
import RtVcom.Board.Ad9954Words
import RtVcom.Lib.TextBuffer
import RtVcom.Ulog.LineFit

/-!
# The commands of the HMI

`hmi_cmd_analysis` looks for a command at the begin of its buffer, reads a number at a fixed offset
behind it, and where the number is in the range of the command changes a setting, writes the RAM of
the AD9954 and answers the panel. The accesses to the command and to `cache_buff` are checked, and
the `double` of the answer is an exact fraction.

Two laws are about every sequence of commands. The ranges of the two settings are tested one at a
time, in 32 bits and unsigned; together they keep the words of the RAM table positive and below the
Nyquist word (`hmiCmdAnalysis_ftw`). Behind the receiver a command has its own effect and no other
(`hmiThread_executes`): the number may be read behind the terminator of a short command, but the
buffer is zero there.
-/

namespace RtVcom.Hmi

open RtVcom.Lib RtVcom.Lib.CNumber
open RtVcom.Board.Ad9954 (fHNum ramFreq exactFloats)
open RtVcom.Ulog (decimal nulFree_decimal)

/-! ## The commands -/

/-- `cmd_list`, as its rows are in memory. -/
def cmdList : List (List (BitVec 8)) :=
  [[0x66, 0x30, 0, 0, 0], [0x66, 0x70, 0, 0, 0], [0, 0, 0, 0, 0]]

/-- `CHANGE_FO` and `CHANGE_FP`. -/
def changeFo : Nat := 1
def changeFp : Nat := 2

/-- `hmi_cmd_end`. -/
def hmiCmdEnd : List (BitVec 8) := [0xFF, 0xFF, 0xFF, 0]

/-- The loop over `cmd_list`: the number of the command, and 0 if there is none. -/
def findCmd (cmd : List (BitVec 8)) : List (List (BitVec 8)) → Nat → Option Nat
  | [], _ => none
  | row :: rows, i =>
    if row.head? = some 0 then some 0
    else do
      let n ← strlen row
      if ← strncmp row cmd n then some (i + 1) else findCmd cmd rows (i + 1)

/-- `atoi(cmd + rt_strlen(cmd_list[res - 1]) + 1)`, converted to `uint32_t`. -/
def cmdNumber (cmd : List (BitVec 8)) (res : Nat) : Option (BitVec 32) := do
  let row ← cmdList[res - 1]?
  let n ← strlen row
  let v ← atoi (cmd.drop (n + 1))
  some (BitVec.ofInt 32 v)

def digit (d : Nat) : BitVec 8 := BitVec.ofNat 8 (d % 10 + 0x30)

/-- A number of thousandths, with three decimals. -/
def thousandths (n : Nat) : List (BitVec 8) :=
  decimal (n / 1000) ++ [0x2E, digit (n / 100), digit (n / 10), digit n]

/-- `%.3f` of a number that is not negative. -/
def printf3f (q : ℚ) : List (BitVec 8) := thousandths ⌊1000 * q + 1 / 2⌋.toNat

/-- `f0.txt="%.3fKHz"`, and the same with `fp`. -/
def replyText (name : List (BitVec 8)) (q : ℚ) : List (BitVec 8) :=
  name ++ [0x2E, 0x74, 0x78, 0x74, 0x3D, 0x22] ++ printf3f q ++ [0x4B, 0x48, 0x7A, 0x22]

def f0Name : List (BitVec 8) := [0x66, 0x30]
def fpName : List (BitVec 8) := [0x66, 0x70]

/-- What a command can reach: the two settings, the calls of `ad9954_change_freq_ram_config`, and
what was written to the port. -/
structure Panel where
  fskF0Freq : BitVec 32
  fskFpFreq : BitVec 32
  ramConfigs : List (BitVec 32 × BitVec 32)
  written : List (BitVec 8)
deriving DecidableEq

/-- `ad9954_change_freq_ram_config(fsk_f0_freq, fsk_fp_freq)`. -/
def Panel.changeFreqRamConfig (p : Panel) : Panel :=
  { p with ramConfigs := p.ramConfigs ++ [(p.fskF0Freq, p.fskFpFreq)] }

/-- The answer: `sprintf` to `cache_buff`, and the two calls of `rt_device_write`. -/
def Panel.reply (p : Panel) (name : List (BitVec 8)) (freq : BitVec 32) : Option Panel := do
  let cacheBuff ← (CArray.fill hmiCmdLen (0 : BitVec 8)).write 0
    (replyText name (freq.toNat / 1000) ++ [0])
  let n ← strlen (cacheBuff.ptr 0)
  let m ← strlen hmiCmdEnd
  some { p with written := p.written ++ (cacheBuff.ptr 0).take n ++ hmiCmdEnd.take m }

/-- `hmi_cmd_analysis`. -/
def hmiCmdAnalysis (p : Panel) (cmd : List (BitVec 8)) : Option Panel := do
  let res ← findCmd cmd cmdList 0
  if res = changeFo then
    let tempF0 ← cmdNumber cmd res
    if 10000000 < tempF0.toNat ∧ tempF0.toNat < 12000000 then
      let p := Panel.changeFreqRamConfig { p with fskF0Freq := tempF0 }
      p.reply f0Name p.fskF0Freq
    else some p
  else if res = changeFp then
    let tempFp ← cmdNumber cmd res
    if 1000 ≤ tempFp.toNat ∧ tempFp.toNat ≤ 10000000 then
      let p := Panel.changeFreqRamConfig { p with fskFpFreq := tempFp }
      p.reply fpName p.fskFpFreq
    else some p
  else some p

/-- The settings behind the boot. -/
def Panel.boot : Panel where
  fskF0Freq := 10650000
  fskFpFreq := 50000
  ramConfigs := []
  written := []

/-! ## The answer -/

/-- `%.3f` of a frequency in kHz shows its thousandths. -/
theorem printf3f_thousandths (n : Nat) : printf3f (n / 1000) = thousandths n := by
  have hfloor : ⌊1000 * ((n : ℚ) / 1000) + 1 / 2⌋ = n := by
    rw [Int.floor_eq_iff]
    constructor
    · push_cast
      linarith
    · push_cast
      linarith
  rw [printf3f, hfloor, Int.toNat_natCast]

theorem digit_ne_zero (n : Nat) : digit n ≠ 0 := by
  have hdigit : ∀ d < 10, BitVec.ofNat 8 (d + 0x30) ≠ 0 := by decide
  exact hdigit (n % 10) (Nat.mod_lt n (by decide))

/-- A number printed has no NUL in it. -/
theorem nulFree_thousandths (n : Nat) : NulFree (thousandths n) := by
  refine nulFree_append.mpr ⟨nulFree_decimal _, ?_⟩
  simp only [nulFree_cons, nulFree_nil, and_true, digit_ne_zero, ne_eq, not_false_eq_true]
  decide

theorem nulFree_replyText {name : List (BitVec 8)} (hname : NulFree name) (n : Nat) :
    NulFree (replyText name (n / 1000)) := by
  have htxt : NulFree [0x2E, 0x74, 0x78, 0x74, 0x3D, 0x22] := by simp [NulFree]
  have hkhz : NulFree [0x4B, 0x48, 0x7A, 0x22] := by simp [NulFree]
  rw [replyText, printf3f_thousandths]
  exact nulFree_append.mpr ⟨nulFree_append.mpr ⟨nulFree_append.mpr ⟨hname, htxt⟩,
    nulFree_thousandths n⟩, hkhz⟩

/-- The answer with a setting of up to 12 MHz has room in `cache_buff`, with its terminator. -/
theorem length_replyText_lt {name : List (BitVec 8)} (hname : name.length = 2) {n : Nat}
    (h : n ≤ 12000000) : (replyText name (n / 1000)).length + 1 ≤ hmiCmdLen := by
  have hdecimal : (decimal (n / 1000)).length ≤ 5 := by
    rw [decimal, List.length_map]
    refine (Nat.length_toDigits_le_iff (by decide) (by decide)).mpr ?_
    omega
  rw [replyText, printf3f_thousandths, thousandths]
  simp only [List.length_append, List.length_cons, List.length_nil, hname, hmiCmdLen]
  omega

/-- The answer of a setting: the text and the end of a command, and nothing else. -/
theorem Panel.reply_eq (p : Panel) {name : List (BitVec 8)} (hname : NulFree name)
    {freq : BitVec 32} (hfits : (replyText name (freq.toNat / 1000)).length + 1 ≤ hmiCmdLen) :
    p.reply name freq = some { p with
      written := p.written ++ (replyText name (freq.toNat / 1000) ++ [0xFF, 0xFF, 0xFF]) } := by
  have hfree := nulFree_replyText hname freq.toNat
  unfold Panel.reply
  generalize replyText name (freq.toNat / 1000) = text at hfits hfree
  have hroom : 0 + (text ++ [0]).length ≤ hmiCmdLen := by
    rw [Nat.zero_add, List.length_append, List.length_singleton]
    exact hfits
  obtain ⟨b, hb, hitems⟩ :=
    @CArray.write_eq_some _ _ (text ++ [0]) (CArray.fill hmiCmdLen (0 : BitVec 8)) 0 hroom
  have hmem : ∃ rest, b.ptr 0 = text ++ 0 :: rest := by
    refine ⟨(CArray.fill hmiCmdLen (0 : BitVec 8)).items.drop (0 + (text ++ [0]).length), ?_⟩
    rw [CArray.ptr, List.drop_zero, hitems, List.take_zero, List.nil_append, List.append_assoc,
      List.singleton_append]
  obtain ⟨rest, hrest⟩ := hmem
  have hend : strlen hmiCmdEnd = some 3 := rfl
  simp only [hb, hrest, hend, strlen_append_nul hfree, Option.bind_eq_bind, Option.bind_some,
    List.take_left, List.append_assoc]
  rfl

/-! ## What a command does -/

/-- A setting that was accepted. -/
inductive Setting
  | f0 (v : BitVec 32)
  | fp (v : BitVec 32)
deriving DecidableEq

/-- The range of a setting. -/
def Setting.InRange : Setting → Prop
  | .f0 v => 10000000 < v.toNat ∧ v.toNat < 12000000
  | .fp v => 1000 ≤ v.toNat ∧ v.toNat ≤ 10000000

/-- The text that the panel gets for a setting, in kilohertz with three decimals. -/
def Setting.reply : Setting → List (BitVec 8)
  | .f0 v => replyText f0Name (v.toNat / 1000)
  | .fp v => replyText fpName (v.toNat / 1000)

/-- A setting is changed: the RAM is written once with both settings, and the panel is answered. -/
def Panel.apply (p : Panel) : Setting → Panel
  | .f0 v =>
    { fskF0Freq := v
      fskFpFreq := p.fskFpFreq
      ramConfigs := p.ramConfigs ++ [(v, p.fskFpFreq)]
      written := p.written ++ ((Setting.f0 v).reply ++ [0xFF, 0xFF, 0xFF]) }
  | .fp v =>
    { fskF0Freq := p.fskF0Freq
      fskFpFreq := v
      ramConfigs := p.ramConfigs ++ [(p.fskF0Freq, v)]
      written := p.written ++ ((Setting.fp v).reply ++ [0xFF, 0xFF, 0xFF]) }

/-- A reply fits the buffer of a command. -/
theorem Setting.length_reply {s : Setting} (h : s.InRange) : s.reply.length + 1 ≤ hmiCmdLen := by
  cases s with
  | f0 v => exact length_replyText_lt rfl (Nat.le_of_lt h.2)
  | fp v => exact length_replyText_lt rfl (Nat.le_trans h.2 (by decide))

theorem nulFree_f0Name : NulFree f0Name := by simp [NulFree, f0Name]
theorem nulFree_fpName : NulFree fpName := by simp [NulFree, fpName]

/-- The two branches of the switch, for a setting in range. -/
theorem reply_f0 (p : Panel) {v : BitVec 32} (h : (Setting.f0 v).InRange) :
    (Panel.changeFreqRamConfig { p with fskF0Freq := v }).reply f0Name v =
      some (p.apply (.f0 v)) := by
  rw [Panel.reply_eq _ nulFree_f0Name (Setting.length_reply h)]
  rfl

theorem reply_fp (p : Panel) {v : BitVec 32} (h : (Setting.fp v).InRange) :
    (Panel.changeFreqRamConfig { p with fskFpFreq := v }).reply fpName v =
      some (p.apply (.fp v)) := by
  rw [Panel.reply_eq _ nulFree_fpName (Setting.length_reply h)]
  rfl

/-- The setting of a command with its number, if the number is in its range. -/
def settingOf (res : Nat) (v : BitVec 32) : Option Setting :=
  if res = changeFo then
    if 10000000 < v.toNat ∧ v.toNat < 12000000 then some (.f0 v) else none
  else if res = changeFp then
    if 1000 ≤ v.toNat ∧ v.toNat ≤ 10000000 then some (.fp v) else none
  else none

/-- A setting accepted is in its range. -/
theorem inRange_of_settingOf {res : Nat} {v : BitVec 32} {s : Setting}
    (h : settingOf res v = some s) : s.InRange := by
  unfold settingOf at h
  split at h
  · split at h
    · next hv =>
      cases h
      exact hv
    · cases h
  split at h
  · split at h
    · next hv =>
      cases h
      exact hv
    · cases h
  · cases h

/-- A command changes the setting it names, and otherwise nothing. -/
theorem hmiCmdAnalysis_eq (p : Panel) {cmd : List (BitVec 8)} {res : Nat}
    (hres : findCmd cmd cmdList 0 = some res) :
    hmiCmdAnalysis p cmd =
      if res = changeFo ∨ res = changeFp then
        (cmdNumber cmd res).map fun v => (settingOf res v).elim p p.apply
      else some p := by
  simp only [hmiCmdAnalysis, hres, Option.bind_eq_bind, Option.bind_some]
  by_cases hfo : res = changeFo
  · rw [if_pos hfo, if_pos (Or.inl hfo), Option.map_eq_bind]
    refine Option.bind_congr fun v _ => ?_
    by_cases hv : 10000000 < v.toNat ∧ v.toNat < 12000000
    · rw [if_pos hv, Function.comp_apply, settingOf, if_pos hfo, if_pos hv]
      exact reply_f0 p hv
    · rw [if_neg hv, Function.comp_apply, settingOf, if_pos hfo, if_neg hv]
      rfl
  rw [if_neg hfo]
  by_cases hfp : res = changeFp
  · rw [if_pos hfp, if_pos (Or.inr hfp), Option.map_eq_bind]
    refine Option.bind_congr fun v _ => ?_
    by_cases hv : 1000 ≤ v.toNat ∧ v.toNat ≤ 10000000
    · rw [if_pos hv, Function.comp_apply, settingOf, if_neg hfo, if_pos hfp, if_pos hv]
      exact reply_fp p hv
    · rw [if_neg hv, Function.comp_apply, settingOf, if_neg hfo, if_pos hfp, if_neg hv]
      rfl
  · rw [if_neg hfp, if_neg fun h => h.elim hfo hfp]

/-- What a command can do, whatever is in its buffer. -/
theorem hmiCmdAnalysis_cases {p p' : Panel} {cmd : List (BitVec 8)}
    (h : hmiCmdAnalysis p cmd = some p') : p' = p ∨ ∃ s : Setting, s.InRange ∧ p' = p.apply s := by
  cases hres : findCmd cmd cmdList 0 with
  | none =>
    rw [hmiCmdAnalysis, hres] at h
    cases h
  | some res =>
    rw [hmiCmdAnalysis_eq p hres] at h
    split at h
    · obtain ⟨v, _, rfl⟩ := Option.map_eq_some_iff.mp h
      cases hs : settingOf res v with
      | none => exact .inl rfl
      | some s => exact .inr ⟨s, inRange_of_settingOf hs, rfl⟩
    · cases h
      exact .inl rfl

/-! ## Commands behind the receiver -/

/-- The setting that a payload asks for: its command, and the number from its fourth character
on. -/
def Setting.ofPayload (payload : List (BitVec 8)) : Option Setting :=
  let v := intValue (payload.drop 3)
  if f0Name <+: payload ∧ 10000000 < v ∧ v < 12000000 then some (.f0 (BitVec.ofInt 32 v))
  else if fpName <+: payload ∧ 1000 ≤ v ∧ v ≤ 10000000 then some (.fp (BitVec.ofInt 32 v))
  else none

/-- A number of `int` in a range of positive numbers, read as an unsigned one. -/
theorem toNat_ofInt_range {v : ℤ} (hv : -0x80000000 ≤ v ∧ v ≤ 0x7FFFFFFF) {a b : Nat}
    (ha : 0 < a) (hb : b < 0x80000000) :
    a ≤ (BitVec.ofInt 32 v).toNat ∧ (BitVec.ofInt 32 v).toNat ≤ b ↔ (a : ℤ) ≤ v ∧ v ≤ b := by
  rw [BitVec.toNat_ofInt]
  omega

/-- The memory of a payload: zero behind its end. -/
theorem padded_nul {t : List (BitVec 8)} (h : t.length < hmiCmdLen) (k : Nat)
    (hk : k + 1 < hmiCmdLen) :
    ∃ rest, (t ++ List.replicate (hmiCmdLen - t.length) 0).drop k = t.drop k ++ 0 :: rest := by
  obtain ⟨z, hz⟩ : ∃ z, hmiCmdLen - t.length - (k - t.length) = z + 1 :=
    ⟨hmiCmdLen - t.length - (k - t.length) - 1, by omega⟩
  refine ⟨List.replicate z 0, ?_⟩
  rw [List.drop_append, List.drop_replicate, hz, List.replicate_succ]

/-- The number of the command of a payload. -/
def commandOf (t : List (BitVec 8)) : Nat :=
  if f0Name <+: t then changeFo else if fpName <+: t then changeFp else 0

/-- The command of a payload is found in the table. -/
theorem findCmd_payload {t : List (BitVec 8)} (hfree : NulFree t) (rest : List (BitVec 8)) :
    findCmd (t ++ 0 :: rest) cmdList 0 = some (commandOf t) := by
  have hf0 : strncmp [0x66, 0x30, 0, 0, 0] (t ++ 0 :: rest) 2 = some (f0Name.isPrefixOf t) :=
    strncmp_prefix_nul nulFree_f0Name hfree [0, 0, 0] rest
  have hfp : strncmp [0x66, 0x70, 0, 0, 0] (t ++ 0 :: rest) 2 = some (fpName.isPrefixOf t) :=
    strncmp_prefix_nul nulFree_fpName hfree [0, 0, 0] rest
  have hlenf0 : strlen [0x66, 0x30, 0, 0, 0] = some 2 := rfl
  have hlenfp : strlen [0x66, 0x70, 0, 0, 0] = some 2 := rfl
  have hfirst : (some (0x66 : BitVec 8) = some 0) = False := by decide
  simp only [findCmd, cmdList, List.head?_cons, hfirst, if_false, if_true, hlenf0, hlenfp, hf0, hfp,
    Option.bind_eq_bind, Option.bind_some, List.isPrefixOf_iff_prefix, commandOf, changeFo,
    changeFp]
  split
  · rfl
  split
  · rfl
  · rfl

/-- The number of a command: the offset is that behind a name of two characters. -/
theorem cmdNumber_payload {t : List (BitVec 8)} (h : t.length < hmiCmdLen) {res : Nat}
    (hres : res = changeFo ∨ res = changeFp) :
    cmdNumber (t ++ List.replicate (hmiCmdLen - t.length) 0) res =
      some (BitVec.ofInt 32 (intValue (t.drop 3))) := by
  obtain ⟨rest, hrest⟩ := padded_nul h 3 (by decide)
  have hrow : ∀ {res : Nat}, res = changeFo ∨ res = changeFp →
      ∃ row, cmdList[res - 1]? = some row ∧ strlen row = some 2 := by
    rintro res (rfl | rfl)
    · exact ⟨_, rfl, rfl⟩
    · exact ⟨_, rfl, rfl⟩
  obtain ⟨row, hget, hlen⟩ := hrow hres
  simp only [cmdNumber, hget, hlen, hrest, atoi_nul, Option.bind_eq_bind, Option.bind_some]

/-- No payload begins with both names. -/
theorem not_fp_of_f0 {t : List (BitVec 8)} (h : f0Name <+: t) : ¬fpName <+: t := by
  intro hfp
  have heq : f0Name = fpName :=
    (List.prefix_of_prefix_length_le h hfp (Nat.le_refl 2)).eq_of_length rfl
  exact absurd heq (by decide)

/-- The ranges, tested unsigned, are those of the number. -/
theorem settingOf_payload (t : List (BitVec 8)) :
    settingOf (commandOf t) (BitVec.ofInt 32 (intValue (t.drop 3))) = Setting.ofPayload t := by
  have hbounds := intValue_bounds (t.drop 3)
  unfold Setting.ofPayload
  generalize intValue (t.drop 3) = v at hbounds
  have hf0 : (10000000 < (BitVec.ofInt 32 v).toNat ∧ (BitVec.ofInt 32 v).toNat < 12000000) ↔
      10000000 < v ∧ v < 12000000 := by
    have hrange := toNat_ofInt_range hbounds (a := 10000001) (b := 11999999) (by decide) (by decide)
    omega
  have hfp : (1000 ≤ (BitVec.ofInt 32 v).toNat ∧ (BitVec.ofInt 32 v).toNat ≤ 10000000) ↔
      1000 ≤ v ∧ v ≤ 10000000 :=
    toNat_ofInt_range hbounds (a := 1000) (b := 10000000) (by decide) (by decide)
  have hne : changeFp ≠ changeFo ∧ 0 ≠ changeFo ∧ 0 ≠ changeFp := by decide
  by_cases hfo : f0Name <+: t
  · simp only [commandOf, settingOf, hfo, not_fp_of_f0 hfo, hf0, if_true, if_false, true_and,
      false_and]
  by_cases hpo : fpName <+: t
  · simp only [commandOf, settingOf, hfo, hpo, hfp, hne, if_true, if_false, true_and, false_and]
  · simp only [commandOf, settingOf, hfo, hpo, hne, if_false, false_and]

/-- A payload behind the receiver has its own effect and no other. -/
theorem hmiCmdAnalysis_payload (p : Panel) {t : List (BitVec 8)} (hfree : NulFree t)
    (h : t.length < hmiCmdLen) :
    hmiCmdAnalysis p (t ++ List.replicate (hmiCmdLen - t.length) 0) =
      some ((Setting.ofPayload t).elim p p.apply) := by
  obtain ⟨rest, hrest⟩ := padded_nul h 0 (by decide)
  rw [List.drop_zero, List.drop_zero] at hrest
  have hfind : findCmd (t ++ List.replicate (hmiCmdLen - t.length) 0) cmdList 0 =
      some (commandOf t) := by
    rw [hrest]
    exact findCmd_payload hfree rest
  rw [hmiCmdAnalysis_eq p hfind, ← settingOf_payload]
  split
  · next hres =>
    rw [cmdNumber_payload h hres]
    rfl
  · next hres =>
    rw [settingOf, if_neg fun h => hres (.inl h), if_neg fun h => hres (.inr h)]
    rfl

/-- The memory of a payload. -/
theorem map_padded (payload : List UInt8) :
    (padded payload).map UInt8.toBitVec =
      payload.map UInt8.toBitVec ++
        List.replicate (hmiCmdLen - (payload.map UInt8.toBitVec).length) 0 := by
  rw [padded, List.map_append, List.map_replicate, List.length_map]
  rfl

/-- The setting of a frame. -/
def PanelFrame.setting (f : PanelFrame) : Option Setting :=
  Setting.ofPayload (f.payload.bytes.map UInt8.toBitVec)

/-- The frames one after another, each by its own payload. -/
theorem foldlM_frames (p : Panel) (frames : List PanelFrame)
    (h : ∀ f ∈ frames, 0 ∉ f.payload.bytes) :
    (frames.map fun f => (padded f.payload.bytes).map UInt8.toBitVec).foldlM hmiCmdAnalysis p =
      some ((frames.filterMap PanelFrame.setting).foldl Panel.apply p) := by
  induction frames generalizing p with
  | nil => rfl
  | cons f frames ih =>
    obtain ⟨hf, hrest⟩ := List.forall_mem_cons.mp h
    have hfree : NulFree (f.payload.bytes.map UInt8.toBitVec) := by
      intro c hc hzero
      obtain ⟨b, hb, rfl⟩ := List.mem_map.mp hc
      obtain rfl : b = 0 := UInt8.toBitVec_inj.mp hzero
      exact hf hb
    have hlen : (f.payload.bytes.map UInt8.toBitVec).length < hmiCmdLen := by
      rw [List.length_map]
      exact f.payload.fits
    rw [List.map_cons, List.foldlM_cons, map_padded, hmiCmdAnalysis_payload p hfree hlen,
      Option.bind_eq_bind, Option.bind_some, ih _ hrest, List.filterMap_cons, PanelFrame.setting]
    cases Setting.ofPayload (f.payload.bytes.map UInt8.toBitVec) with
    | none => rfl
    | some s => rfl

/-- Whatever frames the panel sends, `hmi_thread` hands each to `hmi_cmd_analysis`, and each has the
effect of its own payload: the setting that its command and its number ask for, if the number is in
range, and nothing otherwise. No access is outside of the command or of `cache_buff`, in which every
answer has room with its terminator. -/
theorem hmiThread_executes (p : Panel) (frames : List PanelFrame) (trail : Noise)
    (h : ∀ f ∈ frames, 0 ∉ f.payload.bytes) :
    ∃ t, hmiThread (arriving (frames.flatMap PanelFrame.bytes ++ trail.bytes)) = .ok t ∧
      (t.calls.map (List.map UInt8.toBitVec)).foldlM hmiCmdAnalysis p =
        some ((frames.filterMap PanelFrame.setting).foldl Panel.apply p) ∧
      ∀ f ∈ frames, ∀ s ∈ f.setting, s.reply.length + 1 ≤ hmiCmdLen := by
  refine ⟨_, hmiThread_decodes frames trail, ?_, fun f _ s hs => ?_⟩
  · rw [List.map_map]
    exact foldlM_frames p frames h
  · have hs : Setting.ofPayload (f.payload.bytes.map UInt8.toBitVec) = some s := hs
    rw [← settingOf_payload] at hs
    exact Setting.length_reply (inRange_of_settingOf hs)

/-- `f0=11000000`. -/
def retune : List UInt8 := [0x66, 0x30, 0x3D, 0x31, 0x31, 0x30, 0x30, 0x30, 0x30, 0x30, 0x30]

theorem ofPayload_retune : Setting.ofPayload (retune.map UInt8.toBitVec) = some (.f0 11000000) := by
  decide

/-- A command behind one that ends before its number would begin: only the second one does
anything. -/
theorem hmiThread_executes_retune :
    let short : PanelFrame := ⟨⟨[], List.not_mem_nil⟩,
      ⟨[0x66, 0x30], List.cons_ne_nil _ _, by decide, by decide⟩⟩
    let whole : PanelFrame := ⟨⟨[], List.not_mem_nil⟩,
      ⟨retune, List.cons_ne_nil _ _, by decide, by decide⟩⟩
    ∃ t, hmiThread (arriving ([short, whole].flatMap PanelFrame.bytes ++ [])) = .ok t ∧
      (t.calls.map (List.map UInt8.toBitVec)).foldlM hmiCmdAnalysis Panel.boot =
        some (Panel.boot.apply (.f0 11000000)) := by
  intro short whole
  obtain ⟨t, ht, hcalls, _⟩ := hmiThread_executes Panel.boot [short, whole]
    ⟨[], List.not_mem_nil⟩ (by decide)
  refine ⟨t, ht, hcalls.trans ?_⟩
  have hsettings : [short, whole].filterMap PanelFrame.setting = [.f0 11000000] := by decide
  rw [hsettings]
  rfl

/-! ## The words of the table -/

/-- The settings, and those that the RAM was written with, are in range. -/
structure Tuned (p : Panel) : Prop where
  f0 : (Setting.f0 p.fskF0Freq).InRange
  fp : (Setting.fp p.fskFpFreq).InRange
  configs : ∀ c ∈ p.ramConfigs, (Setting.f0 c.1).InRange ∧ (Setting.fp c.2).InRange

theorem tuned_boot : Tuned Panel.boot :=
  ⟨by simp [Setting.InRange, Panel.boot], by simp [Setting.InRange, Panel.boot],
    List.forall_mem_nil _⟩

/-- A setting in range keeps it so. -/
theorem Tuned.apply {p : Panel} (h : Tuned p) {s : Setting} (hs : s.InRange) :
    Tuned (p.apply s) := by
  cases s with
  | f0 v => exact ⟨hs, h.fp, List.forall_mem_append.mpr
      ⟨h.configs, List.forall_mem_singleton.mpr ⟨hs, h.fp⟩⟩⟩
  | fp v => exact ⟨h.f0, hs, List.forall_mem_append.mpr
      ⟨h.configs, List.forall_mem_singleton.mpr ⟨h.f0, hs⟩⟩⟩

theorem Tuned.run {p p' : Panel} (h : Tuned p) (cmds : List (List (BitVec 8)))
    (hrun : cmds.foldlM hmiCmdAnalysis p = some p') : Tuned p' := by
  induction cmds generalizing p with
  | nil =>
    cases hrun
    exact h
  | cons cmd cmds ih =>
    rw [List.foldlM_cons] at hrun
    obtain ⟨q, hq, hrest⟩ := Option.bind_eq_some_iff.mp hrun
    obtain rfl | ⟨s, hs, rfl⟩ := hmiCmdAnalysis_cases hq
    · exact ih h hrest
    · exact ih (h.apply hs) hrest

/-- Two settings in range and a sine: a positive frequency, well below the Nyquist word. -/
theorem ramFreq_bounds {f0 fp : BitVec 32} (hf0 : (Setting.f0 f0).InRange)
    (hfp : (Setting.fp fp).InRange) {s : ℚ} (hlow : -1 ≤ s) (hhigh : s ≤ 1) :
    0 < ramFreq f0 fp s ∧ fHNum * ramFreq f0 fp s < 2 ^ 31 := by
  have hf0low : (10000001 : ℚ) ≤ f0.toNat := by exact_mod_cast hf0.1
  have hf0high : (f0.toNat : ℚ) ≤ 12000000 := by exact_mod_cast Nat.le_of_lt hf0.2
  have hfphigh : (fp.toNat : ℚ) ≤ 10000000 := by exact_mod_cast hfp.2
  have hfpnonneg : (0 : ℚ) ≤ fp.toNat := Nat.cast_nonneg _
  have hdown : (fp.toNat : ℚ) * -1 ≤ fp.toNat * s := mul_le_mul_of_nonneg_left hlow hfpnonneg
  have hup : (fp.toNat : ℚ) * s ≤ fp.toNat * 1 := mul_le_mul_of_nonneg_left hhigh hfpnonneg
  unfold ramFreq fHNum
  constructor
  · linarith
  · linarith

/-- Whatever commands came, every call of `ad9954_change_freq_ram_config` finds settings with which
every entry of the table is a positive frequency, its product with `fH_Num` is in range, and the
conversion of `Get_FTW` is defined and gives a word below the Nyquist word. -/
theorem hmiCmdAnalysis_ftw {cmds : List (List (BitVec 8))} {p : Panel}
    (hrun : cmds.foldlM hmiCmdAnalysis Panel.boot = some p) {c : BitVec 32 × BitVec 32}
    (hc : c ∈ p.ramConfigs) (sine : Nat → ℚ) {i : Nat} (hlow : -1 ≤ sine i)
    (hhigh : sine i ≤ 1) :
    let fl := exactFloats sine
    0 < fl.ramFreq c.1 c.2 i ∧
      (0 ≤ fHNum * fl.ramFreq c.1 c.2 i ∧ fHNum * fl.ramFreq c.1 c.2 i < 2 ^ 31) ∧
      toUint 32 (fHNum * fl.ramFreq c.1 c.2 i) = some (fl.getFtw (fl.ramFreq c.1 c.2 i)) ∧
      (fl.getFtw (fl.ramFreq c.1 c.2 i)).toNat < 2 ^ 31 := by
  obtain ⟨hf0, hfp⟩ := (tuned_boot.run cmds hrun).configs c hc
  obtain ⟨hpos, hlt⟩ := ramFreq_bounds hf0 hfp hlow hhigh
  have hnonneg : 0 ≤ fHNum * ramFreq c.1 c.2 (sine i) :=
    mul_nonneg (by norm_num [fHNum]) (le_of_lt hpos)
  have hfits : fHNum * ramFreq c.1 c.2 (sine i) < 2 ^ 32 := lt_trans hlt (by norm_num)
  obtain ⟨word, hword⟩ := (toUint_isSome_iff hnonneg).mpr hfits
  have hftw : (exactFloats sine).getFtw (ramFreq c.1 c.2 (sine i)) = word := by
    simp only [exactFloats, hword, Option.getD_some]
  have htrunc := toUint_eq_some hword
  have hbelow : trunc (fHNum * ramFreq c.1 c.2 (sine i)) < 2 ^ 31 := by
    refine (trunc_lt_iff hnonneg).mpr ?_
    push_cast
    exact hlt
  refine ⟨hpos, ⟨hnonneg, hlt⟩, ?_, ?_⟩
  · exact hword.trans (congrArg some hftw.symm)
  · rw [show (exactFloats sine).ramFreq c.1 c.2 i = ramFreq c.1 c.2 (sine i) from rfl, hftw]
    omega

/-- The lowest frequency behind a command. -/
theorem hmiCmdAnalysis_ftw_retune :
    ∃ p, [(padded retune).map UInt8.toBitVec].foldlM hmiCmdAnalysis Panel.boot = some p ∧
      (11000000, 50000) ∈ p.ramConfigs ∧ 0 < ramFreq 11000000 50000 (-1) := by
  have hrun : [(padded retune).map UInt8.toBitVec].foldlM hmiCmdAnalysis Panel.boot =
      some (Panel.boot.apply (.f0 11000000)) := by
    rw [List.foldlM_cons, map_padded,
      hmiCmdAnalysis_payload Panel.boot (by simp [NulFree, retune]) (by decide), ofPayload_retune]
    rfl
  have hmem : ((11000000, 50000) : BitVec 32 × BitVec 32) ∈
      (Panel.boot.apply (.f0 11000000)).ramConfigs := List.mem_singleton.mpr rfl
  have hlow : (-1 : ℚ) ≤ 1 := by norm_num
  exact ⟨_, hrun, hmem, (@hmiCmdAnalysis_ftw _ _ hrun _ hmem (fun _ => -1) 0 le_rfl hlow).1⟩

end RtVcom.Hmi

import Mathlib.Data.List.Forall2
import RtVcom.Ulog.LineLayout

/-!
# The backends

`ulog_output_to_all_backend` hands one line to every registered backend. A backend that does not
support colours is to get the line without its colour sequences. The loop makes that line by moving
`log` and `size`, and does not move them back: the backends behind the first one without colours
get what is left by it. Neither does it look at `is_raw`, and for a level without a colour it takes
the length of the string at NULL.

`outputs_iff` says when all backends get what they are to get: if all of them support colours, or if
the line has colours and only the last backend does not support them.
-/

namespace RtVcom.Ulog

open RtVcom.Lib

/-! ## Registered backends -/

/-- What `ulog_output_to_all_backend` reads of a `struct ulog_backend`; `name` tells one from
another. -/
structure Backend where
  name : Nat
  supportColor : Bool
  deriving DecidableEq

/-- What it reads of `struct rt_ulog`. -/
structure RtUlog where
  initOk : Bool
  backendList : List Backend

/-- `ulog_init`. -/
def ulogInit : RtUlog := ⟨true, []⟩

/-- `ulog_backend_register`: behind the others. -/
def ulogBackendRegister (ulog : RtUlog) (backend : Backend) : Option RtUlog :=
  if ulog.initOk then some { ulog with backendList := ulog.backendList ++ [backend] } else none

/-- Backends are registered one after the other. -/
def registered (backends : List Backend) : Option RtUlog :=
  backends.foldlM ulogBackendRegister ulogInit

/-- They are in the list in that order. -/
theorem registered_eq (backends : List Backend) : registered backends = some ⟨true, backends⟩ := by
  have hall (rest : List Backend) (first : List Backend) :
      rest.foldlM ulogBackendRegister ⟨true, first⟩ = some ⟨true, first ++ rest⟩ := by
    induction rest generalizing first with
    | nil => rw [List.append_nil]; rfl
    | cons backend rest ih =>
      rw [List.foldlM_cons]
      exact (ih (first ++ [backend])).trans (by rw [List.append_assoc]; rfl)
  exact hall backends []

/-! ## `ulog_output_to_all_backend` -/

/-- A call of `backend->output`; `log` is counted from the start of the line. -/
structure Output where
  backend : Backend
  level : BitVec 32
  tag : Option CString
  isRaw : Bool
  log : Nat
  size : Nat

/-- The loop over the backends. -/
def outputLoop (level : BitVec 32) (tag : Option CString) (isRaw : Bool) :
    List Backend → Nat → Nat → Option (List Output)
  | [], _, _ => some []
  | backend :: rest, log, size =>
    if backend.supportColor then do
      let outputs ← outputLoop level tag isRaw rest log size
      some (⟨backend, level, tag, isRaw, log, size⟩ :: outputs)
    else do
      let info ← colorOutputInfo[level.toNat]?
      -- `rt_strlen` of a level without a colour reads at NULL
      let info ← info
      let colorHdrLen := csiStart.length + info.length
      let (log, size) := if info.length ≠ 0 then
        (log + colorHdrLen, sub32 size (add32 colorHdrLen csiEnd.length)) else (log, size)
      let outputs ← outputLoop level tag isRaw rest log size
      some (⟨backend, level, tag, isRaw, log, size⟩ :: outputs)

/-- `ulog_output_to_all_backend`. -/
def ulogOutputToAllBackend (ulog : RtUlog) (level : BitVec 32) (tag : Option CString)
    (isRaw : Bool) (log size : Nat) : Option (List Output) :=
  if ulog.initOk then outputLoop level tag isRaw ulog.backendList log size else some []

/-! ## What the backends are to get -/

/-- A level has a colour and the line is not raw: the line has the colour sequences. -/
def coloured (level : BitVec 32) (isRaw : Bool) : Bool :=
  !isRaw && (levelColor level.toNat).isSome

/-- The line that is made of a text. -/
def recordLine (level : BitVec 32) (isRaw : Bool) (body : List (BitVec 8)) : List (BitVec 8) :=
  if coloured level isRaw then colorText (levelColor level.toNat) ++ body ++ csiEnd else body

/-- A record: `ulog_voutput` asserts the level, and the line is in memory. -/
structure Record where
  level : BitVec 32
  tag : Option CString
  isRaw : Bool
  body : List (BitVec 8)
  valid : level.toNat ≤ 7
  inMemory : (recordLine level isRaw body).length < 0x100000000

namespace Record

def line (r : Record) : List (BitVec 8) := recordLine r.level r.isRaw r.body

/-- A backend with colours gets the line, another one the line without its colour sequences. -/
def viewOf (r : Record) (backend : Backend) : List (BitVec 8) :=
  if backend.supportColor then r.line else r.body

end Record

/-- The bytes that an output reads, if they are in the line. -/
def Output.shown (o : Output) (line : List (BitVec 8)) : Option (List (BitVec 8)) :=
  if o.log + o.size ≤ line.length then some ((line.drop o.log).take o.size) else none

/-- A backend gets the record as it is to get it. -/
structure Record.Reaches (r : Record) (backend : Backend) (o : Output) : Prop where
  backend_eq : o.backend = backend
  level_eq : o.level = r.level
  tag_eq : o.tag = r.tag
  isRaw_eq : o.isRaw = r.isRaw
  shown_eq : o.shown r.line = some (r.viewOf backend)

/-- Each of the registered backends, in their order, gets the record as it is to get it. -/
def AllServed (backends : List Backend) (r : Record) : Prop :=
  ∃ ulog outputs, registered backends = some ulog ∧
    ulogOutputToAllBackend ulog r.level r.tag r.isRaw 0 r.line.length = some outputs ∧
    List.Forall₂ r.Reaches backends outputs

/-! ## One backend -/

/-- What is shown is as long as the output says. -/
theorem shown_length {o : Output} {line text : List (BitVec 8)} (h : o.shown line = some text) :
    text.length = o.size := by
  unfold Output.shown at h
  split at h
  case isTrue hfits =>
    cases h
    rw [List.length_take, List.length_drop]
    omega
  case isFalse => cases h

/-- Every colour has three characters. -/
theorem length_color {level : Nat} {info : List (BitVec 8)}
    (h : colorOutputInfo[level]? = some (some info)) : info.length = 3 := by
  match level with
  | 0 | 3 | 4 | 6 => cases h; rfl
  | 1 | 2 | 5 | 7 => cases h
  | level + 8 => cases h

/-- A valid level has an entry in the table of colours. -/
theorem color_entry {level : Nat} (h : level ≤ 7) :
    colorOutputInfo[level]? = some (levelColor level) := by
  match level with
  | 0 | 1 | 2 | 3 | 4 | 5 | 6 | 7 => rfl
  | level + 8 => omega

/-- Where a level has a colour, the loop moves over five characters and takes nine off the size. -/
theorem length_header {level : Nat} {info : List (BitVec 8)}
    (h : colorOutputInfo[level]? = some (some info)) : csiStart.length + info.length = 5 := by
  rw [length_color h]
  rfl

/-! ## The loop -/

/-- The outputs of the backends from here on, if there are any, are the right ones. -/
def ServedFrom (r : Record) (backends : List Backend) (log size : Nat) : Prop :=
  ∃ outputs, outputLoop r.level r.tag r.isRaw backends log size = some outputs ∧
    List.Forall₂ r.Reaches backends outputs

/-- The output that hands over `size` bytes from `log` on. -/
def Record.output (r : Record) (backend : Backend) (log size : Nat) : Output :=
  ⟨backend, r.level, r.tag, r.isRaw, log, size⟩

/-- A record reaches a backend that shows what the backend is for. -/
theorem reaches_output_iff {r : Record} {backend : Backend} {log size : Nat} :
    r.Reaches backend (r.output backend log size) ↔
      (r.output backend log size).shown r.line = some (r.viewOf backend) :=
  ⟨fun h => h.shown_eq, fun h => ⟨rfl, rfl, rfl, rfl, h⟩⟩

theorem servedFrom_nil (r : Record) (log size : Nat) : ServedFrom r [] log size :=
  ⟨[], rfl, .nil⟩

/-- The outputs of the loop are the first one and those of the rest. -/
theorem forall₂_outputs {r : Record} {backend : Backend} {rest : List Backend} {log size : Nat}
    {outputs : Option (List Output)} :
    (∃ all, (outputs.bind fun outputs => some (r.output backend log size :: outputs)) = some all ∧
      List.Forall₂ r.Reaches (backend :: rest) all) ↔
      (r.output backend log size).shown r.line = some (r.viewOf backend) ∧
        ∃ all, outputs = some all ∧ List.Forall₂ r.Reaches rest all := by
  rw [← reaches_output_iff]
  constructor
  · rintro ⟨all, h, hall⟩
    cases outputs with
    | none => cases h
    | some outputs =>
      cases h
      obtain ⟨hfirst, hrest⟩ := List.forall₂_cons.mp hall
      exact ⟨hfirst, outputs, rfl, hrest⟩
  · rintro ⟨hfirst, all, rfl, hall⟩
    exact ⟨_, rfl, .cons hfirst hall⟩

/-- A backend with colours leaves `log` and `size` as they are. -/
theorem servedFrom_color {r : Record} {backend : Backend} {rest : List Backend} {log size : Nat}
    (hcolor : backend.supportColor = true) :
    ServedFrom r (backend :: rest) log size ↔
      (r.output backend log size).shown r.line = some (r.viewOf backend) ∧
        ServedFrom r rest log size := by
  unfold ServedFrom
  rw [outputLoop, if_pos hcolor]
  exact forall₂_outputs

/-- A backend without colours moves them, for itself and for all that follow. -/
theorem servedFrom_plain {r : Record} {backend : Backend} {rest : List Backend} {log size : Nat}
    (hplain : ¬backend.supportColor = true) {info : List (BitVec 8)}
    (hinfo : levelColor r.level.toNat = some info) :
    ServedFrom r (backend :: rest) log size ↔
      (r.output backend (log + 5) (sub32 size 9)).shown r.line = some (r.viewOf backend) ∧
        ServedFrom r rest (log + 5) (sub32 size 9) := by
  have hentry : colorOutputInfo[r.level.toNat]? = some (some info) :=
    hinfo ▸ color_entry r.valid
  have hheader := length_header hentry
  have hnonempty : info.length ≠ 0 := by
    rw [length_color hentry]
    decide
  have htaken : add32 5 csiEnd.length = 9 := by
    rw [length_csiEnd]
    rfl
  unfold ServedFrom
  rw [outputLoop, if_neg hplain]
  simp only [hentry, hheader, htaken, if_pos hnonempty, Option.bind_eq_bind, Option.bind_some]
  exact forall₂_outputs

/-- Where the level has no colour, a backend without colours ends in a read at NULL. -/
theorem not_servedFrom_null {r : Record} {backend : Backend} {rest : List Backend} {log size : Nat}
    (hplain : ¬backend.supportColor = true) (hinfo : levelColor r.level.toNat = none) :
    ¬ServedFrom r (backend :: rest) log size := by
  have hentry : colorOutputInfo[r.level.toNat]? = some none := hinfo ▸ color_entry r.valid
  rintro ⟨outputs, h, -⟩
  rw [outputLoop, if_neg hplain, hentry] at h
  cases h

/-- An output whose size is not that of the view is a wrong one. -/
theorem not_shown_of_size {r : Record} {backend : Backend} {log size : Nat}
    (h : size ≠ (r.viewOf backend).length) :
    (r.output backend log size).shown r.line ≠ some (r.viewOf backend) :=
  fun hshown => h (shown_length hshown).symm

/-- Nine less is another size. -/
theorem sub32_nine_ne {size : Nat} (h : size < 0x100000000) : sub32 size 9 ≠ size := by
  unfold sub32
  omega

/-- From the start of the line on, a backend with colours gets all of it. -/
theorem shown_whole {r : Record} {backend : Backend} (hcolor : backend.supportColor = true) :
    (r.output backend 0 r.line.length).shown r.line = some (r.viewOf backend) := by
  have hsize : 0 + r.line.length ≤ r.line.length := by omega
  rw [Record.viewOf, if_pos hcolor]
  refine (if_pos hsize).trans (congrArg some ?_)
  exact List.take_length

/-! ## A line with colours -/

section Coloured

variable {r : Record} {info : List (BitVec 8)}

/-- A line is coloured unless it is raw or its level has no colour. -/
theorem coloured_iff (level : BitVec 32) (isRaw : Bool) :
    coloured level isRaw = true ↔ isRaw = false ∧ (levelColor level.toNat).isSome = true := by
  rw [coloured, Bool.and_eq_true, Bool.not_eq_true']

/-- A coloured line between its signs. -/
theorem line_coloured (hinfo : levelColor r.level.toNat = some info) (hraw : r.isRaw = false) :
    r.line = (csiStart ++ info) ++ (r.body ++ csiEnd) := by
  have hcoloured : coloured r.level r.isRaw = true :=
    (coloured_iff _ _).mpr ⟨hraw, by rw [hinfo]; rfl⟩
  rw [Record.line, recordLine, if_pos hcoloured, hinfo, List.append_assoc]
  rfl

/-- The signs take nine characters. -/
theorem length_coloured (hinfo : levelColor r.level.toNat = some info) (hraw : r.isRaw = false) :
    r.line.length = r.body.length + 9 := by
  rw [line_coloured hinfo hraw, List.length_append, List.length_append, List.length_append,
    length_header (hinfo ▸ color_entry r.valid), length_csiEnd]
  omega

/-- Nine taken off its length, the line has the length of the text. -/
theorem sub32_coloured (hinfo : levelColor r.level.toNat = some info) (hraw : r.isRaw = false) :
    sub32 r.line.length 9 = r.body.length := by
  have hlen := length_coloured hinfo hraw
  have hmem : r.line.length < 0x100000000 := r.inMemory
  unfold sub32
  omega

/-- Behind the colour, a backend without colours gets the text. -/
theorem shown_body (hinfo : levelColor r.level.toNat = some info) (hraw : r.isRaw = false)
    {backend : Backend} (hplain : ¬backend.supportColor = true) :
    (r.output backend 5 (sub32 r.line.length 9)).shown r.line = some (r.viewOf backend) := by
  have hlen := length_coloured hinfo hraw
  have hheader : 5 = (csiStart ++ info).length := by
    rw [List.length_append, length_header (hinfo ▸ color_entry r.valid)]
  rw [Record.viewOf, if_neg hplain, sub32_coloured hinfo hraw]
  refine (if_pos (show 5 + r.body.length ≤ r.line.length by omega)).trans (congrArg some ?_)
  show (r.line.drop 5).take r.body.length = r.body
  rw [line_coloured hinfo hraw, hheader, List.drop_left, List.take_left]

/-- Whatever is registered behind it gets a line of the wrong length. -/
theorem servedFrom_moved_iff (hinfo : levelColor r.level.toNat = some info)
    (hraw : r.isRaw = false) (rest : List Backend) :
    ServedFrom r rest 5 (sub32 r.line.length 9) ↔ rest = [] := by
  cases rest with
  | nil => exact iff_of_true (servedFrom_nil r _ _) rfl
  | cons backend rest =>
    refine iff_of_false (fun h => ?_) (List.cons_ne_nil _ _)
    by_cases hcolor : backend.supportColor = true
    · refine absurd ((servedFrom_color hcolor).mp h).1 (not_shown_of_size ?_)
      rw [Record.viewOf, if_pos hcolor]
      exact sub32_nine_ne r.inMemory
    · refine absurd ((servedFrom_plain hcolor hinfo).mp h).1 (not_shown_of_size ?_)
      rw [Record.viewOf, if_neg hcolor, sub32_coloured hinfo hraw]
      have hlen := length_coloured hinfo hraw
      have hmem : r.line.length < 0x100000000 := r.inMemory
      exact sub32_nine_ne (by omega)

end Coloured

/-! ## All backends -/

/-- All backends support colours, or the line has colours and all backends but the last one
support them. -/
def Serves (backends : List Backend) (r : Record) : Prop :=
  (∀ backend ∈ backends, backend.supportColor = true) ∨
    (coloured r.level r.isRaw = true ∧
      ∀ backend ∈ backends.dropLast, backend.supportColor = true)

/-- A first backend with colours changes nothing. -/
theorem serves_color {r : Record} {backend : Backend} {rest : List Backend}
    (hcolor : backend.supportColor = true) : Serves (backend :: rest) r ↔ Serves rest r := by
  cases rest with
  | nil => simp [Serves, hcolor]
  | cons next rest => simp [Serves, hcolor]

/-- A first backend without colours has to be the last one, and the line has to have colours. -/
theorem serves_plain {r : Record} {backend : Backend} {rest : List Backend}
    (hplain : ¬backend.supportColor = true) :
    Serves (backend :: rest) r ↔ coloured r.level r.isRaw = true ∧ rest = [] := by
  cases rest with
  | nil => simp [Serves, hplain]
  | cons next rest => simp [Serves, hplain]

/-- From the start of the line on, the backends are served under exactly that condition. -/
theorem servedFrom_iff (r : Record) (backends : List Backend) :
    ServedFrom r backends 0 r.line.length ↔ Serves backends r := by
  induction backends with
  | nil => exact iff_of_true (servedFrom_nil r _ _) (.inl (List.forall_mem_nil _))
  | cons backend rest ih =>
    by_cases hcolor : backend.supportColor = true
    · rw [servedFrom_color hcolor, serves_color hcolor, ih]
      exact and_iff_right (shown_whole hcolor)
    · rw [serves_plain hcolor]
      cases hinfo : levelColor r.level.toNat with
      | none =>
        refine iff_of_false (not_servedFrom_null hcolor hinfo) fun h => ?_
        rw [coloured_iff, hinfo] at h
        exact Bool.false_ne_true h.1.2
      | some info =>
        rw [servedFrom_plain hcolor hinfo, coloured_iff, hinfo]
        cases hraw : r.isRaw with
        | false =>
          rw [and_iff_right (shown_body hinfo hraw hcolor), Nat.zero_add,
            servedFrom_moved_iff hinfo hraw]
          exact (and_iff_right ⟨rfl, rfl⟩).symm
        | true =>
          -- the loop does not look at `is_raw`
          have hbody : r.viewOf backend = r.line := by
            rw [Record.viewOf, if_neg hcolor, Record.line, recordLine, if_neg]
            rw [coloured_iff, hraw]
            exact fun h => Bool.noConfusion h.1
          refine iff_of_false (fun h => not_shown_of_size ?_ h.1) fun h => Bool.noConfusion h.1.1
          rw [hbody]
          exact sub32_nine_ne r.inMemory

/-- All backends are served if the loop serves them from the first one on. -/
theorem allServed_iff_servedFrom (backends : List Backend) (r : Record) :
    AllServed backends r ↔ ServedFrom r backends 0 r.line.length := by
  constructor
  · rintro ⟨ulog, outputs, hulog, houtputs, hall⟩
    rw [registered_eq] at hulog
    cases hulog
    exact ⟨outputs, houtputs, hall⟩
  · rintro ⟨outputs, houtputs, hall⟩
    exact ⟨_, outputs, registered_eq backends, houtputs, hall⟩

/-- **The views of the backends.** For every list of registered backends and every record: all
backends get what they are to get exactly if all of them support colours, or the line has colours
and all of them but the last one support colours. -/
theorem allServed_iff (backends : List Backend) (r : Record) :
    AllServed backends r ↔
      (∀ backend ∈ backends, backend.supportColor = true) ∨
        (coloured r.level r.isRaw = true ∧
          ∀ backend ∈ backends.dropLast, backend.supportColor = true) :=
  (allServed_iff_servedFrom backends r).trans (servedFrom_iff r backends)

/-- An error line `hi` for a backend without colours and one with colours registered behind it:
the second one gets the line without its start. -/
theorem second_not_served :
    ¬AllServed [⟨0, false⟩, ⟨1, true⟩] ⟨3, none, false, ascii "hi", by decide, by decide⟩ := by
  rw [allServed_iff_servedFrom, servedFrom_iff, serves_plain Bool.false_ne_true]
  exact fun h => List.cons_ne_nil _ _ h.2

/-- What `ulog_formater` makes of a message is such a line. -/
theorem layout_eq_recordLine (level : BitVec 32) (tick : Nat) (tag : CString)
    (message : List (BitVec 8)) :
    headerText level.toNat tick tag ++ message ++ newlineSign ++
        (if (levelColor level.toNat).isSome then csiEnd else []) =
      recordLine level false (timeText tick ++
        nameText ((levelOutputInfo[level.toNat]?).join.getD []) tag ++ message ++ newlineSign) := by
  unfold headerText recordLine coloured
  cases levelColor level.toNat with
  | none => simp [colorText]
  | some info => simp [colorText]

end RtVcom.Ulog

import RtVcom.Lib.CMemory
import RtVcom.Usb.Core

/-!
# String descriptors

`_get_string_descriptor` answers a request for one of the device's strings: it takes the string from
the table that `rt_usbd_device_set_string` registered, writes it with a zero byte behind every
character into a descriptor on its stack, and starts a reply with as many bytes of it as the host
asked for. The index comes from the host; the first one stands for the languages, and the last one,
which is also asked for as `0xEE`, need not be in the table.

**The law** (`string_reply`): where the table has the string and the descriptor has room for it, the
reply is the beginning of its descriptor, and no access is one outside.
-/

namespace RtVcom.Usb

open RtVcom.Lib

/-! ## The model -/

/-- `struct ustring_descriptor`. -/
structure UstringDescriptor where
  bLength : BitVec 8
  type : BitVec 8
  string : CArray (BitVec 8) 64
deriving DecidableEq

/-- The bytes of the structure. -/
def UstringDescriptor.bytes (d : UstringDescriptor) : List (BitVec 8) :=
  d.bLength :: d.type :: d.string.items

/-- How a request for a string ends: endpoint 0 is stalled, or `rt_usbd_ep0_write` is given some
bytes. -/
inductive StringReply
  | stall
  | write (bytes : List (BitVec 8))
deriving Repr, DecidableEq

/-- A write that succeeds is inside the array. -/
theorem lt_of_set?_eq_some {n i : Nat} {s t : CArray (BitVec 8) n} {v : BitVec 8}
    (h : s.set? i v = some t) : i < n := by
  unfold CArray.set? at h
  split at h
  · assumption
  · cases h

/-- The loop over the characters of a string, with its counter of eight bits. -/
def copyString (str : List (BitVec 8)) (len : Nat) (i : BitVec 8) (s : CArray (BitVec 8) 64) :
    Option (CArray (BitVec 8) 64) :=
  if i.toNat < len then
    match str[i.toNat]? with
    | none => none
    | some c =>
      match s.set? (i.toNat * 2) c with
      | none => none
      | some s =>
        match h : s.set? (i.toNat * 2 + 1) 0 with
        | none => none
        | some s => copyString str len (i + 1) s
  else some s
termination_by 64 - i.toNat
decreasing_by
  have hlt := lt_of_set?_eq_some h
  have hnext : (i + 1).toNat = i.toNat + 1 := by
    rw [BitVec.toNat_add]
    exact Nat.mod_eq_of_lt (show i.toNat + 1 < 256 by omega)
  omega

/-- The call of `rt_usbd_ep0_write`. -/
def UstringDescriptor.send (d : UstringDescriptor) (setup : Urequest) : StringReply :=
  let len := if d.bLength.toNat < setup.wLength.toNat then d.bLength.toNat
    else setup.wLength.toNat
  .write (d.bytes.take len)

/-- `_get_string_descriptor`, with what its stack has in place of the descriptor, and a table.
Without a result an access was outside of the table, a string or the descriptor. -/
def getStringReply (table : List CString) (strDesc : UstringDescriptor) (setup : Urequest) :
    Option StringReply :=
  let index := stringIndex setup
  if 0x06 < index then some .stall
  else if index = 0x00 then do
    let s ← strDesc.string.set? 0 0x09
    let s ← s.set? 1 0x04
    some (UstringDescriptor.send ⟨4, 0x03, s⟩ setup)
  else do
    let str ← table[index]?
    let len ← strlen str.mem
    let s ← copyString str.mem len 0 strDesc.string
    some (UstringDescriptor.send ⟨BitVec.ofNat 8 (len * 2 + 2), 0x03, s⟩ setup)

/-- A text of characters of one byte in UTF-16LE. -/
def utf16le (text : List (BitVec 8)) : List (BitVec 8) := text.flatMap fun c => [c, 0]

/-- The descriptor of a string. -/
def stringDescriptorOf (str : CString) : List (BitVec 8) :=
  BitVec.ofNat 8 (2 * str.chars.length + 2) :: 0x03 :: utf16le str.chars

/-- The descriptor of the languages: one, American English. -/
def langidDescriptor : List (BitVec 8) := [4, 0x03, 0x09, 0x04]

/-- What the host is answered. -/
def StringReply.Answers (reply : StringReply) (table : List CString) (setup : Urequest) : Prop :=
  if 0x06 < stringIndex setup then reply = .stall
  else if stringIndex setup = 0x00 then
    reply = .write (langidDescriptor.take (min setup.wLength.toNat 4))
  else
    ∃ str, table[stringIndex setup]? = some str ∧
      reply = .write ((stringDescriptorOf str).take
        (min setup.wLength.toNat (2 * str.chars.length + 2)))

/-! ## The loop -/

variable {str : List (BitVec 8)} {len : Nat} {s t u : CArray (BitVec 8) 64}

/-- One character. -/
theorem copyString_step {i : BitVec 8} {c : BitVec 8} (hi : i.toNat < len)
    (hc : str[i.toNat]? = some c) (ht : s.set? (i.toNat * 2) c = some t)
    (hu : t.set? (i.toNat * 2 + 1) 0 = some u) :
    copyString str len i s = copyString str len (i + 1) u := by
  rw [copyString, if_pos hi]
  simp only [hc, ht]
  split
  · next hnone =>
    rw [hu] at hnone
    cases hnone
  · next u' hu' =>
    rw [hu] at hu'
    cases hu'
    rfl

theorem utf16le_cons (c : BitVec 8) (text : List (BitVec 8)) :
    utf16le (c :: text) = c :: 0 :: utf16le text := rfl

/-- Two bytes a character, and two in front. -/
theorem length_stringDescriptorOf (str : CString) :
    (stringDescriptorOf str).length = 2 * str.chars.length + 2 := by
  have hbody (text : List (BitVec 8)) : (utf16le text).length = 2 * text.length := by
    induction text with
    | nil => rfl
    | cons c text ih =>
      rw [utf16le_cons, List.length_cons, List.length_cons, ih, List.length_cons]
      omega
  rw [stringDescriptorOf, List.length_cons, List.length_cons, hbody]

/-- Two neighbours that are written one after the other. -/
theorem exists_set?_set? (s : CArray (BitVec 8) 64) {j : Nat} (hj : j + 1 < 64) (v v' : BitVec 8) :
    ∃ t u, s.set? j v = some t ∧ t.set? (j + 1) v' = some u ∧
      u.items.take (j + 2) = s.items.take j ++ [v, v'] := by
  obtain ⟨t, ht, htitems⟩ := s.set?_eq_some (show j < 64 by omega) v
  obtain ⟨u, hu, huitems⟩ := t.set?_eq_some hj v'
  have hin : j < s.items.length := by
    rw [s.size]
    omega
  have hin' : j + 1 < t.items.length := by
    rw [t.size]
    exact hj
  refine ⟨t, u, ht, hu, ?_⟩
  rw [huitems, List.take_add_one, List.getElem?_set_self hin',
    List.take_set_of_le (Nat.le_refl _), htitems, List.take_add_one, List.getElem?_set_self hin,
    List.take_set_of_le (Nat.le_refl _), List.append_assoc]
  rfl

/-- The loop from one of at most 32 characters on: what stood before stays, and the rest of the
string follows. By induction on the characters that are left. -/
theorem copyString_spec (str : CString) (hlen : str.chars.length ≤ 32) {k : Nat}
    (s : CArray (BitVec 8) 64) {i : Nat} (hi : i + k = str.chars.length) :
    ∃ t, copyString str.mem str.chars.length (BitVec.ofNat 8 i) s = some t ∧
      t.items.take (2 * str.chars.length) =
        s.items.take (2 * i) ++ utf16le (str.chars.drop i) := by
  induction k generalizing s i with
  | zero =>
    have hnat : (BitVec.ofNat 8 i).toNat = str.chars.length := by
      rw [BitVec.toNat_ofNat]
      omega
    refine ⟨s, ?_, ?_⟩
    · rw [copyString, hnat, if_neg (Nat.lt_irrefl _)]
    · rw [List.drop_eq_nil_of_le (by omega), show i = str.chars.length by omega]
      exact (List.append_nil _).symm
  | succ k ih =>
    have hnat : (BitVec.ofNat 8 i).toNat = i := by
      rw [BitVec.toNat_ofNat]
      omega
    have hlt : i < str.chars.length := by omega
    have hc : str.mem[(BitVec.ofNat 8 i).toNat]? = some str.chars[i] := by
      rw [hnat, CString.mem, List.getElem?_append_left hlt, List.getElem?_eq_getElem hlt]
    obtain ⟨t, u, ht, hu, hwritten⟩ :=
      exists_set?_set? s (show i * 2 + 1 < 64 by omega) str.chars[i] 0
    have hstep : copyString str.mem str.chars.length (BitVec.ofNat 8 i) s =
        copyString str.mem str.chars.length (BitVec.ofNat 8 i + 1) u :=
      copyString_step (hnat.symm ▸ hlt) hc (by rw [hnat]; exact ht) (by rw [hnat]; exact hu)
    have hnext : BitVec.ofNat 8 i + 1 = BitVec.ofNat 8 (i + 1) := (BitVec.ofNat_add i 1).symm
    obtain ⟨r, hr, hitems⟩ := ih u (i := i + 1) (by omega)
    refine ⟨r, ?_, ?_⟩
    · rw [hstep, hnext]
      exact hr
    · have hplace : 2 * (i + 1) = i * 2 + 2 := by omega
      rw [hitems, hplace, hwritten, List.drop_eq_getElem_cons hlt, utf16le_cons,
        List.append_assoc, Nat.mul_comm i 2]
      rfl

/-! ## The reply -/

/-- The bytes of a descriptor that a string of at most 32 characters was written to. -/
theorem take_bytes {d : UstringDescriptor} {str : CString} {n : Nat}
    (hn : n ≤ 2 * str.chars.length + 2)
    (hlength : d.bLength = BitVec.ofNat 8 (2 * str.chars.length + 2)) (htype : d.type = 0x03)
    (hstring : d.string.items.take (2 * str.chars.length) = utf16le str.chars) :
    d.bytes.take n = (stringDescriptorOf str).take n := by
  have hall : d.bytes.take (2 * str.chars.length + 2) = stringDescriptorOf str := by
    rw [UstringDescriptor.bytes, List.take_succ_cons, List.take_succ_cons, hstring, hlength, htype,
      stringDescriptorOf]
  rw [← hall, List.take_take, Nat.min_eq_left hn]

/-- For every table, every request and whatever stands on the stack: where the table has the string
that is asked for, and it has at most 32 characters, the function returns, and the host is answered
as it should be. -/
theorem string_reply (table : List CString) (strDesc : UstringDescriptor) (setup : Urequest)
    (hentry : 0x00 < stringIndex setup → stringIndex setup ≤ 0x06 →
      ∃ str, table[stringIndex setup]? = some str ∧ str.chars.length ≤ 32) :
    ∃ reply, getStringReply table strDesc setup = some reply ∧ reply.Answers table setup := by
  have hsize {bLength : Nat} : (if bLength < setup.wLength.toNat then bLength
      else setup.wLength.toNat) = min setup.wLength.toNat bLength := by
    split <;> omega
  unfold getStringReply StringReply.Answers
  simp only
  by_cases hbeyond : 0x06 < stringIndex setup
  · simp only [hbeyond, if_true]
    exact ⟨_, rfl, rfl⟩
  · simp only [hbeyond, if_false]
    by_cases hlangid : stringIndex setup = 0x00
    · simp only [hlangid, if_true]
      obtain ⟨s, t, hs, ht, hwritten⟩ :=
        exists_set?_set? strDesc.string (show 0 + 1 < 64 by decide) 0x09 0x04
      rw [hs, Option.bind_eq_bind, Option.bind_some, ht]
      refine ⟨_, rfl, ?_⟩
      have hbytes : UstringDescriptor.bytes ⟨4, 0x03, t⟩ = langidDescriptor ++ t.items.drop 2 := by
        rw [UstringDescriptor.bytes, ← List.take_append_drop 2 t.items, hwritten]
        rfl
      have hle : min setup.wLength.toNat (4 : BitVec 8).toNat ≤ langidDescriptor.length :=
        Nat.min_le_right _ _
      rw [UstringDescriptor.send, hsize, hbytes, List.take_append_of_le_length hle]
      rfl
    · simp only [hlangid, if_false]
      obtain ⟨str, hstr, hlen⟩ := hentry (Nat.pos_of_ne_zero hlangid) (by omega)
      obtain ⟨s, hs, hitems⟩ := copyString_spec str hlen strDesc.string (i := 0)
        (Nat.zero_add _)
      rw [Nat.mul_zero, List.take_zero, List.nil_append, List.drop_zero] at hitems
      have hlength : strlen str.mem = some str.chars.length := strlen_append_nul str.nulFree []
      have hbyte : (BitVec.ofNat 8 (str.chars.length * 2 + 2)).toNat =
          2 * str.chars.length + 2 := by
        rw [BitVec.toNat_ofNat]
        omega
      rw [hstr, Option.bind_eq_bind, Option.bind_some, hlength, Option.bind_eq_bind,
        Option.bind_some]
      refine ⟨_, congrArg (· >>= _) hs, str, rfl, ?_⟩
      rw [UstringDescriptor.send, hbyte, hsize]
      refine congrArg StringReply.write (take_bytes (Nat.min_le_right _ _) ?_ rfl hitems)
      rw [Nat.mul_comm]

/-! ## The strings of the virtual COM port -/

/-- A string constant of the source. -/
def textOf (text : String) : List (BitVec 8) := text.toList.map fun c => BitVec.ofNat 8 c.toNat

/-- `_ustring`, as memory. -/
def vcomStrings : List CString :=
  [⟨textOf "Language", by simp [NulFree, textOf]⟩,
    ⟨textOf "RT-Thread Team.", by simp [NulFree, textOf]⟩,
    ⟨textOf "RTT Virtual Serial", by simp [NulFree, textOf]⟩,
    ⟨textOf "32021919830108", by simp [NulFree, textOf]⟩,
    ⟨textOf "Configuration", by simp [NulFree, textOf]⟩,
    ⟨textOf "Interface", by simp [NulFree, textOf]⟩]

/-- Every string of the table fits into the descriptor. -/
theorem length_vcomStrings_le : ∀ str ∈ vcomStrings, str.chars.length ≤ 32 := by
  simp [vcomStrings, textOf]

theorem map_length_vcomStrings :
    vcomStrings.map (fun str => str.chars.length) = ustring.map String.length := rfl

/-- The device core answers requests for strings with as many bytes as this function sends. -/
theorem getStringDescriptor_eq (s : Udevice) (strDesc : UstringDescriptor) (setup : Urequest) :
    getStringDescriptor s setup =
      match getStringReply vcomStrings strDesc setup with
      | some .stall => .ok (ep0SetStall s)
      | some (.write bytes) =>
        .ok (ep0Write s (.stringDescriptor (stringIndex setup)) bytes.length)
      | none => .error (.string, s) := by
  by_cases hbeyond : 0x06 < stringIndex setup
  · simp only [getStringDescriptor, getStringReply, hbeyond, if_true]
  · by_cases hlast : stringIndex setup = 0x06
    · -- the index for operating systems, for which neither table has an entry
      have hnone : vcomStrings[stringIndex setup]? = none := by
        rw [hlast]
        rfl
      have hnone' : ustring[stringIndex setup]? = none := by
        rw [hlast]
        rfl
      have hlangid : ¬stringIndex setup = 0x00 := by omega
      simp only [getStringDescriptor, getStringReply, hbeyond, hlangid, if_false, hnone, hnone',
        Option.bind_eq_bind, Option.bind_none]
    · have hlt : stringIndex setup < vcomStrings.length := by
        have : vcomStrings.length = 6 := rfl
        omega
      have hentry := List.getElem?_eq_getElem hlt
      have hlen := length_vcomStrings_le _ (List.getElem_mem hlt)
      obtain ⟨reply, hreply, hanswers⟩ := string_reply vcomStrings strDesc setup fun _ _ =>
        ⟨_, hentry, hlen⟩
      rw [hreply]
      unfold StringReply.Answers at hanswers
      rw [if_neg hbeyond] at hanswers
      by_cases hlangid : stringIndex setup = 0x00
      · rw [if_pos hlangid] at hanswers
        have hfour : langidDescriptor.length = 4 := rfl
        rw [hanswers]
        simp only [getStringDescriptor, hlangid, Nat.not_lt_zero, if_false, if_true,
          List.length_take, hfour, Nat.min_assoc, Nat.min_self]
      · rw [if_neg hlangid] at hanswers
        obtain ⟨str, hstr, hwrite⟩ := hanswers
        have hmap := congrArg (·[stringIndex setup]?) map_length_vcomStrings
        simp only [List.getElem?_map, hstr, Option.map_some] at hmap
        obtain ⟨text, htext, hsame⟩ := Option.map_eq_some_iff.mp hmap.symm
        rw [hwrite]
        simp only [getStringDescriptor, hbeyond, hlangid, if_false, htext, hsame, List.length_take,
          length_stringDescriptorOf, Nat.mul_comm _ 2, Nat.min_assoc, Nat.min_self]

/-- The product string, of which the host asks for nine bytes. -/
theorem string_reply_product :
    ∃ reply, getStringReply vcomStrings ⟨0, 0, .fill 64 0xA5⟩ ⟨0x80, 0x06, 0x0302, 0, 9⟩ =
        some reply ∧ reply.Answers vcomStrings ⟨0x80, 0x06, 0x0302, 0, 9⟩ :=
  string_reply _ _ _ fun _ _ => ⟨_, rfl, by decide⟩

/-- The first string of the table is not sent: the answer is the list of languages. -/
theorem string_reply_language :
    let setup : Urequest := ⟨0x80, 0x06, 0x0300, 0, 255⟩
    ∃ language, vcomStrings[stringIndex setup]? = some language ∧
      getStringReply vcomStrings ⟨0, 0, .fill 64 0xA5⟩ setup = some (.write [4, 3, 9, 4]) ∧
      StringReply.write [4, 3, 9, 4] ≠ .stall ∧
      StringReply.write [4, 3, 9, 4] ≠
        .write ((stringDescriptorOf language).take (min 255 (2 * language.chars.length + 2))) := by
  intro setup
  have hindex : stringIndex setup = 0 := by decide
  refine ⟨vcomStrings[0], ?_, by decide, by decide, by decide⟩
  rw [hindex]
  rfl

end RtVcom.Usb

import RtVcom.Ulog.Formatter

/-!
# Lines that fit

What `ulog.c` appends to its line buffer, piece by piece, and when the pieces fit. `ulog_strcpy`
lets the running length be the size of the buffer, one character too many; so a line stays inside
exactly if the lengths of its pieces add up to 128 at most.

For `ulog_formater` these are the pieces before the message (`FormaterFits`); what follows them is
cut. For `ulog_hexdump` they are all pieces of each line (`HexDump.Fits`): the tag, the range, the
columns and the characters. `ulog_lines_fit` says that the functions stay inside, with a length of
128 at most, under these conditions and not otherwise.
-/

namespace RtVcom.Ulog

open RtVcom.Lib RtVcom.Lib.TextBuffer

/-! ## `ulog_strcpy` -/

/-- `ulog_strcpy` writes its source behind what is in the line. -/
theorem ulogStrcpy_eq {src : List (BitVec 8)} (hsrc : NulFree src) (buf : LineBuf) {k : Nat}
    (hk : k ≤ lineBufSize) :
    ulogStrcpy buf k k (src ++ [0]) = (buf.write k src).map fun b => (b, src.length) := by
  induction src generalizing buf k with
  | nil => rfl
  | cons c src ih =>
    obtain ⟨hc, hsrc⟩ := nulFree_cons.mp hsrc
    rw [List.cons_append, ulogStrcpy, if_neg hc, if_pos hk, CArray.write]
    by_cases hlt : k < lineBufSize
    · obtain ⟨t, ht, -⟩ := buf.set?_eq_some hlt c
      simp only [ht, Option.bind_eq_bind, Option.bind_some, ih hsrc t hlt]
      cases t.write (k + 1) src <;> rfl
    · rw [CArray.set?, if_neg hlt]
      rfl

theorem appends_strcpy {src : List (BitVec 8)} (hsrc : NulFree src) :
    Appends (fun l : Line => l.strcpy src) src := by
  refine (Appends.write src).congr fun l hl => ?_
  rw [Line.strcpy, ulogStrcpy_eq hsrc l.buf hl, Option.map_map]
  rfl

theorem nulFree_replicate (n : Nat) {c : BitVec 8} (hc : c ≠ 0) :
    NulFree (List.replicate n c) := by
  intro b hb
  rwa [List.eq_of_mem_replicate hb]

theorem nulFree_csiStart : NulFree csiStart := by simp [NulFree, csiStart, ascii]
theorem nulFree_csiEnd : NulFree csiEnd := by simp [NulFree, csiEnd, ascii]
theorem nulFree_newlineSign : NulFree newlineSign := by simp [NulFree, newlineSign, ascii]

theorem length_csiEnd : csiEnd.length = 4 := by simp [csiEnd, ascii]
theorem length_newlineSign : newlineSign.length = 2 := by simp [newlineSign, ascii]

/-! ## `ulog_ultoa` -/

/-- The digits of a number. -/
def decimal (n : Nat) : List (BitVec 8) :=
  (Nat.toDigits 10 n).map fun c => BitVec.ofNat 8 c.toNat

theorem digitChar_toNat {d : Nat} (h : d < 10) : (Nat.digitChar d).toNat = d + 0x30 := by
  have hall : ∀ d < 10, (Nat.digitChar d).toNat = d + 0x30 := by decide
  exact hall d h

theorem decimal_of_lt {n : Nat} (h : n < 10) : decimal n = [BitVec.ofNat 8 (n + 0x30)] := by
  rw [decimal, Nat.toDigits_of_lt_base h, List.map_singleton, digitChar_toNat h]

/-- A number of several digits: the last one comes last. -/
theorem decimal_of_le {n : Nat} (h : 10 ≤ n) :
    decimal n = decimal (n / 10) ++ [BitVec.ofNat 8 (n % 10 + 0x30)] := by
  rw [decimal, Nat.toDigits_of_base_le (by decide) h, List.map_append, List.map_singleton,
    digitChar_toNat (Nat.mod_lt n (by decide))]
  rfl

theorem nulFree_decimal (n : Nat) : NulFree (decimal n) := by
  have hdigit : ∀ d < 10, BitVec.ofNat 8 (d + 0x30) ≠ 0 := by decide
  induction n using Nat.strongRecOn with
  | ind n ih =>
    rcases Nat.lt_or_ge n 10 with hlt | hge
    · rw [decimal_of_lt hlt]
      exact nulFree_cons.mpr ⟨hdigit n hlt, nulFree_nil⟩
    · rw [decimal_of_le hge]
      exact nulFree_append.mpr ⟨ih (n / 10) (by omega),
        nulFree_cons.mpr ⟨hdigit _ (Nat.mod_lt n (by decide)), nulFree_nil⟩⟩

/-- A word has ten digits at most. -/
theorem length_decimal_le {n : Nat} (h : n < 0x100000000) : (decimal n).length ≤ 10 := by
  rw [decimal, List.length_map]
  refine (Nat.length_toDigits_le_iff (by decide) (by decide)).mpr ?_
  exact Nat.lt_trans h (by decide)

/-- The digits are stored from the last one on. -/
theorem storeDigits_eq {fuel : Nat} (buf : LineBuf) (s : Nat) {n : Nat} (len : Nat)
    (hfuel : n < fuel) :
    storeDigits buf s fuel n len =
      (buf.write (s + len) (decimal n).reverse).map fun b => (b, len + (decimal n).length) := by
  induction fuel generalizing buf n len with
  | zero => exact absurd hfuel (Nat.not_lt_zero n)
  | succ fuel ih =>
    rw [storeDigits]
    rcases Nat.lt_or_ge n 10 with hlt | hge
    · have hzero : n / 10 = 0 := Nat.div_eq_of_lt hlt
      rw [decimal_of_lt hlt, Nat.mod_eq_of_lt hlt, hzero]
      cases hset : buf.set? (s + len) (BitVec.ofNat 8 (n + 0x30)) with
      | none => simp [CArray.write, hset]
      | some t => simp [CArray.write, hset]
    · have hne : n / 10 ≠ 0 := by omega
      rw [decimal_of_le hge]
      cases hset : buf.set? (s + len) (BitVec.ofNat 8 (n % 10 + 0x30)) with
      | none => simp [CArray.write, hset]
      | some t =>
        have hrest := ih t (len + 1) (show n / 10 < fuel by omega)
        rw [← Nat.add_assoc] at hrest
        simp [CArray.write, hset, hne, hrest, Nat.add_assoc, Nat.add_comm]

/-- A write behind a prefix. -/
theorem set_length_add {α : Type} (xs ys : List α) (k : Nat) (v : α) :
    (xs ++ ys).set (xs.length + k) v = xs ++ ys.set k v := by
  rw [List.set_append_right _ _ (Nat.le_add_right _ _), Nat.add_sub_cancel_left]

/-- The second loop turns the stored digits around, two at a time from the outside. -/
theorem reverseString_eq {fuel s i j : Nat} {buf : LineBuf} {pre xs post : List (BitVec 8)}
    (hitems : buf.items = pre ++ (xs ++ post)) (hpre : pre.length = s + i)
    (hj : j = i + xs.length - 1) (hfuel : xs.length < fuel) :
    ∃ t, reverseString buf s fuel i j = some t ∧ t.items = pre ++ (xs.reverse ++ post) := by
  induction fuel generalizing buf i j pre xs post with
  | zero => exact absurd hfuel (Nat.not_lt_zero _)
  | succ fuel ih =>
    rw [reverseString]
    rcases xs with _ | ⟨a, rest⟩
    · rw [if_neg (by rw [List.length_nil] at hj; omega)]
      exact ⟨buf, rfl, hitems⟩
    rcases List.eq_nil_or_concat rest with rfl | ⟨mid, b, rfl⟩
    · rw [if_neg (by rw [List.length_singleton] at hj; omega)]
      exact ⟨buf, rfl, hitems⟩
    have hlength : (a :: mid.concat b).length = mid.length + 2 := by
      rw [List.length_cons, List.length_concat]
    rw [hlength] at hj hfuel
    have hall : buf.items = pre ++ (a :: (mid ++ (b :: post))) := by
      rw [hitems, List.concat_eq_append, List.cons_append, List.append_assoc,
        List.singleton_append]
    have hsize : pre.length + (mid.length + post.length + 2) = lineBufSize := by
      rw [← buf.size, hall]
      simp only [List.length_append, List.length_cons]
      omega
    have hfirst : buf.get? (s + i) = some a := by
      rw [CArray.get?, hall, ← hpre, List.getElem?_append_right (Nat.le_refl _), Nat.sub_self]
      rfl
    have hat : s + j = pre.length + (mid.length + 1) := by omega
    have hlast : buf.get? (s + j) = some b := by
      rw [CArray.get?, hall, hat, List.getElem?_append_right (by omega), Nat.add_sub_cancel_left,
        List.getElem?_cons_succ, List.getElem?_append_right (Nat.le_refl _), Nat.sub_self]
      rfl
    obtain ⟨m, hm, hmitems⟩ := buf.set?_eq_some (show s + i < lineBufSize by omega) b
    obtain ⟨k, hk, hkitems⟩ := m.set?_eq_some (show s + j < lineBufSize by omega) a
    have hswapped : k.items = (pre ++ [b]) ++ (mid ++ (a :: post)) := by
      have hfront : (pre ++ a :: (mid ++ b :: post)).set pre.length b =
          pre ++ b :: (mid ++ b :: post) := set_length_add _ _ 0 _
      have hback : (mid ++ b :: post).set mid.length a = mid ++ a :: post :=
        set_length_add _ _ 0 _
      rw [hkitems, hmitems, hall, ← hpre, hat, hfront, set_length_add, List.set_cons_succ, hback,
        List.append_assoc, List.singleton_append]
    obtain ⟨t, ht, htitems⟩ := @ih (i + 1) (j - 1) k (pre ++ [b]) mid (a :: post) hswapped
      (by rw [List.length_append, List.length_singleton, hpre, Nat.add_assoc]) (by omega)
      (by omega)
    refine ⟨t, ?_, ?_⟩
    · rw [if_pos (by omega), hfirst, hlast]
      simp only [Option.bind_eq_bind, Option.bind_some, hm, hk, ht]
    · rw [htitems]
      simp only [List.concat_eq_append, List.reverse_cons, List.reverse_append, List.reverse_nil,
        List.nil_append, List.append_assoc, List.singleton_append]
      rfl

/-- `ulog_ultoa` writes the digits and a NUL. -/
theorem ulogUltoa_eq {buf : LineBuf} {s n : Nat} (h : s + (decimal n).length < lineBufSize) :
    ∃ t, ulogUltoa buf s n = some (t, (decimal n).length) ∧
      t.items = buf.items.take s ++ (decimal n ++ (0 :: buf.items.drop
        (s + (decimal n).length + 1))) := by
  have hlen : ((decimal n).reverse).length = (decimal n).length := List.length_reverse
  obtain ⟨m, hm, hmitems⟩ := @CArray.write_eq_some _ _ (decimal n).reverse buf s (by omega)
  obtain ⟨k, hk, hkitems⟩ := m.set?_eq_some h 0
  have hlow : (buf.items.take s).length = s := by
    rw [List.length_take, buf.size, Nat.min_eq_left (by omega)]
  have hdrop : buf.items.drop (s + (decimal n).length) ≠ [] := by
    rw [Ne, List.drop_eq_nil_iff, buf.size]
    omega
  have hstored : k.items = buf.items.take s ++ ((decimal n).reverse ++
      (0 :: buf.items.drop (s + (decimal n).length + 1))) := by
    obtain ⟨c, rest, hrest⟩ := List.exists_cons_of_ne_nil hdrop
    have htail : buf.items.drop (s + (decimal n).length + 1) = rest := by
      rw [← List.tail_drop, hrest, List.tail_cons]
    have hset : ((decimal n).reverse ++ c :: rest).set (decimal n).length 0 =
        (decimal n).reverse ++ 0 :: rest := by
      rw [← hlen]
      exact set_length_add _ _ 0 _
    have hat : s + (decimal n).length = (buf.items.take s).length + (decimal n).length := by
      rw [hlow]
    rw [hkitems, hmitems, hlen, hrest, htail, List.append_assoc, hat, set_length_add, hset]
  obtain ⟨t, ht, htitems⟩ :=
    @reverseString_eq ((decimal n).length + 1) s 0 ((decimal n).length - 1) k _ _ _ hstored hlow
      (by rw [hlen, Nat.zero_add]) (by rw [hlen]; exact Nat.lt_succ_self _)
  refine ⟨t, ?_, ?_⟩
  · rw [ulogUltoa, storeDigits_eq buf s 0 (Nat.lt_succ_self n), Nat.add_zero, hm]
    simp only [Option.bind_eq_bind, Option.map_some, Option.bind_some, Nat.zero_add, hk, ht]
  · rw [htitems, List.reverse_reverse]

/-! ## `ulog_formater` -/

/-- The tick in its brackets. -/
def timeText (tick : Nat) : List (BitVec 8) := 0x5B :: (decimal tick ++ [0x5D])

theorem length_timeText (tick : Nat) : (timeText tick).length = (decimal tick).length + 2 := by
  rw [timeText, List.length_cons, List.length_append, List.length_singleton]

/-- The time is appended where there is room for it and its NUL. -/
theorem time_fits {l : Line} {tick : Nat} (h : l.len + (timeText tick).length < lineBufSize) :
    ∃ m, l.time tick = some m ∧ m.len = l.len + (timeText tick).length ∧
      m.text = l.text ++ timeText tick := by
  rw [length_timeText] at h
  obtain ⟨b₁, hb₁, hitems₁⟩ := l.buf.set?_eq_some (show l.len < lineBufSize by omega) 0x5B
  obtain ⟨b₂, hb₂, hitems₂⟩ := @ulogUltoa_eq b₁ (l.len + 1) tick (by omega)
  obtain ⟨b₃, hb₃, hitems₃⟩ :=
    b₂.set?_eq_some (show l.len + 1 + (decimal tick).length < lineBufSize by omega) 0x5D
  obtain ⟨b₄, hb₄, hitems₄⟩ :=
    b₃.set?_eq_some (show l.len + 1 + (decimal tick).length + 1 < lineBufSize by omega) 0
  have hsize := l.buf.size
  have htext : l.text.length = l.len := length_text (by omega)
  obtain ⟨rest, hitems⟩ : ∃ rest, b₄.items = l.text ++ (timeText tick ++ (0 :: rest)) := by
    have hlow : (l.text ++ [0x5B]).length = l.len + 1 := by
      rw [List.length_append, htext, List.length_singleton]
    have hbegin : b₁.items.take (l.len + 1) = l.text ++ [0x5B] := by
      rw [hitems₁, List.take_add_one, List.take_set_of_le (Nat.le_refl _),
        List.getElem?_set_self (by omega)]
      rfl
    have hnonempty : b₁.items.drop (l.len + 1 + (decimal tick).length + 1) ≠ [] := by
      rw [Ne, List.drop_eq_nil_iff, b₁.size]
      omega
    obtain ⟨c, rest, hrest⟩ := List.exists_cons_of_ne_nil hnonempty
    refine ⟨rest, ?_⟩
    have hat : (l.text ++ [0x5B]).length + (decimal tick).length =
        l.len + 1 + (decimal tick).length := by rw [hlow]
    have hfirst : (decimal tick ++ 0 :: c :: rest).set (decimal tick).length 0x5D =
        decimal tick ++ 0x5D :: c :: rest := set_length_add _ _ 0 _
    have hsecond : (decimal tick ++ 0x5D :: c :: rest).set ((decimal tick).length + 1) 0 =
        decimal tick ++ 0x5D :: 0 :: rest := set_length_add _ _ 1 _
    rw [hitems₄, hitems₃, hitems₂, hbegin, hrest, ← hat, set_length_add, Nat.add_assoc,
      set_length_add, hfirst, hsecond, timeText]
    simp only [List.append_assoc, List.cons_append, List.nil_append]
  have hstrlen : strlen (b₄.ptr l.len) = some (timeText tick).length := by
    rw [CArray.ptr, hitems, List.drop_append_of_le_length (by omega), ← htext, List.drop_length,
      List.nil_append]
    refine strlen_append_nul ?_ rest
    exact nulFree_cons.mpr ⟨by decide, nulFree_append.mpr ⟨nulFree_decimal tick,
      nulFree_cons.mpr ⟨by decide, nulFree_nil⟩⟩⟩
  refine ⟨⟨b₄, l.len + (timeText tick).length⟩, ?_, rfl, ?_⟩
  · simp only [Line.time, hb₁, hb₂, hb₃, hb₄, hstrlen, Option.bind_eq_bind, Option.bind_some]
  · have hlen : (l.text ++ timeText tick).length = l.len + (timeText tick).length := by
      rw [List.length_append, htext]
    rw [text, hitems, ← List.append_assoc, List.take_left' hlen]

/-- The start of the colour. -/
def colorText : Option (List (BitVec 8)) → List (BitVec 8)
  | some info => csiStart ++ info
  | none => []

/-- The colour, where there is one. -/
theorem appends_color {color : Option (List (BitVec 8))} (hcolor : ∀ info ∈ color, NulFree info) :
    Appends (fun l : Line => l.color color) (colorText color) := by
  cases color with
  | none => exact .nil
  | some info => exact (appends_strcpy nulFree_csiStart).bind (appends_strcpy (hcolor info rfl))

/-- What stands behind the time. -/
def nameText (info : List (BitVec 8)) (tag : CString) : List (BitVec 8) :=
  ascii " " ++ (info ++ (tag.chars ++ ascii ": "))

/-- Level and tag, between a blank and a colon. -/
theorem appends_name {info : List (BitVec 8)} (hinfo : NulFree info) (tag : CString) :
    Appends (fun l : Line => (l.strcpy (ascii " ")).bind fun l => (l.strcpy info).bind fun l =>
      (l.strcpy tag.chars).bind fun l => l.strcpy (ascii ": ")) (nameText info tag) := by
  have hspace : NulFree (ascii " ") := by simp [NulFree, ascii]
  have hcolon : NulFree (ascii ": ") := by simp [NulFree, ascii]
  exact (appends_strcpy hspace).bind ((appends_strcpy hinfo).bind
    ((appends_strcpy tag.nulFree).bind (appends_strcpy hcolon)))

/-- The header in an empty line, if its time does fit. -/
theorem header_cases {color : Option (List (BitVec 8))} {info : List (BitVec 8)} {tick : Nat}
    (buf : LineBuf) (tag : CString) (hcolor : ∀ info ∈ color, NulFree info)
    (hinfo : NulFree info)
    (htime : (colorText color).length + (timeText tick).length < lineBufSize) :
    (let text := colorText color ++ (timeText tick ++ nameText info tag)
    if text.length ≤ lineBufSize then
      ∃ m, Line.header ⟨buf, 0⟩ color info tick tag = some m ∧ m.len = text.length ∧ m.text = text
    else Line.header ⟨buf, 0⟩ color info tick tag = none) := by
  obtain ⟨l₁, hl₁, hlen₁, htext₁⟩ :=
    (appends_color hcolor).fits ⟨buf, 0⟩ (by rw [Nat.zero_add]; omega)
  rw [Nat.zero_add] at hlen₁
  obtain ⟨l₂, hl₂, hlen₂, htext₂⟩ := @time_fits l₁ tick (by omega)
  have hname := appends_name hinfo tag
  have hheader : Line.header ⟨buf, 0⟩ color info tick tag =
      (l₂.strcpy (ascii " ")).bind fun l => (l.strcpy info).bind fun l =>
        (l.strcpy tag.chars).bind fun l => l.strcpy (ascii ": ") := by
    unfold Line.header
    simp only [hl₁, hl₂, Option.bind_eq_bind, Option.bind_some]
  have hempty : text (⟨buf, 0⟩ : Line) = [] := List.take_zero
  simp only [hheader, List.length_append]
  split
  · obtain ⟨m, hm, hlen, htext⟩ := hname.fits l₂ (by omega)
    refine ⟨m, hm, by omega, ?_⟩
    rw [htext, htext₂, htext₁, hempty, List.nil_append, List.append_assoc]
  · exact hname.full l₂ (by omega) (by omega)

/-- The message never leaves the buffer, and its length is cut to the size. -/
theorem message_inside {l : Line} (vsnprintf : Vsnprintf) (hl : l.len ≤ lineBufSize) :
    ∃ m, l.message vsnprintf = some m ∧ m.len ≤ lineBufSize := by
  have hroom : l.room = some (lineBufSize - l.len) := if_pos hl
  have hbound := vsnprintf.bounded (lineBufSize - l.len)
  obtain ⟨buf, hbuf, -⟩ :=
    @CArray.write_eq_some _ _ (vsnprintf.written (lineBufSize - l.len)) l.buf l.len (by omega)
  unfold Line.message
  simp only [hroom, hbuf, Option.bind_eq_bind, Option.bind_some, Option.some.injEq]
  refine ⟨_, rfl, ?_⟩
  dsimp only
  split
  · next hle => exact hle.1
  · exact Nat.le_refl _

/-- Room is made for the newline and the end of the colour. -/
theorem trailer_inside {l : Line} (color : Option (List (BitVec 8))) (newline : Bool)
    (hl : l.len ≤ lineBufSize) :
    ∃ m, l.trailer color newline = some m ∧ m.len ≤ lineBufSize := by
  have hnewline := appends_strcpy nulFree_newlineSign
  have hend := appends_strcpy nulFree_csiEnd
  have hnlen : newlineSign.length = 2 := length_newlineSign
  have helen : csiEnd.length = 4 := length_csiEnd
  unfold lineBufSize at hl
  unfold Line.trailer
  dsimp only
  generalize hk : (if lineBufSize < l.len + (csiEnd.length + newlineSign.length) then
    lineBufSize - (csiEnd.length + newlineSign.length) else l.len) = k
  have hroom : k + 6 ≤ lineBufSize := by
    rw [hnlen, helen] at hk
    unfold lineBufSize at hk ⊢
    split at hk <;> omega
  have hfinish (m : Line) (hm : m.len + 4 ≤ lineBufSize) :
      ∃ t, (if color.isSome then m.strcpy csiEnd else some m) = some t ∧ t.len ≤ lineBufSize := by
    split
    · obtain ⟨t, ht, htlen, -⟩ := hend.fits m (by omega)
      exact ⟨t, ht, by omega⟩
    · exact ⟨m, rfl, by omega⟩
  cases newline with
  | false => exact hfinish ⟨l.buf, k⟩ (show k + 4 ≤ lineBufSize by omega)
  | true =>
    obtain ⟨m, hm, hlen, -⟩ :=
      hnewline.fits ⟨l.buf, k⟩ (show k + newlineSign.length ≤ lineBufSize by omega)
    change ∃ t, ((Line.strcpy ⟨l.buf, k⟩ newlineSign).bind fun l : Line =>
      if color.isSome then l.strcpy csiEnd else some l) = some t ∧ t.len ≤ lineBufSize
    rw [hm]
    refine hfinish m ?_
    rw [hlen]
    change k + newlineSign.length + 4 ≤ lineBufSize
    omega

/-- The levels that have a name, and lines whose pieces before the message fit: the colour, the
tick in brackets, the level, the tag, two blanks and a colon. -/
def FormaterFits (level tick : BitVec 32) (tag : CString) : Prop :=
  level.toNat ∈ [0, 3, 4, 6, 7] ∧
    (if level.toNat = 7 then 0 else 5) + (Nat.toDigits 10 tick.toNat).length +
      tag.chars.length + 7 ≤ lineBufSize

instance (level tick : BitVec 32) (tag : CString) : Decidable (FormaterFits level tick tag) :=
  inferInstanceAs (Decidable (_ ∧ _))

/-- What the tables hold for the levels. -/
theorem level_cases (n : Nat) :
    (n ∈ [0, 3, 4, 6, 7] ∧ ∃ color info, colorOutputInfo[n]? = some color ∧
      levelOutputInfo[n]? = some (some info) ∧ (∀ c ∈ color, NulFree c) ∧ NulFree info ∧
      (colorText color).length = (if n = 7 then 0 else 5) ∧ info.length = 2) ∨
    n ∉ [0, 3, 4, 6, 7] ∧ ∀ info, levelOutputInfo[n]? ≠ some (some info) := by
  have hcolor (s : List (BitVec 8)) (hs : NulFree s) : ∀ c ∈ some s, NulFree c := by
    intro c hc
    cases hc
    exact hs
  match n with
  | 0 | 3 | 4 | 6 =>
    left
    refine ⟨by decide, _, _, rfl, rfl, hcolor _ ?_, ?_, ?_, ?_⟩ <;>
      simp [NulFree, colorText, csiStart, ascii]
  | 7 =>
    left
    refine ⟨by decide, _, _, rfl, rfl, fun c hc => (by cases hc), ?_, rfl, ?_⟩ <;>
      simp [NulFree, ascii]
  | 1 | 2 | 5 =>
    right
    exact ⟨by decide, fun info h => (by cases h)⟩
  | n + 8 =>
    right
    refine ⟨by simp, fun info h => ?_⟩
    cases h

/-- `ulog_formater` stays inside exactly where what stands before the message fits. -/
theorem ulogFormater_iff (vsnprintf : Vsnprintf) (buf : LineBuf) (level tick : BitVec 32)
    (tag : CString) (newline : Bool) :
    (∃ l, ulogFormater vsnprintf buf level tick tag newline = some l ∧ l.len ≤ lineBufSize) ↔
      FormaterFits level tick tag := by
  unfold FormaterFits ulogFormater
  rcases level_cases level.toNat with ⟨hlevel, color, info, hc, hi, hcolor, hinfo, hclen, hilen⟩ |
    ⟨hlevel, hnone⟩
  · have hdigits := length_decimal_le tick.isLt
    have hlen : (timeText tick.toNat).length = (Nat.toDigits 10 tick.toNat).length + 2 := by
      rw [length_timeText, decimal, List.length_map]
    have hname : (nameText info tag).length = tag.chars.length + 5 := by
      have hspace : (ascii " ").length = 1 := by simp [ascii]
      have hcolon : (ascii ": ").length = 2 := by simp [ascii]
      simp only [nameText, List.length_append, hspace, hcolon, hilen]
      omega
    have hcle : (colorText color).length ≤ 5 := by
      rw [hclen]
      split <;> omega
    have hsum : (colorText color ++ (timeText tick.toNat ++ nameText info tag)).length =
        (colorText color).length + (Nat.toDigits 10 tick.toNat).length + tag.chars.length + 7 := by
      rw [List.length_append, List.length_append, hlen, hname]
      omega
    rw [← List.length_map (fun c : Char => BitVec.ofNat 8 c.toNat), ← decimal] at hlen
    have htime : (colorText color).length + (timeText tick.toNat).length < lineBufSize := by
      unfold lineBufSize
      omega
    have hcases := header_cases buf tag hcolor hinfo htime
    simp only [hsum] at hcases
    simp only [hc, hi, ← hclen, Option.bind_eq_bind, Option.bind_some]
    by_cases hfits : (colorText color).length + (Nat.toDigits 10 tick.toNat).length +
        tag.chars.length + 7 ≤ lineBufSize
    · rw [if_pos hfits] at hcases
      obtain ⟨l₁, hl₁, hlen₁, -⟩ := hcases
      obtain ⟨l₂, hl₂, hle₂⟩ := @message_inside l₁ vsnprintf (by omega)
      obtain ⟨l₃, hl₃, hle₃⟩ := trailer_inside color newline hle₂
      refine ⟨fun _ => ⟨hlevel, hfits⟩, fun _ => ⟨l₃, ?_, hle₃⟩⟩
      simp only [hl₁, hl₂, hl₃, Option.bind_some]
    · rw [if_neg hfits] at hcases
      constructor
      · rintro ⟨l, hl, -⟩
        simp only [hcases, Option.bind_none, reduceCtorEq] at hl
      · rintro ⟨-, hfits'⟩
        exact absurd hfits' hfits
  · constructor
    · rintro ⟨l, hl, -⟩
      simp only [Option.bind_eq_bind, Option.bind_eq_some_iff] at hl
      obtain ⟨color, -, info, hinfo, text, rfl, -⟩ := hl
      exact absurd hinfo (hnone text)
    · rintro ⟨hin, -⟩
      exact absurd hin hlevel

/-! ## `ulog_hexdump` -/

namespace HexDump

variable (d : HexDump) {i j k : Nat} {l : Line}

/-- Where the lines begin. -/
def lineStart (k : Nat) : Nat := k * d.width.toNat % 0x100000000

/-- The digits of `%04X`. -/
def wordLength (n : Nat) : Nat := max 4 (Nat.toDigits 16 n).length

/-- The characters of a line for bytes that there are. -/
def shown (i : Nat) : Nat :=
  (List.range d.width.toNat).countP fun j => decide (add32 i j < d.size.toNat)

/-- What one line appends: the header and the range, three characters for each column and a blank
after eight of them, two blanks, and the characters. -/
def pieces (i : Nat) : Nat :=
  8 + d.tag.chars.length + (wordLength i + wordLength (add32 i d.width.toNat) + 3) +
    (3 * d.width.toNat + d.width.toNat / 8) + 2 + d.shown i

/-- What is in the line when it begins: its predecessor, if the number of the first byte is 0
again. -/
def carry : Nat → Nat
  | 0 => 0
  | k + 1 =>
    min ((if d.lineStart k = 0 then carry k else 0) + d.pieces (d.lineStart k))
      (lineBufSize - newlineSign.length) + newlineSign.length

/-- The length of a line before its newline. -/
def lineLength (k : Nat) : Nat :=
  (if d.lineStart k = 0 then d.carry k else 0) + d.pieces (d.lineStart k)

/-- Every line fits without its newline. -/
def Fits : Prop :=
  ∀ k, (∀ j ≤ k, d.lineStart j < d.size.toNat) → d.lineLength k ≤ lineBufSize

/-! ### The pieces -/

theorem hexDigit_ne_zero {n : Nat} (h : n < 16) : hexDigit n ≠ 0 := by
  have hall : ∀ n < 16, hexDigit n ≠ 0 := by decide
  exact hall n h

theorem nulFree_hexByte (b : BitVec 8) : NulFree (hexByte b) := by
  have hb := b.isLt
  refine nulFree_cons.mpr ⟨hexDigit_ne_zero (by omega), nulFree_cons.mpr
    ⟨hexDigit_ne_zero (by omega), nulFree_cons.mpr ⟨by decide, nulFree_nil⟩⟩⟩

theorem nulFree_printable (b : BitVec 8) : NulFree (printable b) := by
  refine nulFree_cons.mpr ⟨?_, nulFree_nil⟩
  split
  · next h =>
    rintro rfl
    exact absurd h.1 (by decide)
  · decide

/-- The text of one column. -/
def columnText (i j : Nat) : List (BitVec 8) :=
  (if add32 i j < d.size.toNat then hexByte (d.data (add32 i j)) else ascii "   ") ++
    if (j + 1) % 8 = 0 then ascii " " else []

/-- A column of the hexdump, with a blank behind each eighth one. -/
theorem appends_column (i j : Nat) : Appends (d.column i j) (d.columnText i j) := by
  have hblank : NulFree (ascii "   ") := by simp [NulFree, ascii]
  have hspace : NulFree (ascii " ") := by simp [NulFree, ascii]
  have hbyte : NulFree (if add32 i j < d.size.toNat then hexByte (d.data (add32 i j))
      else ascii "   ") := by
    split
    · exact nulFree_hexByte _
    · exact hblank
  have hgap : Appends (fun l : Line => if (j + 1) % 8 = 0 then l.strcpy (ascii " ") else some l)
      (if (j + 1) % 8 = 0 then ascii " " else []) := by
    split
    · exact appends_strcpy hspace
    · exact .nil
  exact (appends_strcpy hbyte).bind hgap

/-- The columns take three characters each, and the blanks. -/
theorem length_columns (i j k : Nat) :
    (loopText (d.columnText i) j k).length + j / 8 = 3 * k + (j + k) / 8 := by
  induction k generalizing j with
  | zero => rw [loopText, List.length_nil, Nat.zero_add, Nat.mul_zero, Nat.zero_add, Nat.add_zero]
  | succ k ih =>
    have hrest := ih (j + 1)
    have hbyte : (if add32 i j < d.size.toNat then hexByte (d.data (add32 i j))
        else ascii "   ").length = 3 := by
      split
      · rfl
      · simp [ascii]
    have hspace : (ascii " ").length = 1 := by simp [ascii]
    rw [loopText, List.length_append, columnText, List.length_append, hbyte]
    split
    · rw [hspace]
      omega
    · rw [List.length_nil]
      omega

/-- The text of one character. -/
def charText (i j : Nat) : List (BitVec 8) :=
  if add32 i j < d.size.toNat then printable (d.data (add32 i j)) else []

theorem appends_char (i j : Nat) : Appends (d.char i j) (d.charText i j) := by
  unfold charText
  split
  · next h =>
    exact (appends_strcpy (nulFree_printable _)).congr fun l _ => if_pos h
  · next h => exact Appends.nil.congr fun l _ => if_neg h

/-- There are as many characters as bytes left. -/
theorem length_chars (i j k : Nat) :
    (loopText (d.charText i) j k).length =
      (List.range' j k).countP fun j => decide (add32 i j < d.size.toNat) := by
  induction k generalizing j with
  | zero => rfl
  | succ k ih =>
    rw [loopText, List.length_append, ih, List.range'_succ, List.countP_cons, Nat.add_comm]
    unfold charText
    by_cases h : add32 i j < d.size.toNat
    · rw [if_pos h, if_pos (decide_eq_true h)]
      rfl
    · rw [if_neg h, if_neg (by rwa [decide_eq_true_iff])]
      rfl

/-- A word is written with four digits at least. -/
theorem length_hexWord (n : Nat) : (hexWord n).length = wordLength n := by
  unfold hexWord wordLength
  simp only [List.length_append, List.length_replicate, List.length_map]
  omega

/-- The range of addresses in front of a line. -/
theorem length_hexRange (first last : Nat) :
    (hexRange first last).length = wordLength first + wordLength last + 3 := by
  have hdash : (ascii "-").length = 1 := by simp [ascii]
  have hcolon : (ascii ": ").length = 2 := by simp [ascii]
  simp only [hexRange, List.length_append, length_hexWord, hdash, hcolon]
  omega

/-- A word has eight digits at most. -/
theorem wordLength_le {n : Nat} (h : n < 0x100000000) : wordLength n ≤ 8 := by
  refine Nat.max_le.mpr ⟨by decide, ?_⟩
  refine (Nat.length_toDigits_le_iff (by decide) (by decide)).mpr ?_
  exact Nat.lt_of_lt_of_le h (by decide)

/-- The columns and the characters. -/
def body (i : Nat) (l : Line) : Option Line :=
  (TextBuffer.loop (d.column i) 0 d.width.toNat l).bind fun l : Line =>
    (l.strcpy (ascii "  ")).bind (TextBuffer.loop (d.char i) 0 d.width.toNat)

/-- A line is its header, its range, its body and its end. -/
theorem line_eq (i : Nat) (l : Line) :
    d.line i l = (((d.header i l).bind (d.range i)).bind (d.body i)).bind newline := by
  unfold line body
  simp only [Option.bind_eq_bind, Option.bind_assoc]

/-- What the body of a line appends, with its length. -/
theorem appends_body (i : Nat) :
    ∃ text, Appends (d.body i) text ∧
      text.length = 3 * d.width.toNat + d.width.toNat / 8 + 2 + d.shown i := by
  have hblank : NulFree (ascii "  ") := by simp [NulFree, ascii]
  have hlen : (ascii "  ").length = 2 := by simp [ascii]
  refine ⟨_, (Appends.loop (d.appends_column i) 0 d.width.toNat).bind
    ((appends_strcpy hblank).bind (Appends.loop (d.appends_char i) 0 d.width.toNat)), ?_⟩
  have hcolumns := d.length_columns i 0 d.width.toNat
  rw [List.length_append, List.length_append, length_chars, hlen, ← List.range_eq_range']
  unfold shown
  omega

/-! ### One line -/

/-- The header of a line that begins at 0 is appended. -/
theorem appends_header :
    ∃ text, Appends (d.header 0) text ∧ text.length = 8 + d.tag.chars.length := by
  have hname : NulFree (ascii "D/HEX ") := by simp [NulFree, ascii]
  have hcolon : NulFree (ascii ": ") := by simp [NulFree, ascii]
  have hnamelen : (ascii "D/HEX ").length = 6 := by simp [ascii]
  have hcolonlen : (ascii ": ").length = 2 := by simp [ascii]
  refine ⟨_, (appends_strcpy hname).bind ((appends_strcpy d.tag.nulFree).bind
    (appends_strcpy hcolon)), ?_⟩
  rw [List.length_append, List.length_append, hnamelen, hcolonlen]
  omega

/-- The header of any other line is written from the begin of the buffer. -/
theorem header_blank (hi : i ≠ 0) (htag : d.tag.chars.length ≤ 118) (l : Line) :
    ∃ m, d.header i l = some m ∧ m.len = 8 + d.tag.chars.length := by
  have hlen : add32 (add32 6 d.tag.chars.length) 2 = 8 + d.tag.chars.length := by
    rw [@add32_of_lt 6 _ (by omega), add32_of_lt (by omega)]
    omega
  have hroom : 0 + (List.replicate (8 + d.tag.chars.length) (0x20 : BitVec 8)).length ≤
      lineBufSize := by
    rw [List.length_replicate]
    unfold lineBufSize
    omega
  obtain ⟨buf, hbuf, -⟩ := @CArray.write_eq_some _ _ _ l.buf 0 hroom
  refine ⟨⟨buf, 8 + d.tag.chars.length⟩, ?_, rfl⟩
  unfold header
  simp only [if_neg hi, hlen, hbuf, Option.bind_eq_bind, Option.bind_some]

/-- What the header leaves: the length is that of the header, behind what was there if the line
begins at 0. -/
theorem header_length (htag : i ≠ 0 → d.tag.chars.length ≤ 118) (hl : l.len ≤ lineBufSize) :
    (let n := (if i = 0 then l.len else 0) + (8 + d.tag.chars.length)
    if n ≤ lineBufSize then ∃ m, d.header i l = some m ∧ m.len = n else d.header i l = none) := by
  dsimp only
  by_cases hi : i = 0
  · subst hi
    obtain ⟨text, happends, hlen⟩ := d.appends_header
    rw [if_pos rfl]
    split
    · obtain ⟨m, hm, hmlen, -⟩ := happends.fits l (by omega)
      exact ⟨m, hm, by omega⟩
    · exact happends.full l hl (by omega)
  · have htag := htag hi
    rw [if_neg hi, if_pos (by unfold lineBufSize; omega), Nat.zero_add]
    exact d.header_blank hi htag l

/-- The characters of a range. -/
def rangeLength (i : Nat) : Nat := wordLength i + wordLength (add32 i d.width.toNat) + 3

/-- The range is 19 characters long at most. -/
theorem rangeLength_le (hi : i < 0x100000000) : d.rangeLength i ≤ 19 := by
  have hfirst := wordLength_le hi
  have hlast := wordLength_le (add32_lt i d.width.toNat)
  unfold rangeLength
  omega

/-- The range is written with a NUL, for which there must be room too. -/
theorem range_length (hi : i < 0x100000000) (hl : l.len ≤ lineBufSize) :
    if l.len + d.rangeLength i < lineBufSize then
      ∃ m, d.range i l = some m ∧ m.len = l.len + d.rangeLength i
    else d.range i l = none := by
  have hbound := d.rangeLength_le hi
  have hlen : (hexRange i (add32 i d.width.toNat)).length = d.rangeLength i :=
    length_hexRange _ _
  have hwritten : (snprintf lineBufSize (hexRange i (add32 i d.width.toNat))).length =
      d.rangeLength i + 1 := by
    unfold snprintf lineBufSize
    rw [List.length_append, List.length_take, List.length_singleton, hlen,
      Nat.min_eq_right (by omega)]
  have hresult : d.rangeLength i ≤ lineBufSize := by
    unfold lineBufSize
    omega
  unfold range
  dsimp only
  split
  · obtain ⟨buf, hbuf, -⟩ := @CArray.write_eq_some _ _
      (snprintf lineBufSize (hexRange i (add32 i d.width.toNat))) l.buf l.len (by omega)
    refine ⟨⟨buf, l.len + d.rangeLength i⟩, ?_, rfl⟩
    simp only [hbuf, hlen, if_pos hresult, Option.bind_eq_bind, Option.bind_some]
  · rw [CArray.write_eq_none hl (by omega)]
    rfl

/-- Room is made for the newline. -/
theorem newline_length (hl : l.len ≤ lineBufSize) :
    ∃ m, newline l = some m ∧
      m.len = min l.len (lineBufSize - newlineSign.length) + newlineSign.length := by
  have hsign : newlineSign.length = 2 := length_newlineSign
  unfold newline
  generalize hk : (if lineBufSize < l.len + newlineSign.length then
    lineBufSize - newlineSign.length else l.len) = k
  have hmin : k = min l.len (lineBufSize - newlineSign.length) := by
    rw [← hk, hsign]
    unfold lineBufSize at hl ⊢
    split <;> omega
  have hroom : k + newlineSign.length ≤ lineBufSize := by
    rw [hmin, hsign]
    unfold lineBufSize
    omega
  obtain ⟨m, hm, hlen, -⟩ := (appends_strcpy nulFree_newlineSign).fits ⟨l.buf, k⟩ hroom
  exact ⟨m, hm, hmin ▸ hlen⟩

theorem lineStart_lt (k : Nat) : d.lineStart k < 0x100000000 := Nat.mod_lt _ (by decide)

theorem lineStart_zero : d.lineStart 0 = 0 := by
  rw [lineStart, Nat.zero_mul]

/-- The next line begins a width further. -/
theorem lineStart_succ (k : Nat) :
    add32 (d.lineStart k) d.width.toNat = d.lineStart (k + 1) := by
  unfold add32 lineStart
  rw [Nat.mod_add_mod, Nat.succ_mul]

/-- A line has a result exactly if it fits, and leaves what its successor finds. -/
theorem line_cases (htag : d.lineStart k ≠ 0 → d.tag.chars.length ≤ 118)
    (hl : l.len = d.carry k) (hle : l.len ≤ lineBufSize) :
    if d.lineLength k ≤ lineBufSize then
      ∃ m, d.line (d.lineStart k) l = some m ∧ m.len = d.carry (k + 1)
    else d.line (d.lineStart k) l = none := by
  have hheader := d.header_length htag hle
  have hcarry : d.carry (k + 1) =
      min (d.lineLength k) (lineBufSize - newlineSign.length) + newlineSign.length := rfl
  have hline : d.lineLength k = (if d.lineStart k = 0 then l.len else 0) +
      (8 + d.tag.chars.length) + d.rangeLength (d.lineStart k) +
        (3 * d.width.toNat + d.width.toNat / 8 + 2 + d.shown (d.lineStart k)) := by
    rw [lineLength, pieces, rangeLength, hl]
    omega
  dsimp only at hheader
  by_cases hfirst :
      (if d.lineStart k = 0 then l.len else 0) + (8 + d.tag.chars.length) ≤ lineBufSize
  · rw [if_pos hfirst] at hheader
    obtain ⟨l₁, hl₁, hlen₁⟩ := hheader
    have hrange := @range_length d _ l₁ (d.lineStart_lt k) (by omega)
    by_cases hsecond : l₁.len + d.rangeLength (d.lineStart k) < lineBufSize
    · rw [if_pos hsecond] at hrange
      obtain ⟨l₂, hl₂, hlen₂⟩ := hrange
      obtain ⟨text, happends, hlen⟩ := d.appends_body (d.lineStart k)
      split
      · obtain ⟨l₃, hl₃, hlen₃, -⟩ := happends.fits l₂ (by omega)
        obtain ⟨l₄, hl₄, hlen₄⟩ := @newline_length l₃ (by omega)
        refine ⟨l₄, ?_, ?_⟩
        · rw [line_eq, hl₁, Option.bind_some, hl₂, Option.bind_some, hl₃, Option.bind_some, hl₄]
        · rw [hlen₄, hcarry]
          omega
      · have hnone := happends.full l₂ (by omega) (by omega)
        rw [line_eq, hl₁, Option.bind_some, hl₂, Option.bind_some, hnone]
        rfl
    · rw [if_neg hsecond] at hrange
      rw [if_neg (by omega), line_eq, hl₁, Option.bind_some, hrange]
      rfl
  · rw [if_neg hfirst] at hheader
    rw [if_neg (by omega), line_eq, hheader]
    rfl

/-! ### All lines -/

/-- The length of a line that was handed on. -/
theorem carry_le (k : Nat) : d.carry k ≤ lineBufSize := by
  cases k with
  | zero => exact Nat.zero_le _
  | succ k =>
    have hsign : newlineSign.length = 2 := length_newlineSign
    rw [carry, hsign]
    unfold lineBufSize
    omega

/-- The tag of a line that fits leaves room for the blanks below it. -/
theorem tag_le (h : d.lineLength k ≤ lineBufSize) : d.tag.chars.length ≤ 118 := by
  unfold lineLength pieces wordLength lineBufSize at h
  omega

/-- The lines `k`, `k + 1` and so on fit, of `fuel` lines at most. -/
def FitFrom (k fuel : Nat) : Prop :=
  ∀ n, k ≤ n → n < k + fuel → (∀ j, k ≤ j → j ≤ n → d.lineStart j < d.size.toNat) →
    d.lineLength n ≤ lineBufSize

theorem fitFrom_zero : d.FitFrom k 0 := by
  intro n hkn hn
  omega

theorem fitFrom_succ {fuel : Nat} :
    d.FitFrom k (fuel + 1) ↔
      (d.lineStart k < d.size.toNat → d.lineLength k ≤ lineBufSize ∧ d.FitFrom (k + 1) fuel) := by
  constructor
  · intro h hstart
    constructor
    · apply h k (Nat.le_refl k) (by omega)
      intro j hkj hjk
      rwa [Nat.le_antisymm hjk hkj]
    · intro n hkn hn hstarts
      apply h n (by omega) (by omega)
      intro j hkj hjn
      rcases Nat.eq_or_lt_of_le hkj with rfl | hlt
      · exact hstart
      · exact hstarts j hlt hjn
  · intro h n hkn hn hstarts
    obtain ⟨hlength, hrest⟩ := h (hstarts k (Nat.le_refl k) hkn)
    rcases Nat.eq_or_lt_of_le hkn with rfl | hlt
    · exact hlength
    · apply hrest n hlt (by omega)
      intro j hkj hjn
      exact hstarts j (by omega) hjn

/-- A line that fits, in front of the others. -/
theorem cons_fits {m : Line} {rest : Option (List Line)} (hm : m.len ≤ lineBufSize) :
    (∃ ls, (rest.bind fun rest => some (m :: rest)) = some ls ∧ ∀ t ∈ ls, t.len ≤ lineBufSize) ↔
      ∃ ls, rest = some ls ∧ ∀ t ∈ ls, t.len ≤ lineBufSize := by
  constructor
  · rintro ⟨ls, hls, hall⟩
    obtain ⟨rest, rfl, hcons⟩ := Option.bind_eq_some_iff.mp hls
    cases hcons
    exact ⟨rest, rfl, fun t ht => hall t (List.mem_cons_of_mem m ht)⟩
  · rintro ⟨rest, rfl, hall⟩
    refine ⟨m :: rest, rfl, ?_⟩
    intro t ht
    rcases List.mem_cons.mp ht with rfl | ht
    · exact hm
    · exact hall t ht

/-- A run of the loop, line by line. -/
theorem lines_iff {fuel : Nat} (htag : 0 < k → d.tag.chars.length ≤ 118)
    (hl : l.len = d.carry k) :
    (∃ ls, d.lines fuel (d.lineStart k) l = some ls ∧ ∀ m ∈ ls, m.len ≤ lineBufSize) ↔
      d.FitFrom k fuel := by
  induction fuel generalizing k l with
  | zero =>
    refine ⟨fun _ => d.fitFrom_zero, fun _ => ⟨[], rfl, ?_⟩⟩
    intro m hm
    cases hm
  | succ fuel ih =>
    rw [fitFrom_succ, lines]
    by_cases hstart : d.lineStart k < d.size.toNat
    · have hcarry := d.carry_le k
      have hbelow (hne : d.lineStart k ≠ 0) : d.tag.chars.length ≤ 118 := by
        apply htag
        apply Nat.pos_of_ne_zero
        rintro rfl
        exact hne d.lineStart_zero
      have hline := d.line_cases hbelow hl (by omega)
      rw [if_pos hstart]
      by_cases hlength : d.lineLength k ≤ lineBufSize
      · rw [if_pos hlength] at hline
        obtain ⟨m, hm, hmlen⟩ := hline
        have hmle := d.carry_le (k + 1)
        rw [hm, lineStart_succ, Option.bind_eq_bind, Option.bind_some]
        have hrest := @ih (k + 1) m (fun _ => d.tag_le hlength) hmlen
        refine (cons_fits (by omega)).trans (hrest.trans ?_)
        exact ⟨fun h _ => ⟨hlength, h⟩, fun h => (h hstart).2⟩
      · rw [if_neg hlength] at hline
        rw [hline]
        constructor
        · rintro ⟨ls, hls, -⟩
          cases hls
        · intro h
          exact absurd (h hstart).1 hlength
    · rw [if_neg hstart]
      refine ⟨fun _ h => absurd h hstart, fun _ => ⟨[], rfl, ?_⟩⟩
      intro m hm
      cases hm

end HexDump

/-- `ulog_hexdump` stays inside exactly where all of its lines fit. -/
theorem ulogHexdump_iff (d : HexDump) (buf : LineBuf) :
    (∀ fuel, ∃ ls, ulogHexdump d buf fuel = some ls ∧ ∀ l ∈ ls, l.len ≤ lineBufSize) ↔
      d.Fits := by
  have hrun (fuel : Nat) : (∃ ls, ulogHexdump d buf fuel = some ls ∧
      ∀ l ∈ ls, l.len ≤ lineBufSize) ↔ d.FitFrom 0 fuel := by
    have hlines := @HexDump.lines_iff d 0 ⟨buf, 0⟩ fuel (fun h => absurd h (Nat.lt_irrefl 0)) rfl
    rwa [HexDump.lineStart_zero] at hlines
  constructor
  · intro h k hstarts
    apply (hrun (k + 1)).mp (h (k + 1)) k (Nat.zero_le k) (by omega)
    intro j _ hjk
    exact hstarts j hjk
  · intro h fuel
    apply (hrun fuel).mpr
    intro n _ _ hstarts
    exact h n fun j hjn => hstarts j (Nat.zero_le j) hjn

/-! ## All lines -/

/-- **The lines stay inside the buffer**, and their length is 128 at most, exactly when what stands
before the message fits, and each line of a dump. -/
theorem ulog_lines_fit (vsnprintf : Vsnprintf) (buf : LineBuf) (level tick : BitVec 32)
    (tag : CString) (newline : Bool) (d : HexDump) :
    ((∃ l, ulogFormater vsnprintf buf level tick tag newline = some l ∧ l.len ≤ lineBufSize) ↔
      FormaterFits level tick tag) ∧
    ((∀ fuel, ∃ ls, ulogHexdump d buf fuel = some ls ∧ ∀ l ∈ ls, l.len ≤ lineBufSize) ↔
      d.Fits) := by
  constructor
  · exact ulogFormater_iff vsnprintf buf level tick tag newline
  · exact ulogHexdump_iff d buf

/-- A tag of 121 characters in a line without colour, and a dump of 32 bytes in one line, are
written one byte too far. -/
theorem ulog_lines_fit_too_long :
    let vsnprintf : Vsnprintf := ⟨fun _ => [], fun _ => 0, fun size => Nat.zero_le size⟩
    let buf : LineBuf := ⟨List.replicate 128 0, List.length_replicate⟩
    let tag : CString := ⟨List.replicate 121 0x41, nulFree_replicate 121 (by decide)⟩
    let d : HexDump := ⟨⟨[0x62, 0x75, 0x66], by unfold NulFree; decide⟩, 32, 32, fun _ => 0⟩
    (¬∃ l, ulogFormater vsnprintf buf 7 0 tag true = some l ∧ l.len ≤ lineBufSize) ∧
      ¬∀ fuel, ∃ ls, ulogHexdump d buf fuel = some ls ∧ ∀ l ∈ ls, l.len ≤ lineBufSize := by
  intro vsnprintf buf tag d
  constructor
  · rw [ulogFormater_iff]
    decide +kernel
  · rw [ulogHexdump_iff]
    intro hfits
    exact absurd (hfits 0 (by decide +kernel)) (by decide +kernel)

end RtVcom.Ulog

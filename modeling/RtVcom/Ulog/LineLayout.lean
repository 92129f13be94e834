import RtVcom.Ulog.LineFit

/-!
# The layout of a log line

What `ulog_formater` makes of a message: the header, as much of the message as leaves room for the
trailers, the newline, and the end of the colour where there is a colour (`ulogFormater_layout`).
`LineFit` says when the line stays inside; this is what stands in it.

The length is taken from the result of `vsnprintf`, which may be any number or an error, and is cut
to the size and then to the size without the trailers. Whatever it was, the line is cut inside of
what `vsnprintf` has written (`message_print`).
-/

namespace RtVcom.Ulog

open RtVcom.Lib RtVcom.Lib.TextBuffer

/-- The C library's `vsnprintf` for a message: as much of it as fits in front of a NUL, and its
length, or an error if that is not an `int`. -/
def print (message : List (BitVec 8)) : Vsnprintf where
  written size := if size = 0 then [] else message.take (size - 1) ++ [0]
  result _ := if message.length < 0x80000000 then BitVec.ofNat 32 message.length else -1
  bounded size := by
    split
    · exact Nat.zero_le _
    · rw [List.length_append, List.length_take, List.length_singleton]
      omega

/-- The colour of a level. -/
def levelColor (level : Nat) : Option (List (BitVec 8)) := (colorOutputInfo[level]?).join

/-- What stands before the message: the start of the colour, the tick in brackets, a space, the
level, the tag, a colon and a space. -/
def headerText (level tick : Nat) (tag : CString) : List (BitVec 8) :=
  colorText (levelColor level) ++
    (timeText tick ++ nameText ((levelOutputInfo[level]?).join.getD []) tag)

/-- As much of a message as a line with a header has room for. -/
def shownMessage (header message : List (BitVec 8)) : List (BitVec 8) :=
  if header.length + message.length + 6 ≤ lineBufSize then message
  else message.take (122 - header.length)

/-- The message is written behind the header, and the length is at most the size. -/
theorem message_print {l : Line} {message : List (BitVec 8)} (hl : l.len < 122) :
    ∃ l', l.message (print message) = some l' ∧
      l'.len = (if l.len + message.length ≤ lineBufSize then l.len + message.length
        else lineBufSize) ∧
      ∀ k, k ≤ message.length → l.len + k ≤ 127 →
        l'.buf.items.take (l.len + k) = l.text ++ message.take k := by
  have hroom : l.room = some (128 - l.len) := if_pos (show l.len ≤ 128 by omega)
  have hwritten : (print message).written (128 - l.len) = message.take (127 - l.len) ++ [0] :=
    (if_neg (show ¬128 - l.len = 0 by omega)).trans
      (congrArg (fun size => message.take size ++ [0]) (by omega))
  have hlen : (message.take (127 - l.len) ++ [0]).length ≤ 128 - l.len := by
    rw [List.length_append, List.length_take, List.length_singleton]
    omega
  obtain ⟨buf, hbuf, hitems⟩ := @CArray.write_eq_some _ _ (message.take (127 - l.len) ++ [0])
    l.buf l.len (show _ ≤ 128 by omega)
  have hfront : l.text.length = l.len := length_text (show l.len ≤ 128 by omega)
  have hcut : (if add32 l.len ((print message).result (128 - l.len)).toNat ≤ lineBufSize ∧
        -1 < ((print message).result (128 - l.len)).toInt then
      add32 l.len ((print message).result (128 - l.len)).toNat else lineBufSize) =
      if l.len + message.length ≤ lineBufSize then l.len + message.length else lineBufSize := by
    unfold print lineBufSize add32
    dsimp only
    by_cases hint : message.length < 0x80000000
    · have hnat : (BitVec.ofNat 32 message.length).toNat = message.length := by
        rw [BitVec.toNat_ofNat]
        exact Nat.mod_eq_of_lt (by omega)
      have hsign : (BitVec.ofNat 32 message.length).toInt = message.length := by
        rw [BitVec.toInt_eq_toNat_of_lt (by omega), hnat]
      rw [if_pos hint, hnat, hsign, Nat.mod_eq_of_lt (by omega)]
      split <;> split <;> omega
    · have hsign : (-1 : BitVec 32).toInt = -1 := by decide
      rw [if_neg hint, hsign, if_neg fun h => Int.lt_irrefl _ h.2, if_neg (by omega)]
  refine ⟨⟨buf, if l.len + message.length ≤ lineBufSize then l.len + message.length
    else lineBufSize⟩, ?_, rfl, fun k hk hfits => ?_⟩
  · unfold Line.message
    simp only [hroom, hwritten, hbuf, hcut, Option.bind_eq_bind, Option.bind_some]
  · have hlast : (message.take (127 - l.len)).take k = message.take k := by
      rw [List.take_take, Nat.min_eq_left (by omega)]
    have hshort : k ≤ (message.take (127 - l.len)).length := by
      rw [List.length_take]
      omega
    dsimp only
    rw [hitems, List.append_assoc, List.append_assoc, ← text]
    rw [← hfront, List.take_length_add_append, hfront, List.take_append_of_le_length hshort, hlast]

/-- The trailers, behind as much of the line as leaves room for them. -/
theorem trailer_text (l : Line) (color : Option (List (BitVec 8))) :
    ∃ l', l.trailer color true = some l' ∧
      l'.text = l.buf.items.take (min l.len 122) ++ newlineSign ++
        (if color.isSome then csiEnd else []) ∧ l'.len ≤ lineBufSize := by
  have hreserve : csiEnd.length + newlineSign.length = 6 := by
    rw [length_csiEnd, length_newlineSign]
  have hcut : (if lineBufSize < l.len + 6 then lineBufSize - 6 else l.len) = min l.len 122 := by
    unfold lineBufSize
    split <;> omega
  have hlen : newlineSign.length = 2 := length_newlineSign
  have hendlen : csiEnd.length = 4 := length_csiEnd
  obtain ⟨l₁, hl₁, hlen₁, htext₁⟩ := (appends_strcpy nulFree_newlineSign).fits
    ⟨l.buf, min l.len 122⟩ (show min l.len 122 + newlineSign.length ≤ 128 by omega)
  dsimp only at hlen₁
  unfold Line.trailer
  simp only [hreserve, hcut, if_true, hl₁, Option.bind_eq_bind, Option.bind_some]
  by_cases hcolor : color.isSome
  · obtain ⟨l₂, hl₂, hlen₂, htext₂⟩ := (appends_strcpy nulFree_csiEnd).fits l₁
      (show l₁.len + csiEnd.length ≤ 128 by omega)
    refine ⟨l₂, ?_, ?_, show l₂.len ≤ 128 by omega⟩
    · rw [if_pos hcolor]
      exact hl₂
    · rw [if_pos hcolor, htext₂, htext₁]
      rfl
  · refine ⟨l₁, ?_, ?_, show l₁.len ≤ 128 by omega⟩
    · rw [if_neg hcolor]
    · rw [if_neg hcolor, List.append_nil, htext₁]
      rfl

/-- A level with a name has an entry in both tables. -/
theorem named_level {level : Nat} (h : level ∈ [0, 3, 4, 6, 7]) :
    ∃ color info, colorOutputInfo[level]? = some color ∧
      levelOutputInfo[level]? = some (some info) ∧ (∀ c ∈ color, NulFree c) ∧ NulFree info := by
  rcases level_cases level with ⟨-, color, info, hc, hi, hcolor, hinfo, -, -⟩ | ⟨hno, -⟩
  · exact ⟨color, info, hc, hi, hcolor, hinfo⟩
  · exact absurd h hno

/-- **The layout of a line.** For every level that has a name, every tick, tag and message: if the
header has less than 122 bytes, the line is the header, as much of the message as there is room for,
the newline, and the end of the colour exactly if the level has a colour. -/
theorem ulogFormater_layout (buf : LineBuf) (level tick : BitVec 32) (tag : CString)
    (message : List (BitVec 8)) (hlevel : level.toNat ∈ [0, 3, 4, 6, 7])
    (hheader : (headerText level.toNat tick.toNat tag).length < 122) :
    ∃ l, ulogFormater (print message) buf level tick tag true = some l ∧ l.len ≤ lineBufSize ∧
      l.text = headerText level.toNat tick.toNat tag ++
        shownMessage (headerText level.toNat tick.toNat tag) message ++ newlineSign ++
          (if (levelColor level.toNat).isSome then csiEnd else []) := by
  obtain ⟨color, info, hc, hi, hcolor, hinfo⟩ := named_level hlevel
  have hlevelColor : levelColor level.toNat = color := by
    rw [levelColor, hc]
    rfl
  have htext : headerText level.toNat tick.toNat tag =
      colorText color ++ (timeText tick.toNat ++ nameText info tag) := by
    rw [headerText, hlevelColor, hi]
    rfl
  rw [hlevelColor]
  generalize headerText level.toNat tick.toNat tag = header at htext hheader ⊢
  have htime : (colorText color).length + (timeText tick.toNat).length < lineBufSize := by
    rw [htext, List.length_append, List.length_append] at hheader
    unfold lineBufSize
    omega
  have hfit : header.length ≤ lineBufSize := by
    unfold lineBufSize
    omega
  have hcases := header_cases buf tag hcolor hinfo htime
  simp only [← htext, if_pos hfit] at hcases
  obtain ⟨l₁, hl₁, hlen₁, htext₁⟩ := hcases
  obtain ⟨l₂, hl₂, hlen₂, htake⟩ := @message_print l₁ message (by omega)
  rw [hlen₁] at hlen₂ htake
  obtain ⟨l₃, hl₃, htext₃, hle₃⟩ := trailer_text l₂ color
  refine ⟨l₃, ?_, hle₃, ?_⟩
  · unfold ulogFormater
    simp only [hc, hi, hl₁, hl₂, hl₃, Option.bind_eq_bind, Option.bind_some]
  · have hshown : l₂.buf.items.take (min l₂.len 122) = header ++ shownMessage header message := by
      unfold shownMessage
      unfold lineBufSize at hlen₂ ⊢
      by_cases hroom : header.length + message.length + 6 ≤ 128
      · have hmin : min l₂.len 122 = header.length + message.length := by
          rw [hlen₂, if_pos (by omega)]
          omega
        rw [if_pos hroom, hmin, htake _ (Nat.le_refl _) (by omega), htext₁, List.take_length]
      · have hmin : min l₂.len 122 = header.length + (122 - header.length) := by
          rw [hlen₂]
          split <;> omega
        rw [if_neg hroom, hmin, htake _ (by omega) (by omega), htext₁]
    rw [htext₃, hshown]

/-- Error level, tick five, no tag, message `hi`: a coloured line. -/
theorem ulogFormater_layout_hi :
    ∃ l, ulogFormater (print (ascii "hi")) ⟨List.replicate 128 0, rfl⟩ 3 5 ⟨[], nulFree_nil⟩ true =
        some l ∧ l.len ≤ lineBufSize ∧
      l.text = headerText 3 5 ⟨[], nulFree_nil⟩ ++ shownMessage
        (headerText 3 5 ⟨[], nulFree_nil⟩) (ascii "hi") ++ newlineSign ++
          (if (levelColor 3).isSome then csiEnd else []) :=
  ulogFormater_layout ⟨List.replicate 128 0, rfl⟩ 3 5 ⟨[], nulFree_nil⟩ (ascii "hi")
    (by decide) (by decide)

end RtVcom.Ulog

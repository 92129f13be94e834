/-!
# Arrays and strings of C

An array of C has the size of its declaration, and an access outside of it is not an access to it.
So every access here is checked: `CArray.get?` and `CArray.set?` answer `none` outside, and so does
every function that is built from them. A result `some _` says that all its accesses were inside.

A pointer that is only read is the memory behind it, as a list that ends where the array ends; the
string functions run along such a list and answer `none` when they run off it.

`CArray.Holds` is the shape that a line buffer has: a text, and NUL from there to the end. The rules
of the module say that the library functions keep it, and that none of them leaves a buffer of this
shape.
-/

namespace RtVcom.Lib

/-- An array with its declared size. -/
@[ext]
structure CArray (α : Type) (n : Nat) where
  items : List α
  size : items.length = n
deriving DecidableEq

namespace CArray

variable {α : Type} {m n : Nat}

/-- `b[i]`, read. -/
def get? (b : CArray α n) (i : Nat) : Option α := b.items[i]?

/-- `b[i] = v`. -/
def set? (b : CArray α n) (i : Nat) (v : α) : Option (CArray α n) :=
  if i < n then some ⟨b.items.set i v, by rw [List.length_set, b.size]⟩ else none

/-- `memset` of the whole array. -/
def fill (n : Nat) (v : α) : CArray α n := ⟨List.replicate n v, List.length_replicate⟩

/-- `&b[i]`, for a reader: the memory from there to the end of the array. -/
def ptr (b : CArray α n) (i : Nat) : List α := b.items.drop i

/-- The loop of `memmove` that runs upwards. -/
def copyUp (b : CArray α n) (dest src : Nat) : Nat → Option (CArray α n)
  | 0 => some b
  | k + 1 => do
    let v ← b.get? src
    let b ← b.set? dest v
    copyUp b (dest + 1) (src + 1) k

/-- The loop of `memmove` that runs downwards. -/
def copyDown (b : CArray α n) (dest src : Nat) : Nat → Option (CArray α n)
  | 0 => some b
  | k + 1 => do
    let v ← b.get? (src + k)
    let b ← b.set? (dest + k) v
    copyDown b dest src k

/-- `memmove` inside one array. -/
def memmove (b : CArray α n) (dest src count : Nat) : Option (CArray α n) :=
  if src < dest ∧ dest < src + count then b.copyDown dest src count
  else b.copyUp dest src count

/-- `memcpy` of the first elements of one array to the first of another. -/
def memcpy (dest : CArray α m) (src : CArray α n) : Nat → Option (CArray α m)
  | 0 => some dest
  | k + 1 => do
    let dest ← memcpy dest src k
    let v ← src.get? k
    dest.set? k v

/-! ## What the accesses do -/

theorem get?_eq_some_iff {b : CArray α n} {i : Nat} {v : α} :
    b.get? i = some v ↔ b.items[i]? = some v := Iff.rfl

theorem exists_get? (b : CArray α n) {i : Nat} (hi : i < n) : ∃ v, b.get? i = some v :=
  ⟨_, List.getElem?_eq_getElem (b.size.symm ▸ hi)⟩

theorem set?_eq_some {b : CArray α n} {i : Nat} (hi : i < n) (v : α) :
    ∃ t, b.set? i v = some t ∧ t.items = b.items.set i v :=
  ⟨_, if_pos hi, rfl⟩

theorem get?_of_set? {b t : CArray α n} {i : Nat} {v : α} (h : b.set? i v = some t) (j : Nat) :
    t.get? j = if i = j then some v else b.get? j := by
  unfold set? at h
  split at h
  · next hi =>
    cases h
    simp only [get?, List.getElem?_set, b.size, if_pos hi]
  · cases h

theorem getElem?_ptr (b : CArray α n) (i j : Nat) : (b.ptr i)[j]? = b.get? (i + j) :=
  List.getElem?_drop

theorem length_ptr (b : CArray α n) (i : Nat) : (b.ptr i).length = n - i := by
  rw [ptr, List.length_drop, b.size]

/-- A write outside a range leaves the range. -/
theorem take_drop_set_of_outside (xs : List α) {i s k : Nat} (v : α) (h : i < s ∨ s + k ≤ i) :
    ((xs.set i v).drop s).take k = (xs.drop s).take k := by
  ext j
  simp only [List.getElem?_take, List.getElem?_drop, List.getElem?_set]
  split
  · rw [if_neg (by omega)]
  · rfl

/-- A region begins with its first element. -/
theorem take_succ_of_get? {b : CArray α n} {s : Nat} {v : α} (h : b.get? s = some v) (k : Nat) :
    (b.items.drop s).take (k + 1) = v :: (b.items.drop (s + 1)).take k := by
  obtain ⟨hs, hv⟩ := List.getElem?_eq_some_iff.mp h
  rw [List.drop_eq_getElem_cons hs, hv, List.take_succ_cons]

/-- A region ends with its last one. -/
theorem take_concat_of_get? {b : CArray α n} {s k : Nat} {v : α} (h : b.get? (s + k) = some v) :
    (b.items.drop s).take (k + 1) = (b.items.drop s).take k ++ [v] := by
  rw [List.take_add_one, List.getElem?_drop, get?_eq_some_iff.mp h]
  rfl

theorem exists_drop_eq_cons (xs : List α) {k : Nat} (h : k < xs.length) :
    ∃ x, xs.drop k = x :: xs.drop (k + 1) :=
  ⟨_, List.drop_eq_getElem_cons h⟩

/-- What a copy of `k` elements leaves: the elements that stood at `src`, in place of those at
`dest`. -/
def Copied (b t : CArray α n) (dest src k : Nat) : Prop :=
  t.items = b.items.take dest ++ (b.items.drop src).take k ++ b.items.drop (dest + k)

/-- The elements behind a copy, one by one. -/
theorem Copied.get? {b t : CArray α n} {dest src k : Nat} (h : b.Copied t dest src k)
    (hdest : dest + k ≤ n) (hsrc : src + k ≤ n) (i : Nat) :
    t.get? i = if dest ≤ i ∧ i < dest + k then b.get? (src + (i - dest)) else b.get? i := by
  have hb := b.size
  have hfront : (b.items.take dest).length = dest := List.length_take_of_le (by omega)
  have hmoved : ((b.items.drop src).take k).length = k :=
    List.length_take_of_le (by rw [List.length_drop]; omega)
  rw [CArray.get?, h, List.append_assoc]
  by_cases hbelow : i < dest
  · rw [List.getElem?_append_left (by omega), List.getElem?_take_of_lt hbelow, if_neg (by omega)]
    rfl
  rw [List.getElem?_append_right (by omega), hfront]
  by_cases hinside : i < dest + k
  · rw [List.getElem?_append_left (by omega), List.getElem?_take_of_lt (by omega),
      List.getElem?_drop, if_pos (by omega)]
    rfl
  · rw [List.getElem?_append_right (by omega), hmoved, List.getElem?_drop, if_neg (by omega),
      show dest + k + (i - dest - k) = i by omega]
    rfl

/-- Upwards, the copy is right when the destination lies below the source or behind it. -/
theorem copyUp_copied (k : Nat) : ∀ (b : CArray α n) (dest src : Nat), dest + k ≤ n → src + k ≤ n →
    dest ≤ src ∨ src + k ≤ dest → ∃ t, b.copyUp dest src k = some t ∧ b.Copied t dest src k := by
  induction k with
  | zero =>
    intro b dest src _ _ _
    exact ⟨b, rfl, by simp [Copied]⟩
  | succ k ih =>
    intro b dest src hdest hsrc hside
    obtain ⟨v, hv⟩ := b.exists_get? (show src < n by omega)
    obtain ⟨c, hc, hitems⟩ := set?_eq_some (b := b) (show dest < n by omega) v
    obtain ⟨t, ht, hcopied⟩ := ih c (dest + 1) (src + 1) (by omega) (by omega) (by omega)
    refine ⟨t, by simp only [copyUp, hv, hc, ht, Option.bind_eq_bind, Option.bind_some], ?_⟩
    have hlen : dest < b.items.length := by rw [b.size]; omega
    rw [Copied, hcopied, hitems, take_drop_set_of_outside _ _ (by omega),
      List.drop_set_of_lt (by omega), take_succ_of_get? hv, List.take_add_one, List.take_set,
      List.getElem?_set_self hlen, List.set_eq_of_length_le (List.length_take_le _ _)]
    simp [Nat.add_right_comm, Nat.add_assoc]

/-- Downwards, when it lies above the source. -/
theorem copyDown_copied (k : Nat) : ∀ (b : CArray α n) (dest src : Nat), dest + k ≤ n → src ≤ dest →
    ∃ t, b.copyDown dest src k = some t ∧ b.Copied t dest src k := by
  induction k with
  | zero =>
    intro b dest src _ _
    exact ⟨b, rfl, by simp [Copied]⟩
  | succ k ih =>
    intro b dest src hdest hle
    obtain ⟨v, hv⟩ := b.exists_get? (show src + k < n by omega)
    obtain ⟨c, hc, hitems⟩ := set?_eq_some (b := b) (show dest + k < n by omega) v
    obtain ⟨t, ht, hcopied⟩ := ih c dest src (by omega) hle
    refine ⟨t, by simp only [copyDown, hv, hc, ht, Option.bind_eq_bind, Option.bind_some], ?_⟩
    have hlen : dest + k < (b.items.set (dest + k) v).length := by
      rw [List.length_set, b.size]
      omega
    rw [Copied, hcopied, hitems, take_drop_set_of_outside _ _ (by omega), take_concat_of_get? hv,
      List.drop_eq_getElem_cons hlen, List.getElem_set_self, List.drop_set_of_lt (by omega),
      List.take_set,
      List.set_eq_of_length_le (Nat.le_trans (List.length_take_le _ _) (Nat.le_add_right _ _))]
    simp [Nat.add_assoc]

@[simp]
theorem memmove_zero (b : CArray α n) (dest src : Nat) : b.memmove dest src 0 = some b := by
  unfold memmove
  split <;> rfl

/-- `memmove` copies as if through a second buffer, however the two ranges lie. -/
theorem memmove_copied (b : CArray α n) (dest src : Nat) {k : Nat} (hdest : dest + k ≤ n)
    (hsrc : src + k ≤ n) : ∃ t, b.memmove dest src k = some t ∧ b.Copied t dest src k := by
  unfold memmove
  split
  · exact copyDown_copied k b dest src hdest (by omega)
  · exact copyUp_copied k b dest src hdest hsrc (by omega)

/-- A copy inside both arrays replaces the front. -/
theorem memcpy_eq_some (dest : CArray α m) (src : CArray α n) {k : Nat} (hm : k ≤ m) (hn : k ≤ n) :
    ∃ t, dest.memcpy src k = some t ∧ t.items = src.items.take k ++ dest.items.drop k := by
  induction k with
  | zero => exact ⟨dest, rfl, by simp⟩
  | succ k ih =>
    obtain ⟨c, hc, hitems⟩ := ih (by omega) (by omega)
    obtain ⟨v, hv⟩ := src.exists_get? (show k < n by omega)
    obtain ⟨t, ht, htems⟩ := set?_eq_some (b := c) (show k < m by omega) v
    refine ⟨t, by simp only [memcpy, hc, hv, ht, Option.bind_eq_bind, Option.bind_some], ?_⟩
    have hsrc : (src.items.take k).length = k := by
      rw [List.length_take, src.size]
      omega
    have hdest : k < dest.items.length := by rw [dest.size]; omega
    rw [htems, hitems, List.set_append_right _ _ (by omega), hsrc, Nat.sub_self,
      List.drop_eq_getElem_cons hdest, List.set_cons_zero, List.take_add_one,
      get?_eq_some_iff.mp hv]
    simp

end CArray

/-! ## Strings -/

/-- A text without NUL. -/
def NulFree (t : List (BitVec 8)) : Prop := ∀ c ∈ t, c ≠ 0

theorem nulFree_nil : NulFree [] := List.forall_mem_nil _

theorem nulFree_cons {c : BitVec 8} {t : List (BitVec 8)} :
    NulFree (c :: t) ↔ c ≠ 0 ∧ NulFree t := List.forall_mem_cons

theorem nulFree_append {s t : List (BitVec 8)} : NulFree (s ++ t) ↔ NulFree s ∧ NulFree t :=
  List.forall_mem_append

/-- A string constant. -/
structure CString where
  chars : List (BitVec 8)
  nulFree : NulFree chars

/-- The memory of a string constant, with the NUL that ends it. -/
def CString.mem (s : CString) : List (BitVec 8) := s.chars ++ [0]

/-- A string in an array that it fills. -/
def CString.array (s : CString) : CArray (BitVec 8) (s.chars.length + 1) :=
  ⟨s.mem, List.length_append⟩

/-- `strlen`. -/
def strlen : List (BitVec 8) → Option Nat
  | [] => none
  | c :: cs => if c = 0 then some 0 else (strlen cs).map (· + 1)

/-- `strncmp` with a result of 0. -/
def strncmp : List (BitVec 8) → List (BitVec 8) → Nat → Option Bool
  | _, _, 0 => some true
  | a :: as, b :: bs, n + 1 =>
    if a ≠ b then some false else if a = 0 then some true else strncmp as bs n
  | _, _, _ => none

/-- The NUL bytes that `strncpy` writes behind a short source. -/
def padNul {n : Nat} (b : CArray (BitVec 8) n) (dest : Nat) : Nat → Option (CArray (BitVec 8) n)
  | 0 => some b
  | k + 1 => do
    let b ← b.set? dest 0
    padNul b (dest + 1) k

/-- `strncpy` to the array from `dest` on. -/
def strncpy {n : Nat} (b : CArray (BitVec 8) n) (dest : Nat) :
    List (BitVec 8) → Nat → Option (CArray (BitVec 8) n)
  | _, 0 => some b
  | [], _ + 1 => none
  | c :: cs, k + 1 => do
    let b ← b.set? dest c
    if c = 0 then padNul b (dest + 1) k else strncpy b (dest + 1) cs k

/-- The length is counted up to the NUL. -/
theorem strlen_append_nul {t : List (BitVec 8)} (ht : NulFree t) (rest : List (BitVec 8)) :
    strlen (t ++ 0 :: rest) = some t.length := by
  induction t with
  | nil => rfl
  | cons c t ih =>
    obtain ⟨hc, ht⟩ := nulFree_cons.mp ht
    simp only [List.cons_append, strlen, if_neg hc, ih ht, Option.map_some, List.length_cons]

/-- A NUL somewhere in the memory is enough for `strlen` to stay inside. -/
theorem exists_strlen {mem : List (BitVec 8)} {i : Nat} (h : mem[i]? = some 0) :
    ∃ k, strlen mem = some k ∧ k ≤ i := by
  induction mem generalizing i with
  | nil => cases h
  | cons c mem ih =>
    by_cases hc : c = 0
    · exact ⟨0, by simp only [strlen, if_pos hc], Nat.zero_le i⟩
    · cases i with
      | zero => exact absurd (Option.some.inj h) hc
      | succ i =>
        obtain ⟨k, hk, hle⟩ := ih h
        exact ⟨k + 1, by simp only [strlen, if_neg hc, hk, Option.map_some], Nat.succ_le_succ hle⟩

/-- The order of the two strings does not matter. -/
theorem strncmp_comm : ∀ (s t : List (BitVec 8)) (n : Nat), strncmp s t n = strncmp t s n
  | [], [], 0 | [], [], _ + 1 | [], _ :: _, 0 | [], _ :: _, _ + 1 => rfl
  | _ :: _, [], 0 | _ :: _, [], _ + 1 | _ :: _, _ :: _, 0 => rfl
  | a :: s, b :: t, n + 1 => by
    by_cases h : a = b
    · subst h
      simp only [strncmp, ne_eq, not_true_eq_false, if_false, strncmp_comm s t n]
    · simp only [strncmp, ne_eq, h, Ne.symm h, not_false_eq_true, if_true]

/-- Compared over the length of a text, a string is equal when the text is a prefix of it, whatever
stands behind its NUL. -/
theorem strncmp_prefix_nul {p q : List (BitVec 8)} (hp : NulFree p) (hq : NulFree q)
    (x rest : List (BitVec 8)) :
    strncmp (p ++ x) (q ++ 0 :: rest) p.length = some (p.isPrefixOf q) := by
  induction p generalizing q with
  | nil => rw [List.isPrefixOf_nil_left, List.length_nil, strncmp]
  | cons a p ih =>
    obtain ⟨ha, hp⟩ := nulFree_cons.mp hp
    cases q with
    | nil =>
      simp only [List.cons_append, List.nil_append, List.length_cons, strncmp, ne_eq, ha,
        not_false_eq_true, if_true, List.isPrefixOf_cons_nil]
    | cons b q =>
      have hq := (nulFree_cons.mp hq).2
      rw [List.isPrefixOf_cons_cons, List.cons_append, List.cons_append, List.length_cons, strncmp]
      by_cases hab : a = b
      · rw [if_neg (not_not_intro hab), if_neg ha, ih hp hq, beq_iff_eq.mpr hab, Bool.true_and]
      · rw [if_pos hab, beq_eq_false_iff_ne.mpr hab, Bool.false_and]

/-- Compared over the whole of the first one, two strings are equal where it is a prefix of the
second. -/
theorem strncmp_prefix {p q : List (BitVec 8)} (hp : NulFree p) (hq : NulFree q)
    (x : List (BitVec 8)) : strncmp (p ++ x) (q ++ [0]) p.length = some (p.isPrefixOf q) :=
  strncmp_prefix_nul hp hq x []

/-- A copy that ends before the source does is a copy of memory. -/
theorem strncpy_eq_some {n : Nat} {q : List (BitVec 8)} (hq : NulFree q) (x : List (BitVec 8)) :
    ∀ {k : Nat} (b : CArray (BitVec 8) n) (dest : Nat), k ≤ q.length → dest + k ≤ n →
      ∃ t, strncpy b dest (q ++ x) k = some t ∧
        t.items = b.items.take dest ++ q.take k ++ b.items.drop (dest + k) := by
  induction q with
  | nil =>
    intro k b dest hk _
    obtain rfl : k = 0 := Nat.le_zero.mp hk
    exact ⟨b, by simp [strncpy], by simp⟩
  | cons c q ih =>
    intro k b dest hk hdest
    obtain ⟨hc, hq⟩ := nulFree_cons.mp hq
    cases k with
    | zero => exact ⟨b, by simp [strncpy], by simp⟩
    | succ k =>
      obtain ⟨b', hb', hitems⟩ := CArray.set?_eq_some (b := b) (show dest < n by omega) c
      obtain ⟨t, ht, htems⟩ := ih hq b' (dest + 1) (Nat.le_of_succ_le_succ hk) (by omega)
      refine ⟨t, by simp only [List.cons_append, strncpy, hb', if_neg hc, ht, Option.bind_eq_bind,
        Option.bind_some], ?_⟩
      have hlen : dest < b.items.length := by rw [b.size]; omega
      rw [htems, hitems, List.drop_set_of_lt (by omega), List.take_add_one, List.take_set,
        List.getElem?_set_self hlen, List.set_eq_of_length_le (List.length_take_le _ _)]
      simp [Nat.add_assoc, Nat.add_comm 1]

/-- The rest of the destination is filled with NULs. -/
theorem padNul_eq_some {n : Nat} (k : Nat) :
    ∀ (b : CArray (BitVec 8) n) (dest : Nat), dest + k ≤ n → ∃ t, padNul b dest k = some t ∧
      t.items = b.items.take dest ++ List.replicate k 0 ++ b.items.drop (dest + k) := by
  induction k with
  | zero =>
    intro b dest _
    refine ⟨b, rfl, ?_⟩
    rw [List.replicate_zero, List.append_nil, Nat.add_zero, List.take_append_drop]
  | succ k ih =>
    intro b dest hdest
    obtain ⟨b', hb', hitems⟩ := CArray.set?_eq_some (b := b) (show dest < n by omega) 0
    obtain ⟨t, ht, htems⟩ := ih b' (dest + 1) (by omega)
    refine ⟨t, by simp only [padNul, hb', ht, Option.bind_eq_bind, Option.bind_some], ?_⟩
    have hlen : dest < b.items.length := by rw [b.size]; omega
    rw [htems, hitems, List.drop_set_of_lt (by omega), List.take_add_one, List.take_set,
      List.getElem?_set_self hlen, List.set_eq_of_length_le (List.length_take_le _ _),
      List.replicate_succ, Option.toList_some]
    simp only [List.append_assoc, List.cons_append, List.nil_append, Nat.add_assoc,
      Nat.add_comm 1]

/-- A copy of a whole text, with NUL up to the end. -/
theorem strncpy_nul_eq_some {n : Nat} {q : List (BitVec 8)} (hq : NulFree q) :
    ∀ {k : Nat} (b : CArray (BitVec 8) n) (dest : Nat), dest + k ≤ n →
      ∃ t, strncpy b dest (q ++ [0]) k = some t ∧
        t.items = b.items.take dest ++ (q.take k ++ List.replicate (k - q.length) 0) ++
          b.items.drop (dest + k) := by
  induction q with
  | nil =>
    intro k b dest hdest
    cases k with
    | zero => exact ⟨b, rfl, by simp⟩
    | succ k => exact padNul_eq_some (k + 1) b dest hdest
  | cons c q ih =>
    intro k b dest hdest
    obtain ⟨hc, hq⟩ := nulFree_cons.mp hq
    cases k with
    | zero => exact ⟨b, by simp [strncpy], by simp⟩
    | succ k =>
      obtain ⟨b', hb', hitems⟩ := CArray.set?_eq_some (b := b) (show dest < n by omega) c
      obtain ⟨t, ht, htems⟩ := ih hq b' (dest + 1) (show dest + 1 + k ≤ n by omega)
      refine ⟨t, by simp only [List.cons_append, strncpy, hb', if_neg hc, ht, Option.bind_eq_bind,
        Option.bind_some], ?_⟩
      have hlen : dest < b.items.length := by rw [b.size]; omega
      rw [htems, hitems, List.drop_set_of_lt (by omega), List.take_add_one, List.take_set,
        List.getElem?_set_self hlen, List.set_eq_of_length_le (List.length_take_le _ _)]
      simp [Nat.add_assoc, Nat.add_comm 1]

/-- A name that was copied to an array of `k` bytes, compared with another one. -/
theorem strncmp_take {p q : List (BitVec 8)} (hp : NulFree p) (hq : NulFree q) (k : Nat)
    (rest : List (BitVec 8)) :
    strncmp (p.take k ++ List.replicate (k - p.length) 0) (q ++ 0 :: rest) k =
      some (decide (p.take k = q.take k)) := by
  induction k generalizing p q with
  | zero => simp [strncmp]
  | succ k ih =>
    cases p with
    | nil =>
      cases q with
      | nil => simp [strncmp, List.replicate_succ]
      | cons b q =>
        have hb := (nulFree_cons.mp hq).1
        rw [List.take_nil, List.length_nil, Nat.sub_zero, List.nil_append, List.replicate_succ,
          List.cons_append, strncmp, if_pos hb.symm, List.take_succ_cons, decide_eq_false nofun]
    | cons a p =>
      obtain ⟨ha, hp⟩ := nulFree_cons.mp hp
      cases q with
      | nil =>
        rw [List.take_succ_cons, List.cons_append, List.nil_append, strncmp, if_pos ha,
          List.take_nil, decide_eq_false nofun]
      | cons b q =>
        have hrest := ih hp (nulFree_cons.mp hq).2
        by_cases hab : a = b
        · subst hab
          simp only [List.take_succ_cons, List.cons_append, strncmp, ne_eq, not_true_eq_false,
            if_false, if_neg ha, List.length_cons, Nat.add_sub_add_right, hrest, List.cons.injEq,
            true_and]
        · simp [strncmp, hab]

/-! ## Line buffers -/

/-- The array holds a text: the text at its beginning, and NUL behind it to the end, at least
once. -/
structure CArray.Holds {n : Nat} (b : CArray (BitVec 8) n) (t : List (BitVec 8)) : Prop where
  fits : t.length < n
  nulFree : NulFree t
  items : b.items = t ++ List.replicate (n - t.length) 0

namespace CArray

variable {n : Nat} {b : CArray (BitVec 8) n} {t : List (BitVec 8)}

theorem holds_fill (h : 0 < n) : (fill n (0 : BitVec 8)).Holds [] :=
  ⟨h, nulFree_nil, rfl⟩

theorem Holds.get?_nul (h : b.Holds t) {i : Nat} (hle : t.length ≤ i) (hi : i < n) :
    b.get? i = some 0 := by
  rw [get?, h.items, List.getElem?_append_right hle, List.getElem?_replicate, if_pos (by omega)]

/-- The text that is held is what a string function finds. -/
theorem Holds.strlen_ptr (h : b.Holds t) {i : Nat} (hi : i ≤ t.length) :
    strlen (b.ptr i) = some (t.length - i) := by
  obtain ⟨z, hz⟩ : ∃ z, n - t.length = z + 1 := ⟨n - t.length - 1, by have := h.fits; omega⟩
  have hfree : NulFree (t.drop i) := fun c hc => h.nulFree c (List.mem_of_mem_drop hc)
  rw [ptr, h.items, hz, List.drop_append_of_le_length hi, List.replicate_succ,
    strlen_append_nul hfree, List.length_drop]

/-- An insertion: the tail moves up by one, and the character takes the place it leaves. -/
theorem Holds.insert {l r : List (BitVec 8)} {c : BitVec 8} (h : b.Holds (l ++ r)) (hc : c ≠ 0)
    (hroom : (l ++ r).length + 1 < n) :
    ∃ m u, b.memmove (l.length + 1) l.length r.length = some m ∧ m.set? l.length c = some u ∧
      u.Holds (l ++ c :: r) := by
  have hlen : (l ++ r).length = l.length + r.length := List.length_append
  obtain ⟨m, hm, hcopied⟩ := b.memmove_copied (l.length + 1) l.length
    (k := r.length) (by omega) (by omega)
  obtain ⟨u, hu, hitems⟩ := set?_eq_some (b := m) (show l.length < n by omega) c
  obtain ⟨z, hz⟩ : ∃ z, n - (l ++ r).length = z + 1 := ⟨n - (l ++ r).length - 1, by omega⟩
  have hb : b.items = l ++ (r ++ List.replicate (z + 1) 0) := by
    rw [h.items, hz, List.append_assoc]
  -- the element that the move leaves in place is overwritten
  obtain ⟨x, rest, hx⟩ : ∃ x rest, r ++ List.replicate (z + 1) 0 = x :: rest := by
    cases r with
    | nil => exact ⟨_, _, List.replicate_succ⟩
    | cons y r => exact ⟨_, _, rfl⟩
  have htake : b.items.take (l.length + 1) = l ++ [x] := by
    rw [hb, List.take_length_add_append, hx, List.take_succ_cons, List.take_zero]
  have hdrop : b.items.drop (l.length + 1 + r.length) = List.replicate z 0 := by
    rw [hb, show l.length + 1 + r.length = l.length + (r.length + 1) by omega,
      List.drop_length_add_append, List.drop_length_add_append]
    simp
  refine ⟨m, u, hm, hu, by simp only [List.length_append, List.length_cons]; omega, ?_, ?_⟩
  · have hfree := nulFree_append.mp h.nulFree
    exact nulFree_append.mpr ⟨hfree.1, nulFree_cons.mpr ⟨hc, hfree.2⟩⟩
  · rw [hitems, hcopied, htake, hdrop, hb, List.drop_left, List.take_left,
      show n - (l ++ c :: r).length = z by simp only [List.length_append, List.length_cons]; omega]
    simp

/-- A deletion: the tail moves down by one, and a NUL takes the place of its last character. -/
theorem Holds.delete {l r : List (BitVec 8)} {c : BitVec 8} (h : b.Holds (l ++ c :: r)) :
    ∃ m u, b.memmove l.length (l.length + 1) r.length = some m ∧
      m.set? (l.length + r.length) 0 = some u ∧ u.Holds (l ++ r) := by
  have hfits := h.fits
  have hlen : (l ++ c :: r).length = l.length + r.length + 1 := by
    simp only [List.length_append, List.length_cons, Nat.add_assoc]
  obtain ⟨m, hm, hcopied⟩ := b.memmove_copied l.length (l.length + 1)
    (k := r.length) (by omega) (by omega)
  obtain ⟨u, hu, hitems⟩ := set?_eq_some (b := m) (show l.length + r.length < n by omega) 0
  have hb : b.items = l ++ (c :: r ++ List.replicate (n - (l ++ c :: r).length) 0) := by
    rw [h.items, List.append_assoc]
  obtain ⟨x, hx⟩ := exists_drop_eq_cons
    (c :: r ++ List.replicate (n - (l ++ c :: r).length) 0) (k := r.length)
    (by simp only [List.length_append, List.length_cons]; omega)
  rw [List.cons_append, List.drop_succ_cons, List.drop_left, ← List.cons_append] at hx
  have hfree := nulFree_append.mp h.nulFree
  refine ⟨m, u, hm, hu, by rw [List.length_append]; omega,
    nulFree_append.mpr ⟨hfree.1, (nulFree_cons.mp hfree.2).2⟩, ?_⟩
  have hsrc : (b.items.drop (l.length + 1)).take r.length = r := by
    rw [hb, List.drop_length_add_append, List.cons_append, List.drop_succ_cons, List.drop_zero,
      List.take_left]
  rw [hitems, hcopied, hsrc, hb, List.take_left, List.drop_length_add_append, hx,
    show n - (l ++ r).length = n - (l ++ c :: r).length + 1 by rw [List.length_append]; omega,
    List.replicate_succ, show l.length + r.length = (l ++ r).length from List.length_append.symm,
    List.set_append_right _ _ (Nat.le_refl _), Nat.sub_self, List.set_cons_zero]

/-- The last character is deleted by a NUL alone. -/
theorem Holds.deleteLast {c : BitVec 8} (h : b.Holds (t ++ [c])) :
    ∃ u, b.set? t.length 0 = some u ∧ u.Holds t := by
  obtain ⟨m, u, hm, hu, hholds⟩ := Holds.delete (r := []) h
  obtain rfl : b = m := Option.some.inj ((b.memmove_zero _ _).symm.trans hm)
  rw [List.append_nil] at hholds
  exact ⟨u, hu, hholds⟩

/-- A character behind the text is an insertion that moves nothing. -/
theorem Holds.append {c : BitVec 8} (h : b.Holds t) (hc : c ≠ 0) (hroom : t.length + 1 < n) :
    ∃ u, b.set? t.length c = some u ∧ u.Holds (t ++ [c]) := by
  rw [← List.append_nil t] at h hroom
  obtain ⟨m, u, hm, hu, hholds⟩ := h.insert hc hroom
  obtain rfl : b = m := Option.some.inj ((b.memmove_zero _ _).symm.trans hm)
  exact ⟨u, hu, hholds⟩

/-- A longer text takes the place of the one that is held, without its NUL. -/
theorem Holds.strncpy {q : List (BitVec 8)} {k : Nat} (h : b.Holds t) (hq : NulFree q)
    (x : List (BitVec 8)) (hle : t.length ≤ k) (hk : k ≤ q.length) (hn : k < n) :
    ∃ u, strncpy b 0 (q ++ x) k = some u ∧ u.Holds (q.take k) := by
  obtain ⟨u, hu, hitems⟩ := strncpy_eq_some hq x b 0 hk (by omega)
  have hlen : (q.take k).length = k := List.length_take_of_le hk
  refine ⟨u, hu, by omega, fun c hc => hq c (List.mem_of_mem_take hc), ?_⟩
  rw [hitems, h.items, List.take_zero, List.nil_append, Nat.zero_add, hlen, List.drop_append,
    List.drop_eq_nil_of_le hle, List.nil_append, List.drop_replicate,
    show n - t.length - (k - t.length) = n - k by omega]

/-- The text is copied to an array that is cleared before. -/
theorem Holds.memcpy {m : Nat} (h : b.Holds t) (hm : t.length < m) :
    ∃ u, (fill m (0 : BitVec 8)).memcpy b t.length = some u ∧ u.Holds t := by
  have hfits := h.fits
  obtain ⟨u, hu, hitems⟩ := (fill m (0 : BitVec 8)).memcpy_eq_some b (k := t.length) (by omega)
    (by omega)
  refine ⟨u, hu, hm, h.nulFree, ?_⟩
  rw [hitems, h.items, List.take_left, fill, List.drop_replicate]

end CArray

end RtVcom.Lib

import RtVcom.Finsh.Msh
import RtVcom.Lib.CommonPrefix

/-!
# Tab completion

What `msh_auto_complete` makes of a prefix: the line becomes the longest text that all names which
begin with the prefix begin with, and these names are listed.

The loop compares every name with the first one that it found and keeps the shortest length, where a
length of 0 says that nothing was found yet. That is no ambiguity, because a name that was found
begins with the prefix, which is not empty. The text is copied without a NUL; the line ends behind
it because there was nothing but NUL behind the prefix.
-/

namespace RtVcom.Finsh

open RtVcom.Lib

variable {F : Type} {n : Nat}

/-- The names of the commands that begin with a prefix, in the order of the table. -/
def candidates (table : List (Syscall F)) (pre : List (BitVec 8)) : List (List (BitVec 8)) :=
  (table.filterMap Syscall.cmdName).filter pre.isPrefixOf

/-- `str_common` counts the common prefix. -/
theorem strCommon_eq {q : List (BitVec 8)} (hq : NulFree q) (r : List (BitVec 8)) :
    strCommon (q ++ [0]) (r ++ [0]) = some (commonPrefix q r).length := by
  induction q generalizing r with
  | nil => rfl
  | cons a q ih =>
    obtain ⟨ha, hq⟩ := nulFree_cons.mp hq
    cases r with
    | nil =>
      have hend : ¬((0 : BitVec 8) ≠ 0 ∧ a = 0) := fun h => h.1 rfl
      rw [List.cons_append, List.nil_append, strCommon, if_neg ha]
      exact if_neg hend
    | cons b r =>
      rw [List.cons_append, List.cons_append, strCommon, if_neg ha, commonPrefix]
      by_cases hab : a = b
      · rw [if_pos hab, if_pos ⟨hab ▸ ha, hab⟩, ih hq]
        rfl
      · rw [if_neg hab, if_neg fun h => hab h.2]
        rfl

/-- What the loop has made of the names found so far: the first of them is kept, and as much of it
counts as all of them have in common. -/
structure Completion.Of (pre : List (BitVec 8)) (names : List (List (BitVec 8)))
    (a : Completion) : Prop where
  listed : a.listed = names.map (· ++ [0])
  begins : ∀ q ∈ names, pre <+: q ∧ NulFree q
  nothing : names = [] → a.minLength = 0 ∧ a.namePtr = none
  found : names ≠ [] → ∃ q ∈ names, a.namePtr = some (q ++ [0]) ∧ a.minLength ≤ q.length ∧
    LongestPrefix names (q.take a.minLength)

/-- The common length of some names is at least that of the prefix. -/
theorem Completion.Of.length_le {pre : List (BitVec 8)} {names : List (List (BitVec 8))}
    {a : Completion} (h : a.Of pre names) (hnames : names ≠ []) : pre.length ≤ a.minLength := by
  obtain ⟨q, -, -, -, hlongest⟩ := h.found hnames
  have hle := hlongest.2 pre fun q hq => (h.begins q hq).1
  rw [List.length_take] at hle
  omega

/-- A name more. -/
theorem Completion.Of.add {pre q : List (BitVec 8)} {names : List (List (BitVec 8))}
    {a : Completion} (h : a.Of pre names) (hpre : pre ≠ []) (hq : NulFree q) (hbegins : pre <+: q) :
    ∃ a', a.add (q ++ [0]) = some a' ∧ a'.Of pre (names ++ [q]) := by
  have hbegins' : ∀ r ∈ names ++ [q], pre <+: r ∧ NulFree r := by
    intro r hr
    cases List.mem_append.mp hr with
    | inl hr => exact h.begins r hr
    | inr hr => exact List.mem_singleton.mp hr ▸ ⟨hbegins, hq⟩
  have hlisted : a.listed ++ [q ++ [0]] = (names ++ [q]).map (· ++ [0]) := by
    rw [h.listed, List.map_append]
    rfl
  by_cases hnames : names = []
  · obtain ⟨hzero, -⟩ := h.nothing hnames
    subst hnames
    have hsize : strlen (q ++ [0]) = some q.length := strlen_append_nul hq []
    simp only [Completion.add, if_pos hzero, hsize, strCommon_eq hq, commonPrefix_self,
      Option.bind_eq_bind, Option.bind_some, Nat.lt_irrefl, if_false]
    refine ⟨_, rfl, hlisted, hbegins', fun hnil => absurd hnil (List.cons_ne_nil _ _),
      fun _ => ?_⟩
    refine ⟨q, List.mem_cons_self, rfl, Nat.le_refl _, ?_⟩
    rw [List.take_length]
    exact longestPrefix_singleton q
  · obtain ⟨r, hr, hptr, hle, hlongest⟩ := h.found hnames
    have hlen := h.length_le hnames
    have hpos := List.length_pos_iff.mpr hpre
    have hset : a.minLength ≠ 0 := by omega
    simp only [Completion.add, if_neg hset, hptr, strCommon_eq (h.begins r hr).2,
      Option.bind_eq_bind, Option.bind_some]
    refine ⟨_, rfl, hlisted, hbegins', fun hnil => absurd (List.append_eq_nil_iff.mp hnil).1 hnames,
      fun _ => ⟨r, List.mem_append_left _ hr, rfl, ?_, ?_⟩⟩
    · dsimp only
      split
      · omega
      · exact hle
    · have hmin : (if (commonPrefix r q).length < a.minLength then (commonPrefix r q).length
          else a.minLength) = min a.minLength (commonPrefix r q).length := by
        split <;> omega
      rw [hmin]
      exact hlongest.concat hr q

/-- The loop over the table. -/
theorem completeFrom_of {pre x : List (BitVec 8)} (hfree : NulFree pre) (hpre : pre ≠ [])
    (table : List (Syscall F)) {names : List (List (BitVec 8))} {a : Completion}
    (h : a.Of pre names) :
    ∃ a', completeFrom (pre ++ 0 :: x) table a = some a' ∧
      a'.Of pre (names ++ candidates table pre) := by
  induction table generalizing names a with
  | nil => exact ⟨a, rfl, (List.append_nil names).symm ▸ h⟩
  | cons index table ih =>
    cases hname : index.cmdName with
    | none =>
      have hrest : candidates (index :: table) pre = candidates table pre := by
        rw [candidates, List.filterMap_cons_none hname]
        rfl
      simp only [completeFrom, strncmp_mark, hname, Option.isSome_none, Bool.false_eq_true,
        if_false, Option.bind_eq_bind, Option.bind_some, hrest]
      exact ih h
    | some q =>
      obtain ⟨hmem, hq⟩ := drop_mem_of_cmdName hname
      have hrest : candidates (index :: table) pre =
          if pre.isPrefixOf q then q :: candidates table pre else candidates table pre := by
        rw [candidates, List.filterMap_cons_some hname, List.filter_cons]
        rfl
      simp only [completeFrom, strncmp_mark, hname, Option.isSome_some, if_true, hmem,
        strlen_append_nul hfree, strncmp_prefix hfree hq, Option.bind_eq_bind, Option.bind_some,
        hrest]
      by_cases hbegins : pre.isPrefixOf q
      · obtain ⟨a₁, hadd, hof⟩ := h.add hpre hq (List.isPrefixOf_iff_prefix.mp hbegins)
        obtain ⟨a', hrun, hof'⟩ := ih hof
        rw [List.append_assoc, List.singleton_append] at hof'
        rw [if_pos hbegins, if_pos hbegins, hadd, Option.bind_some]
        exact ⟨a', hrun, hof'⟩
      · rw [if_neg hbegins, if_neg hbegins]
        exact ih h

/-- **Tab completion**, for every table and every prefix in a line that holds nothing else. The names
that begin with the prefix are listed. Without such a name the line is as it was, and otherwise it
holds the longest text that all of them begin with, if that is shorter than the line. -/
theorem mshAutoComplete_longest (table : List (Syscall F)) {line : CArray (BitVec 8) n}
    {pre : List (BitVec 8)} (h : line.Holds pre) (hpre : pre ≠ [])
    (hfits : ∀ u, LongestPrefix (candidates table pre) u → u.length < n) :
    ∃ line', mshAutoComplete table line =
        some (line', (candidates table pre).map (· ++ [0])) ∧
      if candidates table pre = [] then line' = line
      else ∃ u, LongestPrefix (candidates table pre) u ∧ line'.Holds u := by
  have hptr := ptr_of_holds h (Nat.zero_le _)
  rw [List.drop_zero] at hptr
  obtain ⟨c, s, rfl⟩ := List.exists_cons_of_ne_nil hpre
  have hc : line.get? 0 = some c := by
    rw [CArray.get?, h.items]
    rfl
  have hne : c ≠ 0 := (nulFree_cons.mp h.nulFree).1
  have hstart : (Completion.mk 0 none []).Of (c :: s) [] :=
    ⟨rfl, List.forall_mem_nil _, fun _ => ⟨rfl, rfl⟩, fun h => absurd rfl h⟩
  obtain ⟨a, hrun, hof⟩ := completeFrom_of (x := List.replicate (n - (c :: s).length - 1) 0)
    h.nulFree hpre table hstart
  rw [List.nil_append] at hof
  simp only [mshAutoComplete, hc, if_neg hne, hptr, hrun, Option.bind_eq_bind, Option.bind_some]
  by_cases hnone : candidates table (c :: s) = []
  · obtain ⟨-, hname⟩ := hof.nothing hnone
    refine ⟨line, ?_, if_pos hnone ▸ rfl⟩
    rw [hname, hof.listed]
  · obtain ⟨q, hq, hname, hle, hlongest⟩ := hof.found hnone
    have hroom := hfits _ hlongest
    rw [List.length_take, Nat.min_eq_left hle] at hroom
    obtain ⟨line', hcopy, hholds⟩ :=
      h.strncpy (hof.begins q hq).2 [0] (hof.length_le hnone) hle hroom
    refine ⟨line', ?_, ?_⟩
    · rw [hname, hof.listed]
      dsimp only
      rw [hcopy, Option.bind_some]
    · rw [if_neg hnone]
      exact ⟨_, hlongest, hholds⟩

/-- `__cmd_` in front of the characters of a name. -/
def exported (name : List (BitVec 8)) (hname : NulFree name) : CString :=
  ⟨cmdMark.chars ++ name, nulFree_append.mpr ⟨cmdMark.nulFree, hname⟩⟩

/-- The commands `pin`, `ps` and `ping`. -/
def pinTable : List (Syscall Nat) :=
  [⟨exported [0x70, 0x69, 0x6e] (by simp [NulFree]), 0⟩,
    ⟨exported [0x70, 0x73] (by simp [NulFree]), 1⟩,
    ⟨exported [0x70, 0x69, 0x6e, 0x67] (by simp [NulFree]), 2⟩]

/-- A line of 16 bytes that holds `pi`. -/
def piLine : CArray (BitVec 8) 16 := ⟨[0x70, 0x69] ++ List.replicate 14 0, rfl⟩

/-- `pi` becomes `pin`, and `pin` and `ping` are listed. -/
theorem mshAutoComplete_longest_pin :
    ∃ line', mshAutoComplete pinTable piLine =
        some (line', [[0x70, 0x69, 0x6e, 0], [0x70, 0x69, 0x6e, 0x67, 0]]) ∧
      line'.Holds [0x70, 0x69, 0x6e] := by
  have hholds : piLine.Holds [0x70, 0x69] := ⟨by decide, by simp [NulFree], rfl⟩
  have hnames : candidates pinTable [0x70, 0x69] =
      [[0x70, 0x69, 0x6e], [0x70, 0x69, 0x6e, 0x67]] := by decide
  have hfirst : [0x70, 0x69, 0x6e] ∈ candidates pinTable [0x70, 0x69] := by decide
  obtain ⟨line', hrun, hline⟩ :=
    mshAutoComplete_longest pinTable hholds (List.cons_ne_nil _ _) fun u hu =>
      Nat.lt_of_le_of_lt (hu.1 _ hfirst).length_le (by decide)
  rw [hnames, if_neg (List.cons_ne_nil _ _)] at hline
  obtain ⟨u, hu, hheld⟩ := hline
  have hall : ∀ q ∈ candidates pinTable [0x70, 0x69], [0x70, 0x69, 0x6e] <+: q := by
    decide
  have hpin : u = [0x70, 0x69, 0x6e] :=
    (hu.1 _ List.mem_cons_self).eq_of_length_le (hu.2 _ (hnames ▸ hall))
  rw [hnames] at hrun
  exact ⟨line', hrun, hpin ▸ hheld⟩

end RtVcom.Finsh

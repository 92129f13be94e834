import RtVcom.Kernel.Object

/-!
# Listing the objects of a container

`list_get_next` of `components/finsh/cmd.c`, with which the shell's commands (`list_thread`,
`list_sem` and the others) go through a container while objects come and go: under the interrupt
lock it takes so many objects behind the one it stopped at, and between two calls the command prints
them, each after a look at its type.

New objects are linked in front of all others, so a command that has begun does not meet them. What
it may lose is its place: if the object it stopped at is taken out, the type of that object says so
and the listing ends there. Where that object stays, the objects that were there at the first call
and stayed are printed in the order of the container, and nothing is printed twice
(`objectListing_prints`).
-/

namespace RtVcom.Finsh

open RtVcom.Lib RtVcom.Kernel

/-! ## The functions -/

/-- The loop of `list_get_next`: the nodes behind a node, at most so many, and the last one of them
unless the container ends before. -/
def listLoop (s : Objects) (information : ObjectInfo) :
    Nat → ObjectInfo ⊕ Nat → Option (List Nat × Option Nat)
  | 0, _ => none
  | left + 1, node =>
    match s.links.next node with
    | .inl head => if head = information then some ([], none) else none
    | .inr object =>
      if left = 0 then some ([object], some object)
      else (listLoop s information left (.inr object)).map fun more => (object :: more.1, more.2)

/-- `list_get_next`: what it writes to `array`, and its result. -/
def listGetNext (s : Objects) (information : ObjectInfo) (nr : Nat) (current : Option Nat) :
    Option (List Nat × Option Nat) :=
  if nr = 0 then some ([], none)
  else match current with
    | none => listLoop s information nr (.inl information)
    | some object =>
      -- the node in the list?
      if s.rtObjectGetType object ≠ information.type then some ([], none)
      else listLoop s information nr (.inr object)

/-- A command that lists a container: the objects of the system, where it stopped, and what it has
yet to print of the objects that it took. Beside the code, the objects that were in the container
at the first call of `list_get_next` and stayed. -/
structure ObjectLister where
  system : ObjectSystem
  started : Bool
  next : Option Nat
  batch : List Nat
  printed : List Nat
  stayed : List Nat

inductive ObjectListerAction
  | object (call : ObjectCall)
  | getNext
  | print

/-- A command that lists the objects of a container, `nr` at a time. -/
def objectListerMachine (memory : Nat → RtObject) (information : ObjectInfo) (nr : Nat) :
    Machine ObjectLister ObjectListerAction where
  init :=
    { system := (objectMachine memory).init
      started := false
      next := none
      batch := []
      printed := []
      stayed := [] }
  step s
    | .object call =>
      ((objectMachine memory).step s.system call).map fun system =>
        { s with
          system
          stayed := s.stayed.filter (· ∈ objectsOf system.registered information) }
    | .getNext =>
      if s.batch = [] ∧ (s.started = false ∨ s.next ≠ none) then
        (listGetNext s.system.objects information nr s.next).map fun found =>
          { s with
            started := true
            next := found.2
            batch := found.1
            stayed := if s.started then s.stayed else objectsOf s.system.registered information }
      else none
    | .print =>
      match s.batch with
      | [] => none
      | object :: batch =>
        if s.system.objects.rtObjectGetType object ≠ information.type then some { s with batch }
        else some { s with batch, printed := s.printed ++ [object] }

/-- The object that a call takes out. -/
def takesOut : ObjectCall → Option Nat
  | .detach object | .delete object | .deviceUnregister object => some object
  | .init _ _ _ | .allocate _ _ _ | .deviceRegister _ _ => none

/-- No object is registered a second time, and the object at which the listing stopped stays. -/
def KeepsPlace (s : ObjectLister) : ObjectListerAction → Prop
  | .object call =>
    RegistersAnew s.system call ∧ ∀ object ∈ s.next, takesOut call ≠ some object
  | .getNext | .print => True

instance : DecidableRel KeepsPlace := fun s action =>
  match action with
  | .object call => inferInstanceAs (Decidable (RegistersAnew s.system call ∧ _))
  | .getNext | .print => isTrue trivial

/-! ## One call of `list_get_next` -/

variable {s : Objects} {registered : List Registration} {information : ObjectInfo}
  {list : List Nat} {node : ObjectInfo ⊕ Nat}

/-- The objects behind a node are taken, at most so many. -/
theorem listLoop_eq (hseg : Segment s.links node (list.map .inr) (.inl information)) {nr : Nat}
    (hnr : 0 < nr) :
    listLoop s information nr node =
      some (list.take nr, if nr ≤ list.length then (list.take nr).getLast? else none) := by
  induction list generalizing node nr with
  | nil =>
    obtain ⟨left, rfl⟩ := Nat.exists_eq_succ_of_ne_zero (Nat.ne_of_gt hnr)
    rw [listLoop, hseg.1]
    dsimp only
    rw [if_pos rfl, List.take_nil, List.getLast?_nil, ite_self]
  | cons object list ih =>
    obtain ⟨left, rfl⟩ := Nat.exists_eq_succ_of_ne_zero (Nat.ne_of_gt hnr)
    rw [listLoop, hseg.1.1]
    dsimp only
    by_cases hleft : left = 0
    · subst hleft
      rfl
    · rw [if_neg hleft, ih hseg.2 (Nat.pos_of_ne_zero hleft), Option.map_some, List.take_succ_cons,
        List.length_cons]
      by_cases hle : left ≤ list.length
      · have hne : list.take left ≠ [] := by
          rw [← List.length_pos_iff, List.length_take]
          omega
        rw [if_pos hle, if_pos (Nat.succ_le_succ hle), List.getLast?_cons,
          List.getLast?_eq_some_getLast hne, Option.getD_some]
      · rw [if_neg hle, if_neg (mt Nat.le_of_succ_le_succ hle)]

/-- What a call takes: from the front of the container, or from behind an object in it. -/
theorem listGetNext_eq (h : Registers s registered) {nr : Nat} (hnr : 0 < nr)
    {current : Option Nat} {front rest : List Nat}
    (hplace : objectsOf registered information = front ++ current.toList ++ rest)
    (hfirst : current = none → front = []) :
    listGetNext s information nr current =
      some (rest.take nr, if nr ≤ rest.length then (rest.take nr).getLast? else none) := by
  have hring := h.rings.ring information
  unfold listGetNext
  rw [if_neg (Nat.ne_of_gt hnr)]
  cases current with
  | none =>
    rw [hfirst rfl, Option.toList_none, List.nil_append, List.nil_append] at hplace
    rw [hplace] at hring
    exact listLoop_eq hring hnr
  | some object =>
    rw [Option.toList_some, List.append_assoc, List.singleton_append] at hplace
    have hmem : object ∈ objectsOf registered information := by
      rw [hplace]
      exact List.mem_append_right front List.mem_cons_self
    have htype : s.rtObjectGetType object = information.type := h.rtObjectGetType_eq hmem
    dsimp only
    rw [if_neg (not_not_intro htype)]
    rw [hplace, List.map_append, List.map_cons] at hring
    exact listLoop_eq (Segment.append_iff.mp hring).2 hnr

/-! ## A listing -/

namespace ObjectLister

/-- The invariant: `rest` is what is left of the container behind the place of the listing. What was
printed, what was taken and what is left has nothing twice, and in it the objects that stayed stand
in their order. -/
structure Lists (s : ObjectLister) (information : ObjectInfo) : Prop where
  registers : Registers s.system.objects s.system.registered
  fresh : s.started = false → s.next = none ∧ s.batch = [] ∧ s.printed = [] ∧ s.stayed = []
  place : s.started = true → ∃ rest : List Nat,
    (s.next = none → rest = []) ∧
    (∀ object, s.next = some object → ∃ front,
      objectsOf s.system.registered information = front ++ object :: rest) ∧
    (s.printed ++ s.batch ++ rest).Nodup ∧
    (s.printed ++ s.batch ++ rest).filter (· ∈ s.stayed) = s.stayed ∧
    ∀ object ∈ s.stayed, object ∈ objectsOf s.system.registered information

variable {memory : Nat → RtObject} {s s' : ObjectLister} {nr : Nat}

/-- Where a call of `list_get_next` goes on. -/
theorem Lists.behind (h : s.Lists information) (hbatch : s.batch = [])
    (hmore : s.started = false ∨ s.next ≠ none) {stayed : List Nat}
    (hstayed : stayed =
      if s.started then s.stayed else objectsOf s.system.registered information) :
    ∃ front rest, objectsOf s.system.registered information = front ++ s.next.toList ++ rest ∧
      (s.next = none → front = []) ∧ (s.printed ++ rest).Nodup ∧
      (s.printed ++ rest).filter (· ∈ stayed) = stayed ∧
      ∀ object ∈ stayed, object ∈ objectsOf s.system.registered information := by
  cases hstarted : s.started with
  | false =>
    obtain ⟨hnext, -, hprinted, -⟩ := h.fresh hstarted
    rw [hstarted, if_neg Bool.false_ne_true] at hstayed
    subst hstayed
    refine ⟨[], objectsOf s.system.registered information, ?_, fun _ => rfl, ?_, ?_, fun _ => id⟩
    · rw [hnext, Option.toList_none, List.nil_append, List.nil_append]
    · rw [hprinted]
      exact h.registers.rings.nodup information
    · rw [hprinted, List.nil_append, List.filter_eq_self]
      exact fun object hmem => decide_eq_true hmem
  | true =>
    obtain ⟨rest, -, hplace, hnodup, horder, hin⟩ := h.place hstarted
    rw [hstarted, if_pos rfl] at hstayed
    subst hstayed
    have hnext : s.next ≠ none := hmore.resolve_left (by rw [hstarted]; exact Bool.noConfusion)
    obtain ⟨object, hobject⟩ := Option.ne_none_iff_exists'.mp hnext
    obtain ⟨front, hfront⟩ := hplace object hobject
    rw [hbatch, List.append_nil] at hnodup horder
    refine ⟨front, rest, ?_, fun hnone => absurd hnone hnext, hnodup, horder, hin⟩
    rw [hfront, hobject, Option.toList_some, List.append_assoc, List.singleton_append]

/-- A call of `list_get_next`. -/
theorem Lists.getNext (h : s.Lists information) (hnr : 0 < nr)
    (hstep : (objectListerMachine memory information nr).step s .getNext = some s') :
    s'.Lists information := by
  obtain ⟨⟨hbatch, hmore⟩, hstep⟩ := Option.ite_none_right_eq_some.mp hstep
  obtain ⟨found, hfound, rfl⟩ := Option.map_eq_some_iff.mp hstep
  obtain ⟨front, rest, hplace, hfirst, hnodup, horder, hin⟩ := h.behind hbatch hmore rfl
  obtain rfl := Option.some.inj ((listGetNext_eq h.registers hnr hplace hfirst).symm.trans hfound)
  have htaken : s.printed ++ rest.take nr ++ rest.drop nr = s.printed ++ rest := by
    rw [List.append_assoc, List.take_append_drop]
  refine ⟨h.registers, nofun, fun _ => ⟨rest.drop nr, ?_, ?_, ?_, ?_, hin⟩⟩
  · dsimp only
    split
    · next hle =>
      intro hnone
      have hempty : rest.take nr = [] := List.getLast?_eq_none_iff.mp hnone
      rw [List.take_eq_nil_iff] at hempty
      rcases hempty with hzero | rfl
      · exact absurd hzero (Nat.ne_of_gt hnr)
      · exact List.drop_nil
    · next hle => exact fun _ => List.drop_eq_nil_of_le (Nat.le_of_not_le hle)
  · intro object hobject
    obtain ⟨-, hlast⟩ := Option.ite_none_right_eq_some.mp hobject
    obtain ⟨taken, htake⟩ := List.getLast?_eq_some_iff.mp hlast
    have hrest : rest = taken ++ object :: rest.drop nr := by
      rw [← List.singleton_append, ← List.append_assoc, ← htake, List.take_append_drop]
    refine ⟨front ++ s.next.toList ++ taken, ?_⟩
    rw [List.append_assoc _ taken, ← hrest, hplace]
  · rw [htaken]
    exact hnodup
  · rw [htaken]
    exact horder

/-- An object of the batch is printed, or passed over if it is no longer of the type. -/
theorem Lists.print (h : s.Lists information)
    (hstep : (objectListerMachine memory information nr).step s .print = some s') :
    s'.Lists information := by
  simp only [objectListerMachine] at hstep
  cases hbatch : s.batch with
  | nil =>
    rw [hbatch] at hstep
    cases hstep
  | cons object batch =>
    rw [hbatch] at hstep
    have hstarted : s.started = true := by
      by_contra hnot
      obtain ⟨-, hnil, -⟩ := h.fresh (Bool.eq_false_iff.mpr hnot)
      exact nomatch hnil.symm.trans hbatch
    obtain ⟨rest, hend, hplace, hnodup, horder, hin⟩ := h.place hstarted
    rw [hbatch, List.append_assoc, List.cons_append] at hnodup horder
    dsimp only at hstep
    split at hstep
    · next hother =>
      cases hstep
      have hout : object ∉ s.stayed := fun hmem =>
        hother (h.registers.rtObjectGetType_eq (hin object hmem))
      refine ⟨h.registers, fun hfalse => ?_, fun _ => ⟨rest, hend, hplace, ?_, ?_, hin⟩⟩
      · exact absurd hstarted (Bool.eq_false_iff.mp hfalse)
      · rw [List.append_assoc]
        exact hnodup.sublist ((List.sublist_cons_self object _).append_left _)
      · rw [List.filter_append, List.filter_cons, if_neg (mt of_decide_eq_true hout),
          ← List.filter_append, ← List.append_assoc] at horder
        exact horder
    · cases hstep
      refine ⟨h.registers, fun hfalse => ?_, fun _ => ⟨rest, hend, hplace, ?_, ?_, hin⟩⟩
      · exact absurd hstarted (Bool.eq_false_iff.mp hfalse)
      · rw [List.append_assoc, List.append_assoc, List.singleton_append]
        exact hnodup
      · rw [List.append_assoc, List.append_assoc, List.singleton_append]
        exact horder

/-- What a call does to the list of what is registered. -/
theorem registered_step {call : ObjectCall} {system system' : ObjectSystem}
    (hstep : (objectMachine memory).step system call = some system') :
    (∃ r, system'.registered = r :: system.registered) ∨
      system'.registered = system.registered ∨
      ∃ object, takesOut call = some object ∧
        system'.registered = system.registered.filter (·.object ≠ object) := by
  cases call with
  | init object information name =>
    obtain ⟨objects, -, rfl⟩ := Option.map_eq_some_iff.mp hstep
    exact .inl ⟨_, rfl⟩
  | allocate made information name =>
    obtain ⟨⟨objects, object⟩, -, rfl⟩ := Option.map_eq_some_iff.mp hstep
    cases object with
    | none => exact .inr (.inl rfl)
    | some object => exact .inl ⟨_, rfl⟩
  | deviceRegister dev name =>
    obtain ⟨⟨objects, made⟩, -, rfl⟩ := Option.map_eq_some_iff.mp hstep
    cases made with
    | false => exact .inr (.inl rfl)
    | true => exact .inl ⟨_, rfl⟩
  | detach object =>
    cases hstep
    exact .inr (.inr ⟨object, rfl, rfl⟩)
  | delete object | deviceUnregister object =>
    obtain ⟨objects, -, rfl⟩ := Option.map_eq_some_iff.mp hstep
    exact .inr (.inr ⟨object, rfl, rfl⟩)

/-- A new object is in front of the place of the listing. -/
theorem Lists.grow (h : s.Lists information) {system : ObjectSystem}
    (hregisters : Registers system.objects system.registered) (more : List Nat)
    (hmore : objectsOf system.registered information =
      more ++ objectsOf s.system.registered information) :
    { s with
      system
      stayed := s.stayed.filter (· ∈ objectsOf system.registered information) :
        ObjectLister }.Lists information := by
  refine ⟨hregisters, fun hfalse => ?_, fun hstarted => ?_⟩
  · obtain ⟨hnext, hbatch, hprinted, hstayed⟩ := h.fresh hfalse
    refine ⟨hnext, hbatch, hprinted, ?_⟩
    dsimp only
    rw [hstayed, List.filter_nil]
  · obtain ⟨rest, hend, hplace, hnodup, horder, hin⟩ := h.place hstarted
    have hin' : ∀ object ∈ s.stayed, object ∈ objectsOf system.registered information :=
      fun object hmem => hmore ▸ List.mem_append_right more (hin object hmem)
    have hstayed : s.stayed.filter (· ∈ objectsOf system.registered information) = s.stayed :=
      List.filter_eq_self.mpr fun object hmem => decide_eq_true (hin' object hmem)
    dsimp only
    rw [hstayed]
    refine ⟨rest, hend, fun object hobject => ?_, hnodup, horder, hin'⟩
    obtain ⟨front, hfront⟩ := hplace object hobject
    exact ⟨more ++ front, by rw [hmore, hfront, List.append_assoc]⟩

/-- An object detached is left out of what is listed. -/
theorem filter_taken (taken rest stayed : List Nat) (object : Nat) :
    (taken ++ rest.filter (· ≠ object)).filter (· ∈ stayed.filter (· ≠ object)) =
      ((taken ++ rest).filter (· ∈ stayed)).filter (· ≠ object) := by
  rw [List.filter_append, List.filter_append, List.filter_append, List.filter_filter,
    List.filter_filter, List.filter_filter]
  congr 1
  · refine List.filter_congr fun other _ => ?_
    simp only [List.mem_filter, decide_eq_true_eq, Bool.decide_and, Bool.and_comm]
  · refine List.filter_congr fun other _ => ?_
    simp only [List.mem_filter, decide_eq_true_eq, Bool.decide_and, Bool.and_comm]
    rw [← Bool.and_assoc, Bool.and_self]

/-- An object other than the one at which the listing stopped is taken out. -/
theorem Lists.takeOut (h : s.Lists information) {system : ObjectSystem} {object : Nat}
    (hregisters : Registers system.objects system.registered)
    (hless : system.registered = s.system.registered.filter (·.object ≠ object))
    (hkept : s.next ≠ some object) :
    { s with
      system
      stayed := s.stayed.filter (· ∈ objectsOf system.registered information) :
        ObjectLister }.Lists information := by
  have hcontainer : objectsOf system.registered information =
      (objectsOf s.system.registered information).filter (· ≠ object) := by
    rw [hless, congrFun (Registers.objectsOf_filter h.registers object) information,
      (h.registers.rings.nodup information).erase_eq_filter]
    exact List.filter_congr fun _ _ => by rw [bne, beq_eq_decide, decide_not]
  refine ⟨hregisters, fun hfalse => ?_, fun hstarted => ?_⟩
  · obtain ⟨hnext, hbatch, hprinted, hstayed⟩ := h.fresh hfalse
    refine ⟨hnext, hbatch, hprinted, ?_⟩
    dsimp only
    rw [hstayed, List.filter_nil]
  · obtain ⟨rest, hend, hplace, hnodup, horder, hin⟩ := h.place hstarted
    have hstayed : s.stayed.filter (· ∈ objectsOf system.registered information) =
        s.stayed.filter (· ≠ object) := by
      refine List.filter_congr fun other hmem => decide_eq_decide.mpr ?_
      rw [hcontainer, List.mem_filter, decide_eq_true_eq]
      exact and_iff_right (hin other hmem)
    dsimp only
    rw [hstayed, hcontainer]
    refine ⟨rest.filter (· ≠ object), fun hnone => ?_, fun other hother => ?_, ?_, ?_, ?_⟩
    · rw [hend hnone, List.filter_nil]
    · obtain ⟨front, hfront⟩ := hplace other hother
      refine ⟨front.filter (· ≠ object), ?_⟩
      have hne : other ≠ object := fun heq => hkept (heq ▸ hother)
      rw [hfront, List.filter_append, List.filter_cons, if_pos (decide_eq_true hne)]
    · exact hnodup.sublist ((List.filter_sublist (l := rest)).append_left _)
    · rw [filter_taken, horder]
    · intro other hmem
      rw [List.mem_filter] at hmem ⊢
      exact ⟨hin other hmem.1, hmem.2⟩

/-- Objects come and go. -/
theorem Lists.object {call : ObjectCall} (h : s.Lists information)
    (hkeeps : KeepsPlace s (.object call))
    (hstep : (objectListerMachine memory information nr).step s (.object call) = some s') :
    s'.Lists information := by
  obtain ⟨hanew, hkept⟩ := hkeeps
  obtain ⟨system, hsystem, rfl⟩ := Option.map_eq_some_iff.mp hstep
  have hregisters := registers_step h.registers hanew hsystem
  rcases registered_step hsystem with ⟨r, hr⟩ | hsame | ⟨object, hout, hless⟩
  · by_cases heq : r.information = information
    · refine h.grow hregisters [r.object] ?_
      rw [hr, Registers.objectsOf_cons, heq, Function.update_self, List.singleton_append]
    · refine h.grow hregisters [] ?_
      rw [hr, Registers.objectsOf_cons, Function.update_of_ne (Ne.symm heq), List.nil_append]
  · refine h.grow hregisters [] ?_
    rw [hsame, List.nil_append]
  · exact h.takeOut hregisters hless fun hnext => hkept object hnext hout

/-- Nothing is listed at the beginning. -/
theorem lists_init : (objectListerMachine memory information nr).init.Lists information where
  registers := Registers.registers_init memory
  fresh _ := ⟨rfl, rfl, rfl, rfl⟩
  place := nofun

end ObjectLister

/-- Whatever objects come and go while a command lists a container, as long as none is registered a
second time and the object at which it stopped stays: nothing is printed twice, and when it ends,
those of the objects printed that were there at the beginning and stayed are all of these, in the
order of the container. -/
theorem objectListing_prints {memory : Nat → RtObject} {information : ObjectInfo} {nr : Nat}
    (hnr : 0 < nr) {s : ObjectLister}
    (h : (objectListerMachine memory information nr).Reach KeepsPlace s) :
    s.printed.Nodup ∧
      (s.started = true → s.next = none → s.batch = [] →
        s.printed.filter (· ∈ s.stayed) = s.stayed) := by
  have hlists : s.Lists information := by
    refine h.invariant (P := fun s => s.Lists information) ObjectLister.lists_init ?_
    intro s action s' hs hkeeps hstep
    cases action with
    | object call => exact hs.object hkeeps hstep
    | getNext => exact hs.getNext hnr hstep
    | print => exact hs.print hstep
  cases hstarted : s.started with
  | false =>
    obtain ⟨-, -, hprinted, -⟩ := hlists.fresh hstarted
    exact ⟨hprinted ▸ List.nodup_nil, fun hfalse => absurd hfalse Bool.false_ne_true⟩
  | true =>
    obtain ⟨rest, hend, -, hnodup, horder, -⟩ := hlists.place hstarted
    rw [List.append_assoc] at hnodup
    refine ⟨hnodup.of_append_left, fun _ hnext hbatch => ?_⟩
    rwa [hend hnext, hbatch, List.append_nil, List.append_nil] at horder

/-- Of four timers, two at a time, the third one is deleted and a new one comes. -/
theorem objectListing_prints_timers :
    ∃ s, (objectListerMachine (fun _ => ⟨0, .fill _ 0⟩) .timer 2).Reach KeepsPlace s ∧
      s.printed = [4, 3, 1] ∧ s.stayed = [4, 3, 1] ∧ s.printed.Nodup := by
  let create (object : Nat) : ObjectListerAction :=
    .object (.allocate (some object) .timer (nineChars true))
  obtain ⟨s, hreach, hprinted, hstayed⟩ := Machine.exists_reach_of_run
    (objectListerMachine (fun _ => ⟨0, .fill _ 0⟩) .timer 2) KeepsPlace
    [create 1, create 2, create 3, create 4, .getNext, .print, create 5, .print,
      .object (.delete 2), .getNext, .print]
    (fun s => s.printed = [4, 3, 1] ∧ s.stayed = [4, 3, 1]) (by decide +kernel)
  exact ⟨s, hreach, hprinted, hstayed, (objectListing_prints (by decide) hreach).1⟩

end RtVcom.Finsh

import RtVcom.Kernel.Reclaim
import RtVcom.Lib.CMemory
import RtVcom.Lib.Ring

/-!
# The object registry

`src/object.c` and the registration of `src/device.c`. Each class of kernel objects has a container,
which is the head of a doubly linked list. An object is linked behind the head when it is
initialised or allocated, with the first `RT_NAME_MAX` characters of its name, and is taken out when
it is detached or deleted. `rt_object_find` and `rt_device_find` walk along the list and compare the
names.

`Registers` ties the links and the fields of the objects to the list of what was registered and not
taken out, the latest first. Under it a search finds the latest object of its class whose name
agrees in the first `RT_NAME_MAX` characters (`objects_find`), and devices, which are refused if
their name is found, never share these characters (`devices_unique`). All that is asked of the
callers is not to register an object that is registered: it would take the list it is in with it.
-/

namespace RtVcom.Kernel

open RtVcom.Lib

/-! ## The containers -/

/-- `RT_NAME_MAX`. -/
def RtObject.rtNameMax : Nat := 8

/-- `RT_Object_Class_Unknown`. -/
def rtObjectClassUnknown : BitVec 8 := 12

/-- The containers of this configuration. -/
inductive ObjectInfo
  | thread
  | semaphore
  | mutex
  | event
  | mailBox
  | messageQueue
  | memHeap
  | memPool
  | device
  | timer
deriving Repr, DecidableEq

/-- The `type` of a container. -/
def ObjectInfo.type : ObjectInfo → BitVec 8
  | .thread => rtObjectClassThread
  | .semaphore => 2
  | .mutex => 3
  | .event => 4
  | .mailBox => 5
  | .messageQueue => 6
  | .memHeap => 7
  | .memPool => 8
  | .device => 9
  | .timer => 10

/-- `rt_object_container`. -/
def rtObjectContainer : List ObjectInfo :=
  [.thread, .semaphore, .mutex, .event, .mailBox, .messageQueue, .memHeap, .memPool, .device,
    .timer]

/-- `rt_object_get_information`. -/
def rtObjectGetInformation (type : BitVec 8) : Option ObjectInfo :=
  rtObjectContainer.find? fun information => information.type = type

theorem rtObjectGetInformation_type (information : ObjectInfo) :
    rtObjectGetInformation information.type = some information := by
  cases information <;> rfl

/-! ## The functions -/

/-- `struct rt_object`, without its list node and its flag. -/
structure RtObject where
  type : BitVec 8
  name : CArray (BitVec 8) RtObject.rtNameMax

/-- The objects of the memory, and the links of the list nodes: those of the containers and those
of the objects. -/
structure Objects where
  object : Nat → RtObject
  links : Links (ObjectInfo ⊕ Nat)

namespace Objects

variable (s : Objects)

/-- An object's fields are written, and it is linked into its container. -/
def register (information : ObjectInfo) (object : Nat) (fields : RtObject) : Objects where
  object := Function.update s.object object fields
  links := s.links.insertAfter (.inl information) (.inr object)

/-- `rt_object_init`. Without a result the assertion fails that there is a container. -/
def rtObjectInit (object : Nat) (type : BitVec 8) (name : List (BitVec 8)) : Option Objects := do
  let information ← rtObjectGetInformation type
  let copied ← strncpy (s.object object).name 0 name RtObject.rtNameMax
  return s.register information object { type := type ||| rtObjectClassStatic, name := copied }

/-- `rt_object_allocate`, with the memory that `RT_KERNEL_MALLOC` returns, if any. -/
def rtObjectAllocate (memory : Option Nat) (type : BitVec 8) (name : List (BitVec 8)) :
    Option (Objects × Option Nat) := do
  let information ← rtObjectGetInformation type
  match memory with
  | none => return (s, none)
  | some object =>
    let copied ← strncpy (CArray.fill RtObject.rtNameMax 0) 0 name RtObject.rtNameMax
    return (s.register information object { type, name := copied }, some object)

/-- `rt_object_detach`, and `rt_object_delete` before it frees the object. -/
def rtObjectDetach (object : Nat) : Objects where
  object := Function.update s.object object
    { s.object object with type := rtObjectClassNull }
  links := s.links.remove (.inr object)

/-- `rt_object_is_systemobject`. -/
def rtObjectIsSystemobject (object : Nat) : Bool :=
  decide ((s.object object).type &&& rtObjectClassStatic ≠ 0)

/-- `rt_object_get_type`. -/
def rtObjectGetType (object : Nat) : BitVec 8 := (s.object object).type &&& ~~~rtObjectClassStatic

/-- `rt_object_delete`. Without a result the assertion fails that the object is not static. -/
def rtObjectDelete (object : Nat) : Option Objects :=
  if s.rtObjectIsSystemobject object then none else some (s.rtObjectDetach object)

/-- The search along a container, from a node on, in so many passes. -/
def findFrom (information : ObjectInfo) (name : List (BitVec 8)) :
    Nat → ObjectInfo ⊕ Nat → Option (Option Nat)
  | 0, _ => none
  | passes + 1, node =>
    if node = .inl information then some none
    else match node with
      | .inl _ => none
      | .inr object => do
        if ← strncmp (s.object object).name.items name RtObject.rtNameMax then return some object
        findFrom information name passes (s.links.next node)

/-- `rt_object_find`. -/
def rtObjectFind (passes : Nat) (name : List (BitVec 8)) (type : BitVec 8) :
    Option (Option Nat) :=
  if rtObjectClassUnknown < type then some none
  else do
    let information ← rtObjectGetInformation type
    s.findFrom information name passes (s.links.next (.inl information))

/-- `rt_device_find`. -/
def rtDeviceFind (passes : Nat) (name : List (BitVec 8)) : Option (Option Nat) := do
  let information ← rtObjectGetInformation ObjectInfo.device.type
  s.findFrom information name passes (s.links.next (.inl information))

/-- `rt_device_register`, up to the object: whether it succeeds. -/
def rtDeviceRegister (passes : Nat) (dev : Nat) (name : List (BitVec 8)) :
    Option (Objects × Bool) := do
  if (← s.rtDeviceFind passes name).isSome then return (s, false)
  return (← s.rtObjectInit dev ObjectInfo.device.type name, true)

/-- `rt_device_unregister`. Without a result an assertion fails. -/
def rtDeviceUnregister (dev : Nat) : Option Objects :=
  if s.rtObjectGetType dev = ObjectInfo.device.type ∧ s.rtObjectIsSystemobject dev then
    some (s.rtObjectDetach dev)
  else none

end Objects

/-! ## What is registered -/

/-- An object that was registered, whether it was initialised or allocated, with its container and
its whole name. -/
structure Registration where
  object : Nat
  information : ObjectInfo
  static : Bool
  name : CString

/-- The field `type` of the object. -/
def Registration.type (r : Registration) : BitVec 8 :=
  if r.static then r.information.type ||| rtObjectClassStatic else r.information.type

/-- The characters that are kept of the name. -/
def Registration.shortName (r : Registration) : List (BitVec 8) :=
  r.name.chars.take RtObject.rtNameMax

/-- The objects of a container, the latest first. -/
def objectsOf (registered : List Registration) (information : ObjectInfo) : List Nat :=
  (registered.filter (·.information = information)).map (·.object)

/-- The links and the fields are those of what is registered. -/
structure Registers (s : Objects) (registered : List Registration) : Prop where
  rings : Rings s.links (objectsOf registered)
  nodup : (registered.map (·.object)).Nodup
  type_eq : ∀ r ∈ registered, (s.object r.object).type = r.type
  name_eq : ∀ r ∈ registered, (s.object r.object).name.items =
    r.shortName ++ List.replicate (RtObject.rtNameMax - r.name.chars.length) 0

namespace Registers

variable {s : Objects} {registered : List Registration} {r : Registration} {object : Nat}

/-- The objects of a class are those registered with it. -/
theorem mem_objectsOf {information : ObjectInfo} :
    object ∈ objectsOf registered information ↔
      ∃ r ∈ registered, r.information = information ∧ r.object = object := by
  simp only [objectsOf, List.mem_map, List.mem_filter, decide_eq_true_eq, and_assoc]

/-- An object that is not registered is in no class. -/
theorem not_mem_objectsOf (hfresh : object ∉ registered.map (·.object))
    (information : ObjectInfo) : object ∉ objectsOf registered information := by
  intro hmem
  obtain ⟨r, hr, -, heq⟩ := mem_objectsOf.mp hmem
  exact hfresh (List.mem_map.mpr ⟨r, hr, heq⟩)

theorem object_register_self (s : Objects) (information : ObjectInfo) (object : Nat)
    (fields : RtObject) : (s.register information object fields).object object = fields :=
  Function.update_self ..

/-- Registering an object leaves the others as they are. -/
theorem object_register_of_ne {other : Nat} (hne : other ≠ object) (information : ObjectInfo)
    (fields : RtObject) :
    (s.register information object fields).object other = s.object other :=
  Function.update_of_ne hne ..

theorem object_detach_of_ne {other : Nat} (hne : other ≠ object) :
    (s.rtObjectDetach object).object other = s.object other :=
  Function.update_of_ne hne ..

/-- The containers with one more object. -/
theorem objectsOf_cons (r : Registration) (registered : List Registration) :
    objectsOf (r :: registered) = Function.update (objectsOf registered) r.information
      (r.object :: objectsOf registered r.information) := by
  funext information
  by_cases heq : r.information = information
  · subst heq
    rw [Function.update_self, objectsOf, objectsOf, List.filter_cons, if_pos (decide_eq_true rfl),
      List.map_cons]
  · rw [Function.update_of_ne (Ne.symm heq), objectsOf, objectsOf, List.filter_cons,
      if_neg (mt of_decide_eq_true heq)]

/-- The containers without an object. -/
theorem objectsOf_filter (h : Registers s registered) (object : Nat) :
    objectsOf (registered.filter (·.object ≠ object)) =
      fun information => (objectsOf registered information).erase object := by
  funext information
  rw [(h.rings.nodup information).erase_eq_filter, objectsOf, objectsOf, List.filter_map,
    List.filter_filter, List.filter_filter]
  congr 2
  funext r
  rw [Bool.and_comm]
  simp only [Function.comp_apply, ne_eq, decide_not, bne, beq_eq_decide]

/-- An object that was not registered is linked in front of its container. -/
theorem register (h : Registers s registered) (hfresh : r.object ∉ registered.map (·.object))
    {fields : RtObject} (htype : fields.type = r.type)
    (hname : fields.name.items =
      r.shortName ++ List.replicate (RtObject.rtNameMax - r.name.chars.length) 0) :
    Registers (s.register r.information r.object fields) (r :: registered) := by
  have hne : ∀ other ∈ registered, other.object ≠ r.object := fun other hmem heq =>
    hfresh (List.mem_map.mpr ⟨other, hmem, heq⟩)
  refine ⟨?_, List.nodup_cons.mpr ⟨hfresh, h.nodup⟩, ?_, ?_⟩
  · rw [objectsOf_cons]
    exact h.rings.pushFront (not_mem_objectsOf hfresh) r.information
  · intro other hother
    rcases List.mem_cons.mp hother with rfl | hmem
    · rw [object_register_self, htype]
    · rw [object_register_of_ne (hne other hmem), h.type_eq other hmem]
  · intro other hother
    rcases List.mem_cons.mp hother with rfl | hmem
    · rw [object_register_self, hname]
    · rw [object_register_of_ne (hne other hmem), h.name_eq other hmem]

/-- An object is taken out. -/
theorem detach (h : Registers s registered) (object : Nat) :
    Registers (s.rtObjectDetach object) (registered.filter (·.object ≠ object)) where
  rings := by
    rw [objectsOf_filter h]
    exact h.rings.remove object
  nodup := h.nodup.sublist (List.filter_sublist.map _)
  type_eq r hr := by
    obtain ⟨hmem, hne⟩ := List.mem_filter.mp hr
    rw [object_detach_of_ne (of_decide_eq_true hne), h.type_eq r hmem]
  name_eq r hr := by
    obtain ⟨hmem, hne⟩ := List.mem_filter.mp hr
    rw [object_detach_of_ne (of_decide_eq_true hne), h.name_eq r hmem]

/-- A search along a container, from behind a node on. -/
theorem findFrom_eq {information : ObjectInfo} {name : List (BitVec 8)} {p : Registration → Bool}
    {list : List Registration} {node : ObjectInfo ⊕ Nat} {passes : Nat}
    (hcmp : ∀ r ∈ list,
      strncmp (s.object r.object).name.items name RtObject.rtNameMax = some (p r))
    (hseg : Segment s.links node ((list.map (·.object)).map .inr) (.inl information))
    (hpasses : list.length < passes) :
    s.findFrom information name passes (s.links.next node) =
      some ((list.find? p).map (·.object)) := by
  induction list generalizing node passes with
  | nil =>
    obtain ⟨passes, rfl⟩ := Nat.exists_eq_succ_of_ne_zero (Nat.ne_zero_of_lt hpasses)
    rw [hseg.1, Objects.findFrom, if_pos rfl, List.find?_nil, Option.map_none]
  | cons r list ih =>
    obtain ⟨passes, rfl⟩ := Nat.exists_eq_succ_of_ne_zero (Nat.ne_zero_of_lt hpasses)
    rw [hseg.1.1, Objects.findFrom, if_neg nofun, hcmp r List.mem_cons_self, Option.bind_eq_bind,
      Option.bind_some]
    cases hp : p r with
    | true =>
      rw [if_pos rfl, List.find?_cons_of_pos hp]
      rfl
    | false =>
      rw [if_neg Bool.false_ne_true, List.find?_cons_of_neg (Bool.not_eq_true _ ▸ hp)]
      exact ih (fun other hother => hcmp other (List.mem_cons_of_mem r hother)) hseg.2
        (Nat.lt_of_succ_lt_succ hpasses)

/-- An object of a container has its type. -/
theorem rtObjectGetType_eq (h : Registers s registered) {information : ObjectInfo}
    (hmem : object ∈ objectsOf registered information) :
    s.rtObjectGetType object = information.type := by
  obtain ⟨r, hr, rfl, rfl⟩ := mem_objectsOf.mp hmem
  rw [Objects.rtObjectGetType, h.type_eq r hr, Registration.type]
  cases r.static <;> cases r.information <;> rfl

/-- The latest registration in a container under a name, as far as it is kept. -/
def latest (registered : List Registration) (information : ObjectInfo) (name : CString) :
    Option Nat :=
  (registered.find? fun r => r.information = information ∧
    r.shortName = name.chars.take RtObject.rtNameMax).map (·.object)

/-- A search from the start of a container finds the latest object of that name. -/
theorem findFrom_container (h : Registers s registered) (information : ObjectInfo) (name : CString)
    {passes : Nat} (hpasses : registered.length < passes) :
    s.findFrom information name.mem passes (s.links.next (.inl information)) =
      some (latest registered information name) := by
  have hlength := List.length_filter_le (fun r => decide (r.information = information)) registered
  have hcmp : ∀ r ∈ registered.filter (·.information = information),
      strncmp (s.object r.object).name.items name.mem RtObject.rtNameMax =
        some (decide (r.shortName = name.chars.take RtObject.rtNameMax)) := by
    intro r hr
    rw [h.name_eq r (List.mem_filter.mp hr).1]
    exact strncmp_take r.name.nulFree name.nulFree RtObject.rtNameMax []
  rw [findFrom_eq hcmp (h.rings.ring information) (Nat.lt_of_le_of_lt hlength hpasses),
    List.find?_filter]
  simp only [latest, Bool.decide_and, Bool.decide_eq_true]

/-- `rt_object_find` in a container. -/
theorem rtObjectFind_eq (h : Registers s registered) (information : ObjectInfo) (name : CString)
    {passes : Nat} (hpasses : registered.length < passes) :
    s.rtObjectFind passes name.mem information.type =
      some (latest registered information name) := by
  have htype : ¬ rtObjectClassUnknown < information.type := by cases information <;> decide
  rw [Objects.rtObjectFind, if_neg htype, rtObjectGetInformation_type]
  exact h.findFrom_container information name hpasses

/-- `rt_device_find`. -/
theorem rtDeviceFind_eq (h : Registers s registered) (name : CString) {passes : Nat}
    (hpasses : registered.length < passes) :
    s.rtDeviceFind passes name.mem = some (latest registered .device name) := by
  rw [Objects.rtDeviceFind, rtObjectGetInformation_type]
  exact h.findFrom_container .device name hpasses

/-- `rt_object_init` of an object that is not registered. -/
theorem rtObjectInit_eq (h : Registers s registered) (hfresh : object ∉ registered.map (·.object))
    (information : ObjectInfo) (name : CString) :
    ∃ s', s.rtObjectInit object information.type name.mem = some s' ∧
      Registers s' (⟨object, information, true, name⟩ :: registered) := by
  obtain ⟨copied, hcopied, hitems⟩ := strncpy_nul_eq_some name.nulFree (s.object object).name 0
    (k := RtObject.rtNameMax) (Nat.le_of_eq (Nat.zero_add _))
  refine ⟨_, by rw [Objects.rtObjectInit, rtObjectGetInformation_type, Option.bind_eq_bind,
    Option.bind_some, CString.mem, hcopied]; rfl, ?_⟩
  refine h.register (r := ⟨object, information, true, name⟩) hfresh rfl ?_
  rw [hitems, List.take_zero, List.nil_append, Nat.zero_add, List.drop_eq_nil_of_le
    (Nat.le_of_eq (s.object object).name.size), List.append_nil]
  rfl

/-- `rt_object_allocate` in memory that is not registered. -/
theorem rtObjectAllocate_eq (h : Registers s registered)
    (hfresh : object ∉ registered.map (·.object)) (information : ObjectInfo) (name : CString) :
    ∃ s', s.rtObjectAllocate (some object) information.type name.mem = some (s', some object) ∧
      Registers s' (⟨object, information, false, name⟩ :: registered) := by
  obtain ⟨copied, hcopied, hitems⟩ := strncpy_nul_eq_some name.nulFree
    (CArray.fill RtObject.rtNameMax 0) 0 (k := RtObject.rtNameMax) (Nat.le_of_eq (Nat.zero_add _))
  refine ⟨_, by rw [Objects.rtObjectAllocate, rtObjectGetInformation_type, Option.bind_eq_bind,
    Option.bind_some, CString.mem, hcopied]; rfl, ?_⟩
  refine h.register (r := ⟨object, information, false, name⟩) hfresh rfl ?_
  rw [hitems, List.take_zero, List.nil_append, Nat.zero_add, List.drop_eq_nil_of_le
    (Nat.le_of_eq (CArray.fill RtObject.rtNameMax 0).size), List.append_nil]
  rfl

/-- `rt_device_register` of a device that is not registered: refused where its name is found, and
linked into the container otherwise. -/
theorem rtDeviceRegister_eq (h : Registers s registered)
    (hfresh : object ∉ registered.map (·.object)) (name : CString) :
    (latest registered .device name ≠ none ∧
      s.rtDeviceRegister (registered.length + 1) object name.mem = some (s, false)) ∨
    (latest registered .device name = none ∧ ∃ s',
      s.rtDeviceRegister (registered.length + 1) object name.mem = some (s', true) ∧
        Registers s' (⟨object, .device, true, name⟩ :: registered)) := by
  have hfind := h.rtDeviceFind_eq name (Nat.lt_succ_self registered.length)
  unfold Objects.rtDeviceRegister
  rw [hfind, Option.bind_eq_bind, Option.bind_some]
  cases latest registered .device name with
  | some found => exact .inl ⟨nofun, rfl⟩
  | none =>
    obtain ⟨s', hmade, hregisters⟩ := h.rtObjectInit_eq hfresh .device name
    refine .inr ⟨rfl, s', ?_, hregisters⟩
    rw [hmade]
    rfl

/-- Empty containers hold no objects. -/
theorem registers_init (object : Nat → RtObject) :
    Registers { object, links := ⟨id, id⟩ } [] where
  rings := ⟨fun _ => ⟨rfl, rfl⟩, fun _ => List.nodup_nil, nofun, fun _ _ => ⟨rfl, rfl⟩⟩
  nodup := List.nodup_nil
  type_eq := nofun
  name_eq := nofun

end Registers

/-! ## Every order of the calls -/

/-- The objects of the memory, and beside the code what is registered. -/
structure ObjectSystem where
  objects : Objects
  registered : List Registration

inductive ObjectCall
  | init (object : Nat) (information : ObjectInfo) (name : CString)
  | allocate (memory : Option Nat) (information : ObjectInfo) (name : CString)
  | detach (object : Nat)
  | delete (object : Nat)
  | deviceRegister (dev : Nat) (name : CString)
  | deviceUnregister (dev : Nat)

/-- Every object in its own list, and empty containers. A search gets a pass for each object that is
registered, and one more. -/
def objectMachine (object : Nat → RtObject) : Machine ObjectSystem ObjectCall where
  init := { objects := { object, links := ⟨id, id⟩ }, registered := [] }
  step s
    | .init object information name =>
      (s.objects.rtObjectInit object information.type name.mem).map fun objects =>
        { objects, registered := ⟨object, information, true, name⟩ :: s.registered }
    | .allocate memory information name =>
      (s.objects.rtObjectAllocate memory information.type name.mem).map fun made =>
        { objects := made.1
          registered := (made.2.map (⟨·, information, false, name⟩)).toList ++ s.registered }
    | .detach object =>
      some { objects := s.objects.rtObjectDetach object
             registered := s.registered.filter (·.object ≠ object) }
    | .delete object =>
      (s.objects.rtObjectDelete object).map fun objects =>
        { objects, registered := s.registered.filter (·.object ≠ object) }
    | .deviceRegister dev name =>
      (s.objects.rtDeviceRegister (s.registered.length + 1) dev name.mem).map fun made =>
        { objects := made.1
          registered :=
            if made.2 then ⟨dev, .device, true, name⟩ :: s.registered else s.registered }
    | .deviceUnregister dev =>
      (s.objects.rtDeviceUnregister dev).map fun objects =>
        { objects, registered := s.registered.filter (·.object ≠ dev) }

/-- No object is registered a second time. -/
def RegistersAnew (s : ObjectSystem) : ObjectCall → Prop
  | .init object _ _ | .allocate (some object) _ _ | .deviceRegister object _ =>
    object ∉ s.registered.map (·.object)
  | .allocate none _ _ | .detach _ | .delete _ | .deviceUnregister _ => True

instance : DecidableRel RegistersAnew := fun s call =>
  match call with
  | .init object _ _ | .allocate (some object) _ _ | .deviceRegister object _ =>
    inferInstanceAs (Decidable (object ∉ s.registered.map (·.object)))
  | .allocate none _ _ | .detach _ | .delete _ | .deviceUnregister _ => isTrue trivial

/-- Every call keeps that the containers hold the registered objects. -/
theorem registers_step {memory : Nat → RtObject} {s s' : ObjectSystem} {call : ObjectCall}
    (h : Registers s.objects s.registered) (hanew : RegistersAnew s call)
    (hstep : (objectMachine memory).step s call = some s') :
    Registers s'.objects s'.registered := by
  cases call with
  | init object information name =>
    obtain ⟨made, hmade, hregisters⟩ := h.rtObjectInit_eq hanew information name
    obtain ⟨objects, hobjects, rfl⟩ := Option.map_eq_some_iff.mp hstep
    obtain rfl := Option.some.inj (hmade.symm.trans hobjects)
    exact hregisters
  | allocate memory information name =>
    obtain ⟨objects, hobjects, rfl⟩ := Option.map_eq_some_iff.mp hstep
    cases memory with
    | none =>
      rw [Objects.rtObjectAllocate, rtObjectGetInformation_type] at hobjects
      cases hobjects
      exact h
    | some object =>
      obtain ⟨made, hmade, hregisters⟩ := h.rtObjectAllocate_eq hanew information name
      obtain rfl := Option.some.inj (hmade.symm.trans hobjects)
      exact hregisters
  | detach object =>
    cases hstep
    exact h.detach object
  | delete object =>
    obtain ⟨objects, hobjects, rfl⟩ := Option.map_eq_some_iff.mp hstep
    obtain ⟨-, hobjects⟩ := Option.ite_none_left_eq_some.mp hobjects
    cases hobjects
    exact h.detach object
  | deviceRegister dev name =>
    obtain ⟨objects, hobjects, rfl⟩ := Option.map_eq_some_iff.mp hstep
    rcases h.rtDeviceRegister_eq hanew name with ⟨-, hrefused⟩ | ⟨-, made, hmade, hregisters⟩
    · obtain rfl := Option.some.inj (hrefused.symm.trans hobjects)
      exact h
    · obtain rfl := Option.some.inj (hmade.symm.trans hobjects)
      exact hregisters
  | deviceUnregister dev =>
    obtain ⟨objects, hobjects, rfl⟩ := Option.map_eq_some_iff.mp hstep
    obtain ⟨-, hobjects⟩ := Option.ite_none_right_eq_some.mp hobjects
    cases hobjects
    exact h.detach dev

theorem registers_of_reach {memory : Nat → RtObject} {s : ObjectSystem}
    (h : (objectMachine memory).Reach RegistersAnew s) : Registers s.objects s.registered :=
  h.invariant (P := fun s => Registers s.objects s.registered) (Registers.registers_init memory)
    fun _ _ _ hs hanew hstep => registers_step hs hanew hstep

/-- In every order of the calls that registers no object twice, each container lists the objects
that were registered in it and not taken out since, and a search finds the latest one of them with
the same first `RT_NAME_MAX` characters in its name. -/
theorem objects_find {memory : Nat → RtObject} {s : ObjectSystem}
    (h : (objectMachine memory).Reach RegistersAnew s) (information : ObjectInfo) :
    (∀ object, Listed s.objects.links information object ↔
      ∃ r ∈ s.registered, r.information = information ∧ r.object = object) ∧
    ∀ (name : CString) (passes : Nat), s.registered.length < passes →
      s.objects.rtObjectFind passes name.mem information.type =
        some ((s.registered.find? fun r => r.information = information ∧
          r.name.chars.take 8 = name.chars.take 8).map (·.object)) := by
  have hregisters := registers_of_reach h
  refine ⟨fun object => ?_, fun name passes => hregisters.rtObjectFind_eq information name⟩
  rw [hregisters.rings.listed_iff, Registers.mem_objectsOf]

/-- Two names of nine characters that agree in the first eight. -/
def nineChars (last : Bool) : CString where
  chars := List.replicate 8 0x61 ++ [if last then 0x31 else 0x32]
  nulFree := by cases last <;> exact show ∀ c ∈ _, c ≠ 0 by decide

/-- Under the first one's name the second one is found. -/
theorem objects_find_nine :
    ∃ s, (objectMachine fun _ => ⟨0, .fill _ 0⟩).Reach RegistersAnew s ∧
      s.registered.map (·.object) = [7, 5] ∧
      s.objects.rtObjectFind 3 (nineChars false).mem ObjectInfo.semaphore.type =
        some ((s.registered.find? fun r => r.information = .semaphore ∧
          r.name.chars.take 8 = (nineChars false).chars.take 8).map (·.object)) := by
  obtain ⟨s, hreach, hregistered⟩ :=
    Machine.exists_reach_of_run (objectMachine fun _ => ⟨0, .fill _ 0⟩) RegistersAnew
      [.init 5 .semaphore (nineChars false), .allocate (some 6) .thread (nineChars true),
        .allocate (some 7) .semaphore (nineChars true), .delete 6]
      (fun s => s.registered.map (·.object) = [7, 5]) (by decide +kernel)
  have hlength : s.registered.length = 2 := by
    rw [← List.length_map (α := Registration) (·.object), hregistered]
    rfl
  exact ⟨s, hreach, hregistered, (objects_find hreach .semaphore).2 (nineChars false) 3 (by omega)⟩

/-! ## Devices -/

/-- Devices are registered by `rt_device_register` only, and no object a second time. -/
def RegistersDevices (s : ObjectSystem) (call : ObjectCall) : Prop :=
  RegistersAnew s call ∧ match call with
    | .init _ information _ | .allocate _ information _ => information ≠ .device
    | _ => True

instance : DecidableRel RegistersDevices := fun s call =>
  match call with
  | .init object information name =>
    inferInstanceAs (Decidable (RegistersAnew s (.init object information name) ∧ _ ≠ _))
  | .allocate memory information name =>
    inferInstanceAs (Decidable (RegistersAnew s (.allocate memory information name) ∧ _ ≠ _))
  | .detach object => inferInstanceAs (Decidable (RegistersAnew s (.detach object) ∧ True))
  | .delete object => inferInstanceAs (Decidable (RegistersAnew s (.delete object) ∧ True))
  | .deviceRegister dev name =>
    inferInstanceAs (Decidable (RegistersAnew s (.deviceRegister dev name) ∧ True))
  | .deviceUnregister dev =>
    inferInstanceAs (Decidable (RegistersAnew s (.deviceUnregister dev) ∧ True))

/-- The names of the devices, as far as they are kept. -/
def deviceNames (registered : List Registration) : List (List (BitVec 8)) :=
  (registered.filter (·.information = .device)).map (·.shortName)

/-- An object of another class is no device. -/
theorem deviceNames_cons_of_ne {r : Registration} (hne : r.information ≠ .device)
    (registered : List Registration) : deviceNames (r :: registered) = deviceNames registered := by
  rw [deviceNames, List.filter_cons, if_neg (mt of_decide_eq_true hne)]
  rfl

/-- Devices that leave keep the names of the rest apart. -/
theorem nodup_deviceNames_filter {registered : List Registration}
    (h : (deviceNames registered).Nodup) (p : Registration → Bool) :
    (deviceNames (registered.filter p)).Nodup := by
  refine h.sublist (List.Sublist.map _ ?_)
  rw [List.filter_comm]
  exact List.filter_sublist

/-- Every call keeps the names apart: `rt_device_register` refuses one that exists. -/
theorem nodup_deviceNames_step {memory : Nat → RtObject} {s s' : ObjectSystem} {call : ObjectCall}
    (hregisters : Registers s.objects s.registered) (h : (deviceNames s.registered).Nodup)
    (hok : RegistersDevices s call) (hstep : (objectMachine memory).step s call = some s') :
    (deviceNames s'.registered).Nodup := by
  obtain ⟨hanew, hdevice⟩ := hok
  cases call with
  | init object information name =>
    obtain ⟨objects, -, rfl⟩ := Option.map_eq_some_iff.mp hstep
    rwa [deviceNames_cons_of_ne hdevice]
  | allocate made information name =>
    obtain ⟨⟨objects, object⟩, -, rfl⟩ := Option.map_eq_some_iff.mp hstep
    cases object with
    | none => exact h
    | some object => exact (deviceNames_cons_of_ne (r := ⟨object, _, _, _⟩) hdevice _).symm ▸ h
  | detach object =>
    cases hstep
    exact nodup_deviceNames_filter h _
  | delete object =>
    obtain ⟨objects, -, rfl⟩ := Option.map_eq_some_iff.mp hstep
    exact nodup_deviceNames_filter h _
  | deviceRegister dev name =>
    obtain ⟨objects, hobjects, rfl⟩ := Option.map_eq_some_iff.mp hstep
    rcases hregisters.rtDeviceRegister_eq hanew name with ⟨-, hrefused⟩ | ⟨hnone, made, hmade, -⟩
    · obtain rfl := Option.some.inj (hrefused.symm.trans hobjects)
      exact h
    · obtain rfl := Option.some.inj (hmade.symm.trans hobjects)
      refine List.nodup_cons.mpr ⟨?_, h⟩
      intro hmem
      obtain ⟨r, hr, hname⟩ := List.mem_map.mp hmem
      obtain ⟨hr, hinformation⟩ := List.mem_filter.mp hr
      rw [Registers.latest, Option.map_eq_none_iff, List.find?_eq_none] at hnone
      exact hnone r hr (decide_eq_true ⟨of_decide_eq_true hinformation, hname⟩)
  | deviceUnregister dev =>
    obtain ⟨objects, -, rfl⟩ := Option.map_eq_some_iff.mp hstep
    exact nodup_deviceNames_filter h _

/-- Where devices are registered by `rt_device_register` only, and no object is registered twice at
once, `rt_device_find` finds each registered device under its name and under those with the same
first `RT_NAME_MAX` characters, and under no other name: no two registered devices share these
characters. -/
theorem devices_unique {memory : Nat → RtObject} {s : ObjectSystem}
    (h : (objectMachine memory).Reach RegistersDevices s) {r : Registration}
    (hr : r ∈ s.registered) (hdevice : r.information = .device) (name : CString) {passes : Nat}
    (hpasses : s.registered.length < passes) :
    s.objects.rtDeviceFind passes name.mem = some (some r.object) ↔
      r.name.chars.take 8 = name.chars.take 8 := by
  have hregisters := registers_of_reach (h.mono fun _ _ hok => hok.1)
  have hinit : (deviceNames (objectMachine memory).init.registered).Nodup := List.nodup_nil
  have hnodup : (deviceNames s.registered).Nodup :=
    h.invariant_of_reach (P := fun s => (deviceNames s.registered).Nodup) hinit
      fun _ _ _ hreach hs hok hstep => nodup_deviceNames_step
        (registers_of_reach (hreach.mono fun _ _ hok => hok.1)) hs hok hstep
  rw [hregisters.rtDeviceFind_eq name hpasses, Option.some.injEq, Registers.latest,
    Option.map_eq_some_iff]
  constructor
  · rintro ⟨found, hfound, hobject⟩
    have hmem := List.mem_of_find?_eq_some hfound
    obtain rfl := List.inj_on_of_nodup_map hregisters.nodup hmem hr hobject
    have hmatches := List.find?_some hfound
    exact (of_decide_eq_true hmatches).2
  · intro hname
    have hsome : (s.registered.find? fun r => r.information = .device ∧
        r.shortName = name.chars.take RtObject.rtNameMax).isSome :=
      List.find?_isSome.mpr ⟨r, hr, decide_eq_true ⟨hdevice, hname⟩⟩
    obtain ⟨found, hfound⟩ := Option.isSome_iff_exists.mp hsome
    have hmatches := List.find?_some hfound
    obtain ⟨hinformation, hshort⟩ := of_decide_eq_true hmatches
    have hin {d : Registration} (hd : d ∈ s.registered) (hd' : d.information = .device) :
        d ∈ s.registered.filter (·.information = .device) :=
      List.mem_filter.mpr ⟨hd, decide_eq_true hd'⟩
    obtain rfl := List.inj_on_of_nodup_map hnodup
      (hin (List.mem_of_find?_eq_some hfound) hinformation) (hin hr hdevice)
      (hshort.trans hname.symm)
    exact ⟨found, hfound, rfl⟩

/-- A second device with the first one's characters is refused. -/
theorem devices_unique_nine :
    ∃ s, (objectMachine fun _ => ⟨0, .fill _ 0⟩).Reach RegistersDevices s ∧
      s.registered.map (·.object) = [5] ∧
      s.objects.rtDeviceFind 2 (nineChars true).mem = some (some 5) := by
  obtain ⟨s, hreach, hregistered, r, hr, hobject, hdevice, hname⟩ :=
    Machine.exists_reach_of_run (objectMachine fun _ => ⟨0, .fill _ 0⟩) RegistersDevices
      [.deviceRegister 5 (nineChars false), .deviceRegister 6 (nineChars true)]
      (fun s => s.registered.map (·.object) = [5] ∧ ∃ r ∈ s.registered, r.object = 5 ∧
        r.information = .device ∧ r.name.chars = (nineChars false).chars) (by decide +kernel)
  have hlength : s.registered.length = 1 := by
    rw [← List.length_map (α := Registration) (·.object), hregistered]
    rfl
  refine ⟨s, hreach, hregistered, ?_⟩
  rw [← hobject]
  refine (devices_unique hreach hr hdevice (nineChars true) (by omega)).mpr ?_
  rw [hname]
  decide

end RtVcom.Kernel

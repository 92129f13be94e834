import Mathlib.Data.List.Forall2
import Mathlib.Data.List.Nodup
import RtVcom.Lib.Circular
import RtVcom.Usb.ControlIn
import RtVcom.Usb.EpPool

/-!
# The configuration descriptor

`rt_usbd_device_add_config` walks the functions of a configuration, their interfaces and the
endpoints of each current setting. It gives every endpoint an entry of the pool, which changes the
address in the endpoint's descriptor, and then copies the setting's descriptors behind those that
are there. The array that they are copied to has 256 bytes, the number of interfaces is a byte, a
setting that was never set is a null pointer, and an endpoint that no entry is left for keeps the
address it had. None of this is checked.

**The law** (`config_assembled_iff`): the configuration is assembled as it should be, its endpoints
are found under the addresses that the host reads and the host reads what was assembled, exactly if
the functions meet `Assemblable`, a condition on them and the pool alone.
-/

namespace RtVcom.Usb

open RtVcom.Lib RtVcom.Kernel

/-! ## The data -/

/-- `struct uconfig_descriptor`. -/
structure UconfigDescriptor where
  bLength : UInt8
  type : UInt8
  wTotalLength : BitVec 16
  bNumInterfaces : UInt8
  bConfigurationValue : UInt8
  iConfiguration : UInt8
  bmAttributes : UInt8
  maxPower : UInt8
  data : List UInt8
deriving Repr, DecidableEq

/-- What stands before `data`, packed and with the low byte of a word first. -/
def UconfigDescriptor.header (d : UconfigDescriptor) : List UInt8 :=
  [d.bLength, d.type, ⟨d.wTotalLength.setWidth 8⟩, ⟨(d.wTotalLength >>> 8).setWidth 8⟩,
    d.bNumInterfaces, d.bConfigurationValue, d.iConfiguration, d.bmAttributes, d.maxPower]

/-- The bytes of the structure. -/
def UconfigDescriptor.bytes (d : UconfigDescriptor) : List UInt8 := d.header ++ d.data

/-- The configuration blob: so many of them as `wTotalLength` says. -/
def UconfigDescriptor.blob (d : UconfigDescriptor) : List UInt8 :=
  d.bytes.take d.wTotalLength.toNat

/-- `struct uendpoint`: where its descriptor stands among those of its setting, and the entry of the
pool that `id` points to. -/
structure SettingEp where
  epDesc : Nat
  id : Option Nat
deriving Repr, DecidableEq

/-- `struct ualtsetting`. The descriptors of its endpoints are in `desc`, apart from each other. -/
structure AltSetting where
  desc : List UInt8
  epList : List SettingEp
  fits : ∀ ep ∈ epList, ep.epDesc + 7 ≤ desc.length
  apart : epList.Pairwise fun ep other =>
    ep.epDesc + 7 ≤ other.epDesc ∨ other.epDesc + 7 ≤ ep.epDesc

/-- `struct uinterface`. -/
structure ConfigInterface where
  currSetting : Option AltSetting

/-- `struct ufunction`. -/
structure ConfigFunction where
  intfList : List ConfigInterface

/-- `struct uconfig`. -/
structure Uconfig where
  cfgDesc : UconfigDescriptor
  funcList : List ConfigFunction

/-- `struct udevice`, as far as configurations are added to it. -/
structure ConfigDevice where
  bNumConfigurations : UInt8
  epPool : List EpId
  cfgList : List Uconfig

/-- A setting that is not there, or a copy that leaves `data`. -/
inductive ConfigFault
  | altsetting
  | overflow
deriving Repr, DecidableEq

/-- The interfaces of some functions, in the order of the walk. -/
def interfacesOf (funcs : List ConfigFunction) : List ConfigInterface :=
  funcs.flatMap ConfigFunction.intfList

/-! ## Assembling -/

/-- `rt_usbd_config_new`. -/
def rtUsbdConfigNew : Uconfig where
  cfgDesc := {
    bLength := 9
    type := 2
    wTotalLength := 9
    bNumInterfaces := 0
    bConfigurationValue := 0
    iConfiguration := 0
    bmAttributes := 0xC0
    maxPower := 0x32
    data := List.replicate 256 0 }
  funcList := []

/-- `rt_usbd_config_add_function`. -/
def rtUsbdConfigAddFunction (cfg : Uconfig) (func : ConfigFunction) : Uconfig :=
  { cfg with funcList := cfg.funcList ++ [func] }

/-- A new configuration with some functions. -/
def configOf (funcs : List ConfigFunction) : Uconfig :=
  funcs.foldl rtUsbdConfigAddFunction rtUsbdConfigNew

/-- An endpoint as the pool sees it, with what its descriptor says. -/
def SettingEp.poolEp (desc : List UInt8) (ep : SettingEp) : PoolEp where
  bEndpointAddress := (desc.getD (ep.epDesc + 2) 0).toBitVec
  bmAttributes := (desc.getD (ep.epDesc + 3) 0).toBitVec
  id := ep.id

/-- The loop over the endpoints of a setting: the pool, the descriptors and the endpoints behind
it. -/
def assignEndpoints : List EpId → List UInt8 → List SettingEp →
    List EpId × List UInt8 × List SettingEp
  | pool, desc, [] => (pool, desc, [])
  | pool, desc, ep :: rest =>
    let assigned := rtUsbdEpAssign pool (ep.poolEp desc)
    let others := assignEndpoints assigned.1
      (desc.set (ep.epDesc + 2) ⟨assigned.2.1.bEndpointAddress⟩) rest
    (others.1, others.2.1, { ep with id := assigned.2.1.id } :: others.2.2)

/-- The endpoints are written into the descriptor in place. -/
theorem length_assignEndpoints (pool : List EpId) (desc : List UInt8) (eps : List SettingEp) :
    (assignEndpoints pool desc eps).2.1.length = desc.length := by
  induction eps generalizing pool desc with
  | nil => rfl
  | cons ep rest ih => rw [assignEndpoints, ih, List.length_set]

/-- Each endpoint keeps its own descriptor. -/
theorem epDesc_assignEndpoints (pool : List EpId) (desc : List UInt8) (eps : List SettingEp) :
    (assignEndpoints pool desc eps).2.2.map SettingEp.epDesc = eps.map SettingEp.epDesc := by
  induction eps generalizing pool desc with
  | nil => rfl
  | cons ep rest ih => rw [assignEndpoints, List.map_cons, ih, List.map_cons]

/-- The loop over the endpoints, for a setting. -/
def AltSetting.assign (pool : List EpId) (setting : AltSetting) : List EpId × AltSetting :=
  ((assignEndpoints pool setting.desc setting.epList).1, {
    desc := (assignEndpoints pool setting.desc setting.epList).2.1
    epList := (assignEndpoints pool setting.desc setting.epList).2.2
    fits := by
      intro ep hep
      have hmem := List.mem_map_of_mem (f := SettingEp.epDesc) hep
      rw [epDesc_assignEndpoints] at hmem
      obtain ⟨before, hbefore, heq⟩ := List.mem_map.mp hmem
      rw [length_assignEndpoints, ← heq]
      exact setting.fits before hbefore
    apart := by
      have hpairs : (setting.epList.map SettingEp.epDesc).Pairwise fun a b =>
          a + 7 ≤ b ∨ b + 7 ≤ a := List.pairwise_map.mpr setting.apart
      rw [← epDesc_assignEndpoints pool setting.desc] at hpairs
      exact List.pairwise_map.mp hpairs })

/-- The pool, and the descriptor that is assembled. -/
structure ConfigWalk where
  epPool : List EpId
  cfgDesc : UconfigDescriptor

/-- One interface: the endpoints are given their entries, and the descriptors are copied. -/
def addInterface (w : ConfigWalk) (intf : ConfigInterface) :
    Except ConfigFault (ConfigWalk × ConfigInterface) :=
  match intf.currSetting with
  | none => .error .altsetting
  | some setting =>
    let assigned := setting.assign w.epPool
    let total := w.cfgDesc.wTotalLength.toNat
    let size := assigned.2.desc.length
    if 9 ≤ total ∧ total - 9 + size ≤ 256 then
      .ok ({
        epPool := assigned.1
        cfgDesc := { w.cfgDesc with
          bNumInterfaces := w.cfgDesc.bNumInterfaces + 1
          data := blit w.cfgDesc.data (total - 9) assigned.2.desc
          wTotalLength := BitVec.ofNat 16 (total + size) } }, ⟨some assigned.2⟩)
    else .error .overflow

/-- The loop over the interfaces of a function. -/
def addInterfaces : ConfigWalk → List ConfigInterface →
    Except ConfigFault (ConfigWalk × List ConfigInterface)
  | w, [] => .ok (w, [])
  | w, intf :: rest =>
    (addInterface w intf).bind fun first =>
      (addInterfaces first.1 rest).map fun others => (others.1, first.2 :: others.2)

/-- The loop over the functions. -/
def addFunctions : ConfigWalk → List ConfigFunction →
    Except ConfigFault (ConfigWalk × List ConfigFunction)
  | w, [] => .ok (w, [])
  | w, func :: rest =>
    (addInterfaces w func.intfList).bind fun first =>
      (addFunctions first.1 rest).map fun others => (others.1, ⟨first.2⟩ :: others.2)

/-- `rt_usbd_device_add_config`. -/
def rtUsbdDeviceAddConfig (device : ConfigDevice) (cfg : Uconfig) :
    Except ConfigFault ConfigDevice :=
  let value := device.bNumConfigurations + 1
  (addFunctions ⟨device.epPool, { cfg.cfgDesc with bConfigurationValue := value }⟩
    cfg.funcList).map fun result => {
      bNumConfigurations := value
      epPool := result.1.epPool
      cfgList := device.cfgList ++ [⟨result.1.cfgDesc, result.2⟩] }

/-! ## Using it -/

/-- The loops of `rt_usbd_find_endpoint`. An endpoint is named by its number in the walk. -/
def findEndpointFrom (epAddr : BitVec 8) : List ConfigInterface → Except ConfigFault (Option Nat)
  | [] => .ok none
  | intf :: rest =>
    match intf.currSetting with
    | none => .error .altsetting
    | some setting =>
      match setting.epList.findIdx? fun ep =>
          (ep.poolEp setting.desc).bEndpointAddress == epAddr with
      | some k => .ok (some k)
      | none => (findEndpointFrom epAddr rest).map (Option.map (· + setting.epList.length))

/-- `rt_usbd_find_endpoint` in the current configuration. -/
def rtUsbdFindEndpoint (currCfg : Uconfig) (epAddr : BitVec 8) : Except ConfigFault (Option Nat) :=
  findEndpointFrom epAddr (interfacesOf currCfg.funcList)

/-- `_get_config_descriptor`, for the descriptor at an address. -/
def UconfigDescriptor.getConfigDescriptor (d : UconfigDescriptor) (cfgDesc : Nat) (dcd : Udcd)
    (setup : Urequest) : Udcd :=
  let size := if d.wTotalLength.toNat < setup.wLength.toNat then d.wTotalLength.toNat
    else setup.wLength.toNat
  rtUsbdEp0Write dcd (some cfgDesc) size

/-! ## What it is for -/

/-- The current settings. -/
def settingsOf (intfs : List ConfigInterface) : List AltSetting :=
  intfs.filterMap ConfigInterface.currSetting

/-- The descriptors of the current settings, in order. -/
def descsOf (intfs : List ConfigInterface) : List UInt8 :=
  (settingsOf intfs).flatMap AltSetting.desc

/-- The places of the endpoints' addresses, for settings that begin at `start`. -/
def addressPlaces : Nat → List AltSetting → List Nat
  | _, [] => []
  | start, setting :: rest =>
    setting.epList.map (fun ep => start + (ep.epDesc + 2)) ++
      addressPlaces (start + setting.desc.length) rest

/-- An interface with another one's current setting, apart from the addresses of its endpoints. -/
def ConfigInterface.Keeps (intf before : ConfigInterface) : Prop :=
  ∃ setting old, intf.currSetting = some setting ∧ before.currSetting = some old ∧
    setting.desc.length = old.desc.length ∧
    setting.epList.map SettingEp.epDesc = old.epList.map SettingEp.epDesc ∧
    ∀ i, (∀ ep ∈ old.epList, i ≠ ep.epDesc + 2) → setting.desc[i]? = old.desc[i]?

/-- The data stage of a reply to GET_DESCRIPTOR(configuration) has the first `wLength` bytes of the
blob. -/
def UconfigDescriptor.Answers (d : UconfigDescriptor) : Prop :=
  ∀ (mem : List UInt8) (cfgDesc : Nat) (dcd : Udcd) (setup : Urequest),
    region mem (some cfgDesc) d.bytes.length = d.bytes →
    1 ≤ dcd.maxpacket → dcd.maxpacket < 0x10000 →
    ∃ made, (d.getConfigDescriptor cfgDesc dcd setup).EndsWith (dcd.calls ++ made) ∧
      Replied mem dcd.maxpacket (d.blob.take (min setup.wLength.toNat d.wTotalLength.toNat)) made

/-- A configuration as it should be, with the interfaces of some functions. -/
structure Uconfig.Assembled (cfg : Uconfig) (value : UInt8) (funcs : List ConfigFunction) :
    Prop where
  header : cfg.cfgDesc.header =
    [9, 2, ⟨cfg.cfgDesc.wTotalLength.setWidth 8⟩, ⟨(cfg.cfgDesc.wTotalLength >>> 8).setWidth 8⟩,
      cfg.cfgDesc.bNumInterfaces, value, 0, 0xC0, 0x32]
  blob : cfg.cfgDesc.blob = cfg.cfgDesc.header ++ descsOf (interfacesOf cfg.funcList)
  wTotalLength : cfg.cfgDesc.wTotalLength.toNat = cfg.cfgDesc.blob.length
  bNumInterfaces : cfg.cfgDesc.bNumInterfaces.toNat = (interfacesOf funcs).length
  keeps : List.Forall₂ ConfigInterface.Keeps (interfacesOf cfg.funcList) (interfacesOf funcs)
  found : ∀ (n place : Nat),
    (addressPlaces 9 (settingsOf (interfacesOf cfg.funcList)))[n]? = some place →
    ∃ address, cfg.cfgDesc.blob[place]? = some address ∧
      rtUsbdFindEndpoint cfg address.toBitVec = .ok (some n)
  inside : cfg.cfgDesc.data.length = 256
  answers : cfg.cfgDesc.Answers

/-! ## When it is -/

/-- Endpoints of one type and direction. -/
def PoolEp.SameClass (ep other : PoolEp) : Prop :=
  ep.bmAttributes = other.bmAttributes ∧
    ep.bEndpointAddress &&& 0x80 = other.bEndpointAddress &&& 0x80

instance (ep other : PoolEp) : Decidable (ep.SameClass other) :=
  inferInstanceAs (Decidable (_ ∧ _))

/-- The free entries of the pool for an endpoint. -/
def freeFor (pool : List EpId) (ep : PoolEp) : List EpId :=
  (pool.takeWhile fun id => id.addr ≠ 0xFF).filter fun id => ep.Takes id

/-- The address of an endpoint behind some others: with the number of the free entry whose turn it
is in its class, and its own if there is none left. -/
def givenAddress (pool : List EpId) (before : List PoolEp) (ep : PoolEp) : BitVec 8 :=
  match (freeFor pool ep)[before.countP fun other => ep.SameClass other]? with
  | some id => ep.bEndpointAddress ||| id.addr
  | none => ep.bEndpointAddress

/-- The addresses of endpoints that come behind some others. -/
def givenAddresses (pool : List EpId) : List PoolEp → List PoolEp → List (BitVec 8)
  | _, [] => []
  | before, ep :: rest =>
    givenAddress pool before ep :: givenAddresses pool (before ++ [ep]) rest

/-- The endpoints of a setting, and of the current settings, as the pool sees them. -/
def AltSetting.poolEps (setting : AltSetting) : List PoolEp :=
  setting.epList.map (SettingEp.poolEp setting.desc)

def poolEpsOf (intfs : List ConfigInterface) : List PoolEp :=
  (settingsOf intfs).flatMap AltSetting.poolEps

/-- Every interface has a current setting, the descriptors fit into the array, the interfaces can be
counted, and no two endpoints are given one address. -/
structure Assemblable (pool : List EpId) (funcs : List ConfigFunction) : Prop where
  set : ∀ intf ∈ interfacesOf funcs, intf.currSetting.isSome = true
  fits : (descsOf (interfacesOf funcs)).length ≤ 256
  counted : (interfacesOf funcs).length < 256
  distinct : (givenAddresses pool [] (poolEpsOf (interfacesOf funcs))).Nodup

/-! ## The addresses -/

variable {pool : List EpId} {ep other : PoolEp} {id : EpId} {i : Nat}

/-- The endpoints of a pool that an endpoint may take, the first one first. -/
theorem freeFor_cons (first : EpId) (rest : List EpId) (ep : PoolEp) :
    freeFor (first :: rest) ep =
      if first.addr = 0xFF then []
      else if ep.Takes first then first :: freeFor rest ep else freeFor rest ep := by
  unfold freeFor
  by_cases hend : first.addr = 0xFF
  · simp only [List.takeWhile_cons, hend, ne_eq, not_true_eq_false, decide_false,
      Bool.false_eq_true, if_false, if_true, List.filter_nil]
  · by_cases htakes : ep.Takes first
    · simp only [List.takeWhile_cons, hend, ne_eq, not_false_eq_true, decide_true, if_true,
        if_false, List.filter_cons, htakes]
    · simp only [List.takeWhile_cons, hend, ne_eq, not_false_eq_true, decide_true, if_true,
        if_false, List.filter_cons, htakes, decide_false, Bool.false_eq_true]

/-- The entry that the loop finds is the first free one. -/
theorem epFind_eq_head? : (epFind ep pool).map Prod.snd = (freeFor pool ep).head? := by
  induction pool with
  | nil => rfl
  | cons first rest ih =>
    rw [freeFor_cons, epFind]
    split
    · rfl
    · split
      · rfl
      · rw [← ih, Option.map_map]
        rfl

/-- Endpoints of one class may take the same entries. -/
theorem PoolEp.SameClass.takes_iff (h : ep.SameClass other) : ep.Takes id ↔ other.Takes id := by
  simp only [PoolEp.Takes, h.1, h.2]

theorem freeFor_eq (h : ep.SameClass other) : freeFor pool ep = freeFor pool other :=
  List.filter_congr fun _ _ => decide_eq_decide.mpr h.takes_iff

/-- Endpoints that may take one entry are of one class. -/
theorem PoolEp.Takes.sameClass (h : ep.Takes id) (h' : other.Takes id) : ep.SameClass other :=
  ⟨h.2.1.trans h'.2.1.symm, h.2.2.trans h'.2.2.symm⟩

/-- An entry that is taken is gone for its class. By induction on the loop. -/
theorem freeFor_setAssigned (hfind : epFind ep pool = some (i, id)) (other : PoolEp) :
    freeFor (setAssigned pool i true) other =
      if other.SameClass ep then (freeFor pool other).tail else freeFor pool other := by
  induction pool generalizing i with
  | nil => cases hfind
  | cons first rest ih =>
    unfold epFind at hfind
    split at hfind
    · cases hfind
    · next hend =>
      split at hfind
      · next htakes =>
        cases hfind
        have hgone : ¬other.Takes { id with assigned := true } := fun h =>
          Bool.false_ne_true h.1.symm
        have hset : setAssigned (id :: rest) 0 true = { id with assigned := true } :: rest := rfl
        rw [hset, freeFor_cons, freeFor_cons, if_neg hend, if_neg hgone, if_neg hend]
        by_cases hclass : other.SameClass ep
        · rw [if_pos hclass, if_pos (hclass.takes_iff.mpr htakes), List.tail_cons]
        · rw [if_neg hclass, if_neg fun h => hclass (h.sameClass htakes)]
      · next hskips =>
        obtain ⟨⟨k, found⟩, hfound, heq⟩ := Option.map_eq_some_iff.mp hfind
        cases heq
        have hset : setAssigned (first :: rest) (k + 1) true =
          first :: setAssigned rest k true := rfl
        rw [hset, freeFor_cons, freeFor_cons, if_neg hend, if_neg hend, ih hfound]
        by_cases hclass : other.SameClass ep
        · have hskips' : ¬other.Takes first := fun h => hskips (hclass.takes_iff.mp h)
          simp only [hclass, hskips', if_true, if_false]
        · simp only [hclass, if_false]

/-- The loop over some endpoints, for the addresses that it gives. -/
def assignAll : List EpId → List PoolEp → List EpId × List (BitVec 8)
  | pool, [] => (pool, [])
  | pool, ep :: rest =>
    let assigned := rtUsbdEpAssign pool ep
    let others := assignAll assigned.1 rest
    (others.1, assigned.2.1.bEndpointAddress :: others.2)

/-- Two rows are served one after another. -/
theorem assignAll_append (pool : List EpId) (eps others : List PoolEp) :
    assignAll pool (eps ++ others) =
      ((assignAll (assignAll pool eps).1 others).1,
        (assignAll pool eps).2 ++ (assignAll (assignAll pool eps).1 others).2) := by
  induction eps generalizing pool with
  | nil => rfl
  | cons ep rest ih => simp only [List.cons_append, assignAll, ih]

/-- One endpoint is given the first free entry of its class, which is gone then. -/
theorem rtUsbdEpAssign_spec (pool : List EpId) (ep : PoolEp) :
    (rtUsbdEpAssign pool ep).2.1.bEndpointAddress = (match (freeFor pool ep).head? with
        | some id => ep.bEndpointAddress ||| id.addr
        | none => ep.bEndpointAddress) ∧
      ∀ other, freeFor (rtUsbdEpAssign pool ep).1 other =
        if other.SameClass ep then (freeFor pool other).tail else freeFor pool other := by
  have hhead := @epFind_eq_head? pool ep
  cases hfind : epFind ep pool with
  | none =>
    rw [hfind] at hhead
    simp only [rtUsbdEpAssign, hfind, ← hhead, Option.map_none, true_and]
    intro other
    by_cases hclass : other.SameClass ep
    · have hempty : freeFor pool other = [] := by
        rw [freeFor_eq hclass, ← List.head?_eq_none_iff, ← hhead, Option.map_none]
      rw [hempty, List.tail_nil, ite_self]
    · rw [if_neg hclass]
  | some found =>
    rw [hfind] at hhead
    simp only [rtUsbdEpAssign, hfind, ← hhead, Option.map_some, true_and]
    exact freeFor_setAssigned hfind

/-- The loop gives the addresses that the free entries of the pool say. By induction on the
endpoints: behind some of them the free entries of a class are those that none of these took. -/
theorem assignAll_eq (eps before : List PoolEp) {current : List EpId}
    (hcurrent : ∀ other, freeFor current other =
      (freeFor pool other).drop (before.countP fun earlier => other.SameClass earlier)) :
    (assignAll current eps).2 = givenAddresses pool before eps := by
  induction eps generalizing current before with
  | nil => rfl
  | cons ep rest ih =>
    obtain ⟨haddress, hnext⟩ := rtUsbdEpAssign_spec current ep
    rw [assignAll, givenAddresses]
    refine congrArg₂ List.cons ?_ (ih (before ++ [ep]) fun other => ?_)
    · rw [haddress, hcurrent, List.head?_drop, givenAddress]
    · rw [hnext, hcurrent, List.countP_append, List.countP_singleton]
      by_cases hclass : other.SameClass ep
      · simp only [hclass, if_true, decide_true, List.tail_drop]
      · simp only [hclass, if_false, decide_false, Bool.false_eq_true, Nat.add_zero]

/-! ## One setting -/

/-- The address of an endpoint, as its setting's descriptors have it. -/
def SettingEp.address (desc : List UInt8) (ep : SettingEp) : BitVec 8 :=
  (ep.poolEp desc).bEndpointAddress

/-- An endpoint does not see a change of a byte outside its descriptor. -/
theorem SettingEp.poolEp_set {desc : List UInt8} {ep : SettingEp} {place : Nat} (value : UInt8)
    (h : place < ep.epDesc ∨ ep.epDesc + 7 ≤ place) :
    ep.poolEp (desc.set place value) = ep.poolEp desc := by
  have haddress : place ≠ ep.epDesc + 2 := by omega
  have hattributes : place ≠ ep.epDesc + 3 := by omega
  simp only [SettingEp.poolEp, List.getD_eq_getElem?_getD, List.getElem?_set_ne haddress,
    List.getElem?_set_ne hattributes]

/-- The loop over the endpoints of a setting gives the addresses of `assignAll`, and changes no
other byte. By induction on the endpoints. -/
theorem assignEndpoints_spec (eps : List SettingEp) (pool : List EpId) (desc : List UInt8)
    (hfits : ∀ ep ∈ eps, ep.epDesc + 7 ≤ desc.length)
    (hapart : eps.Pairwise fun ep other =>
      ep.epDesc + 7 ≤ other.epDesc ∨ other.epDesc + 7 ≤ ep.epDesc) :
    (assignEndpoints pool desc eps).1 = (assignAll pool (eps.map (SettingEp.poolEp desc))).1 ∧
      (assignEndpoints pool desc eps).2.2.map
          (SettingEp.address (assignEndpoints pool desc eps).2.1) =
        (assignAll pool (eps.map (SettingEp.poolEp desc))).2 ∧
      ∀ i, (∀ ep ∈ eps, i ≠ ep.epDesc + 2) →
        (assignEndpoints pool desc eps).2.1[i]? = desc[i]? := by
  induction eps generalizing pool desc with
  | nil => exact ⟨rfl, rfl, fun i _ => rfl⟩
  | cons ep rest ih =>
    obtain ⟨hfirst, hrest⟩ := List.pairwise_cons.mp hapart
    have hin : ep.epDesc + 2 < desc.length := by
      have := hfits ep List.mem_cons_self
      omega
    rw [List.map_cons, assignEndpoints, assignAll]
    generalize rtUsbdEpAssign pool (ep.poolEp desc) = assigned
    have hsame : rest.map (SettingEp.poolEp
        (desc.set (ep.epDesc + 2) ⟨assigned.2.1.bEndpointAddress⟩)) =
        rest.map (SettingEp.poolEp desc) :=
      List.map_congr_left fun other hother => SettingEp.poolEp_set _ (by
        have := hfirst other hother
        omega)
    obtain ⟨hpool, haddresses, hothers⟩ := ih assigned.1
      (desc.set (ep.epDesc + 2) ⟨assigned.2.1.bEndpointAddress⟩)
      (fun other hother => by
        rw [List.length_set]
        exact hfits other (List.mem_cons_of_mem _ hother)) hrest
    rw [hsame] at hpool haddresses
    refine ⟨hpool, ?_, fun i hi => ?_⟩
    · rw [List.map_cons, haddresses]
      refine congrArg (· :: _) ?_
      have hown := hothers (ep.epDesc + 2) fun other hother heq => by
        have := hfirst other hother
        omega
      rw [List.getElem?_set_self hin] at hown
      simp only [SettingEp.address, SettingEp.poolEp, List.getD_eq_getElem?_getD, hown,
        Option.getD_some]
    · rw [hothers i fun other hother => hi other (List.mem_cons_of_mem _ hother)]
      exact List.getElem?_set_ne (hi ep List.mem_cons_self).symm

/-- The addresses of some interfaces' endpoints. -/
def AltSetting.addresses (setting : AltSetting) : List (BitVec 8) :=
  setting.epList.map (SettingEp.address setting.desc)

def addressesOf (intfs : List ConfigInterface) : List (BitVec 8) :=
  (settingsOf intfs).flatMap AltSetting.addresses

/-- What is made of a setting. -/
theorem AltSetting.assign_spec (pool : List EpId) (setting : AltSetting) :
    (setting.assign pool).1 = (assignAll pool setting.poolEps).1 ∧
      (setting.assign pool).2.addresses = (assignAll pool setting.poolEps).2 ∧
      ConfigInterface.Keeps ⟨some (setting.assign pool).2⟩ ⟨some setting⟩ := by
  obtain ⟨hpool, haddresses, hothers⟩ :=
    assignEndpoints_spec setting.epList pool setting.desc setting.fits setting.apart
  exact ⟨hpool, haddresses, _, _, rfl, rfl, length_assignEndpoints _ _ _,
    epDesc_assignEndpoints _ _ _, hothers⟩

/-! ## The walk -/

/-- What the walk keeps of the descriptor: the array, and that the length is that of what was copied
so far. -/
structure UconfigDescriptor.Growing (d : UconfigDescriptor) : Prop where
  array : d.data.length = 256
  header : 9 ≤ d.wTotalLength.toNat
  fits : d.wTotalLength.toNat ≤ 265

/-- The walk from `w` to `w'` over interfaces of which it makes `after`. -/
structure ConfigWalk.Copies (w w' : ConfigWalk) (before after : List ConfigInterface) : Prop where
  growing : w'.cfgDesc.Growing
  bLength : w'.cfgDesc.bLength = w.cfgDesc.bLength
  type : w'.cfgDesc.type = w.cfgDesc.type
  bConfigurationValue : w'.cfgDesc.bConfigurationValue = w.cfgDesc.bConfigurationValue
  iConfiguration : w'.cfgDesc.iConfiguration = w.cfgDesc.iConfiguration
  bmAttributes : w'.cfgDesc.bmAttributes = w.cfgDesc.bmAttributes
  maxPower : w'.cfgDesc.maxPower = w.cfgDesc.maxPower
  bNumInterfaces : w'.cfgDesc.bNumInterfaces =
    w.cfgDesc.bNumInterfaces + UInt8.ofNat before.length
  wTotalLength : w'.cfgDesc.wTotalLength.toNat =
    w.cfgDesc.wTotalLength.toNat + (descsOf after).length
  data : w'.cfgDesc.data =
    blit w.cfgDesc.data (w.cfgDesc.wTotalLength.toNat - 9) (descsOf after)
  keeps : List.Forall₂ ConfigInterface.Keeps after before
  epPool : w'.epPool = (assignAll w.epPool (poolEpsOf before)).1
  addresses : addressesOf after = (assignAll w.epPool (poolEpsOf before)).2

/-- What a walk over some interfaces should come to. -/
structure ConfigWalk.Walks (w : ConfigWalk) (before : List ConfigInterface)
    (result : Except ConfigFault (ConfigWalk × List ConfigInterface)) : Prop where
  succeeds_iff : (∃ r, result = .ok r) ↔
    (∀ intf ∈ before, intf.currSetting.isSome = true) ∧
      w.cfgDesc.wTotalLength.toNat + (descsOf before).length ≤ 265
  copies : ∀ w' after, result = .ok (w', after) → w.Copies w' before after

variable {w w' : ConfigWalk} {before after as bs : List ConfigInterface} {intf : ConfigInterface}
  {setting : AltSetting}

theorem settingsOf_append (as bs : List ConfigInterface) :
    settingsOf (as ++ bs) = settingsOf as ++ settingsOf bs := List.filterMap_append

theorem descsOf_append (as bs : List ConfigInterface) :
    descsOf (as ++ bs) = descsOf as ++ descsOf bs := by
  rw [descsOf, settingsOf_append, List.flatMap_append, descsOf, descsOf]

theorem poolEpsOf_append (as bs : List ConfigInterface) :
    poolEpsOf (as ++ bs) = poolEpsOf as ++ poolEpsOf bs := by
  rw [poolEpsOf, settingsOf_append, List.flatMap_append, poolEpsOf, poolEpsOf]

theorem addressesOf_append (as bs : List ConfigInterface) :
    addressesOf (as ++ bs) = addressesOf as ++ addressesOf bs := by
  rw [addressesOf, settingsOf_append, List.flatMap_append, addressesOf, addressesOf]

/-- An interface counts with its current setting. -/
theorem settingsOf_cons (h : intf.currSetting = some setting) (rest : List ConfigInterface) :
    settingsOf (intf :: rest) = setting :: settingsOf rest := List.filterMap_cons_some h

/-- Interfaces that keep their settings have as many descriptor bytes. -/
theorem length_descsOf (h : List.Forall₂ ConfigInterface.Keeps after before) :
    (descsOf after).length = (descsOf before).length := by
  induction h with
  | nil => rfl
  | cons hkeeps _ ih =>
    obtain ⟨setting, old, hsetting, hold, hlength, -, -⟩ := hkeeps
    simp only [descsOf, settingsOf_cons hsetting, settingsOf_cons hold, List.flatMap_cons,
      List.length_append, hlength] at ih ⊢
    rw [ih]

theorem ConfigWalk.Walks.nil (h : w.cfgDesc.Growing) : w.Walks [] (.ok (w, [])) := by
  refine ⟨iff_of_true ⟨_, rfl⟩ ⟨fun intf hintf => absurd hintf List.not_mem_nil, h.fits⟩, ?_⟩
  rintro w' after heq
  cases heq
  refine ⟨h, rfl, rfl, rfl, rfl, rfl, rfl, (UInt8.add_zero _).symm, rfl, ?_, .nil, rfl, rfl⟩
  have hnone : blit w.cfgDesc.data (w.cfgDesc.wTotalLength.toNat - 9) ([] : List UInt8) =
      w.cfgDesc.data := by
    rw [blit, List.append_nil, List.length_nil, Nat.add_zero, List.take_append_drop]
  exact hnone.symm

/-- One interface. -/
theorem ConfigWalk.Walks.single (h : w.cfgDesc.Growing) (intf : ConfigInterface) :
    w.Walks [intf] ((addInterface w intf).map fun r => (r.1, [r.2])) := by
  cases hcurrent : intf.currSetting with
  | none =>
    simp only [addInterface, hcurrent]
    refine ⟨iff_of_false ?_ ?_, fun w' after heq => ?_⟩
    · rintro ⟨r, heq⟩
      cases heq
    · rintro ⟨hset, -⟩
      have := hset intf List.mem_cons_self
      rw [hcurrent] at this
      cases this
    · cases heq
  | some setting =>
    obtain ⟨hpool, haddresses, hkeeps⟩ := setting.assign_spec w.epPool
    have hone : ∀ s : AltSetting, descsOf [⟨some s⟩] = s.desc := fun s => List.append_nil _
    have hdescs : descsOf [intf] = setting.desc := by
      rw [descsOf, settingsOf_cons hcurrent]
      exact List.append_nil _
    have heps : poolEpsOf [intf] = setting.poolEps := by
      rw [poolEpsOf, settingsOf_cons hcurrent]
      exact List.append_nil _
    have hlength : (setting.assign w.epPool).2.desc.length = setting.desc.length :=
      length_assignEndpoints _ _ _
    have hheader := h.header
    simp only [addInterface, hcurrent]
    by_cases hfits : 9 ≤ w.cfgDesc.wTotalLength.toNat ∧
        w.cfgDesc.wTotalLength.toNat - 9 + (setting.assign w.epPool).2.desc.length ≤ 256
    · rw [if_pos hfits]
      have htotal : (BitVec.ofNat 16 (w.cfgDesc.wTotalLength.toNat +
          (setting.assign w.epPool).2.desc.length)).toNat =
          w.cfgDesc.wTotalLength.toNat + (setting.assign w.epPool).2.desc.length := by
        rw [BitVec.toNat_ofNat]
        exact Nat.mod_eq_of_lt (by omega)
      refine ⟨iff_of_true ⟨_, rfl⟩ ⟨?_, ?_⟩, ?_⟩
      · intro other hother
        rw [List.mem_singleton.mp hother, hcurrent]
        rfl
      · rw [hdescs, ← hlength]
        omega
      · rintro w' after heq
        cases heq
        refine ⟨⟨?_, ?_, ?_⟩, rfl, rfl, rfl, rfl, rfl, rfl, rfl, ?_, ?_, ?_, ?_, ?_⟩
        · rw [length_blit (by rw [h.array]; exact hfits.2)]
          exact h.array
        · rw [htotal]
          omega
        · rw [htotal]
          omega
        · rw [htotal, hone]
        · rw [hone]
        · refine .cons ?_ .nil
          obtain ⟨new, old, hnew, hold, hrest⟩ := hkeeps
          cases hold
          exact ⟨new, setting, hnew, hcurrent, hrest⟩
        · rw [heps]
          exact hpool
        · rw [heps, ← haddresses]
          exact List.append_nil _
    · rw [if_neg hfits]
      refine ⟨iff_of_false ?_ ?_, fun w' after heq => ?_⟩
      · rintro ⟨r, heq⟩
        cases heq
      · rintro ⟨-, hle⟩
        rw [hdescs, ← hlength] at hle
        omega
      · cases heq

/-- A walk over some interfaces and then over others, from where the first leaves off. -/
theorem ConfigWalk.Copies.append {w'' : ConfigWalk} {as' bs' : List ConfigInterface}
    (hgrowing : w.cfgDesc.Growing) (has : w.Copies w' as as') (hbs : w'.Copies w'' bs bs') :
    w.Copies w'' (as ++ bs) (as' ++ bs') := by
  have hheader := hgrowing.header
  have htotal := has.wTotalLength
  have htotal' := hbs.wTotalLength
  have hfits := hbs.growing.fits
  refine ⟨hbs.growing, hbs.bLength.trans has.bLength, hbs.type.trans has.type,
    hbs.bConfigurationValue.trans has.bConfigurationValue,
    hbs.iConfiguration.trans has.iConfiguration, hbs.bmAttributes.trans has.bmAttributes,
    hbs.maxPower.trans has.maxPower, ?_, ?_, ?_, List.rel_append has.keeps hbs.keeps, ?_, ?_⟩
  · rw [hbs.bNumInterfaces, has.bNumInterfaces, List.length_append, UInt8.ofNat_add,
      UInt8.add_assoc]
  · rw [descsOf_append, List.length_append]
    omega
  · have hoffset : w'.cfgDesc.wTotalLength.toNat - 9 =
        w.cfgDesc.wTotalLength.toNat - 9 + (descsOf as').length := by omega
    rw [hbs.data, has.data, descsOf_append, hoffset]
    exact blit_append (by rw [hgrowing.array]; omega)
  · rw [poolEpsOf_append, assignAll_append, hbs.epPool, has.epPool]
  · rw [poolEpsOf_append, assignAll_append, addressesOf_append, has.addresses, hbs.addresses,
      has.epPool]

/-- A walk over two rows is one over the first and then one over the second. -/
theorem ConfigWalk.Walks.append (hgrowing : w.cfgDesc.Growing)
    {f : Except ConfigFault (ConfigWalk × List ConfigInterface)}
    {g : ConfigWalk → Except ConfigFault (ConfigWalk × List ConfigInterface)}
    (hf : w.Walks as f)
    (hg : ∀ w' : ConfigWalk, w'.cfgDesc.Growing → w'.Walks bs (g w')) :
    w.Walks (as ++ bs)
      (f.bind fun r => (g r.1).map fun r' => (r'.1, r.2 ++ r'.2)) := by
  cases hresult : f with
  | error fault =>
    have hfails : ¬∃ r, f = .ok r := by
      rintro ⟨r, heq⟩
      rw [hresult] at heq
      cases heq
    rw [hf.succeeds_iff] at hfails
    refine ⟨iff_of_false ?_ ?_, fun w' after heq => ?_⟩
    · rintro ⟨r, heq⟩
      cases heq
    · rintro ⟨hset, hle⟩
      rw [descsOf_append, List.length_append] at hle
      exact hfails ⟨fun intf hintf => hset intf (List.mem_append_left _ hintf), by omega⟩
    · cases heq
  | ok r =>
    obtain ⟨w', as'⟩ := r
    have has := hf.copies w' as' hresult
    have hset := hf.succeeds_iff.mp ⟨_, hresult⟩
    have hbs := hg w' has.growing
    have htotal := has.wTotalLength
    rw [length_descsOf has.keeps] at htotal
    refine ⟨?_, ?_⟩
    · rw [List.forall_mem_append, descsOf_append, List.length_append, ← Nat.add_assoc, ← htotal,
        and_assoc, and_iff_right hset.1, ← hbs.succeeds_iff]
      constructor
      · rintro ⟨r, heq⟩
        cases hnext : g w' with
        | error fault =>
          rw [Except.bind, hnext] at heq
          cases heq
        | ok r' => exact ⟨r', rfl⟩
      · rintro ⟨r', hnext⟩
        rw [Except.bind, hnext]
        exact ⟨_, rfl⟩
    · intro w'' after heq
      cases hnext : g w' with
      | error fault =>
        rw [Except.bind, hnext] at heq
        cases heq
      | ok r' =>
        rw [Except.bind, hnext] at heq
        cases heq
        exact has.append hgrowing (hbs.copies _ _ hnext)

/-- By induction on the interfaces. -/
theorem addInterfaces_walks (h : w.cfgDesc.Growing) (intfs : List ConfigInterface) :
    w.Walks intfs (addInterfaces w intfs) := by
  induction intfs generalizing w with
  | nil => exact .nil h
  | cons intf rest ih =>
    have hwalk := (ConfigWalk.Walks.single h intf).append h
      (g := (addInterfaces · rest)) fun w' hw' => ih hw'
    rw [addInterfaces]
    cases hfirst : addInterface w intf with
    | error fault =>
      rw [hfirst] at hwalk
      exact hwalk
    | ok r =>
      rw [hfirst] at hwalk
      exact hwalk

/-- The walk over the functions is one over all their interfaces. By induction on the functions. -/
theorem addFunctions_walks (h : w.cfgDesc.Growing) (funcs : List ConfigFunction) :
    w.Walks (interfacesOf funcs)
      ((addFunctions w funcs).map fun r => (r.1, interfacesOf r.2)) := by
  induction funcs generalizing w with
  | nil => exact .nil h
  | cons func rest ih =>
    have hwalk := (addInterfaces_walks h func.intfList).append h
      (g := fun w' => (addFunctions w' rest).map fun r => (r.1, interfacesOf r.2))
      fun w' hw' => ih hw'
    rw [addFunctions, interfacesOf, List.flatMap_cons]
    cases hfirst : addInterfaces w func.intfList with
    | error fault =>
      rw [hfirst] at hwalk
      exact hwalk
    | ok r =>
      rw [hfirst, Except.bind] at hwalk
      rw [Except.bind]
      cases hothers : addFunctions r.1 rest with
      | error fault =>
        rw [hothers] at hwalk
        exact hwalk
      | ok r' =>
        rw [hothers] at hwalk
        exact hwalk

/-! ## Finding endpoints -/

/-- Where every interface has a current setting, the first endpoint with the address is found. -/
theorem findEndpointFrom_eq {epAddr : BitVec 8} {intfs : List ConfigInterface}
    (hset : ∀ intf ∈ intfs, intf.currSetting.isSome = true) :
    findEndpointFrom epAddr intfs =
      .ok ((addressesOf intfs).findIdx? fun address => address == epAddr) := by
  induction intfs with
  | nil => rfl
  | cons intf rest ih =>
    obtain ⟨hfirst, hrest⟩ := List.forall_mem_cons.mp hset
    obtain ⟨setting, hsetting⟩ := Option.isSome_iff_exists.mp hfirst
    have hown : setting.addresses.findIdx? (fun address => address == epAddr) =
        setting.epList.findIdx? fun ep =>
          (ep.poolEp setting.desc).bEndpointAddress == epAddr := by
      rw [AltSetting.addresses, List.findIdx?_map]
      rfl
    have hlength : setting.addresses.length = setting.epList.length := List.length_map _
    rw [findEndpointFrom, hsetting, addressesOf, settingsOf_cons hsetting, List.flatMap_cons,
      List.findIdx?_append, hown, hlength]
    simp only
    cases setting.epList.findIdx? fun ep =>
        (ep.poolEp setting.desc).bEndpointAddress == epAddr with
    | none => rw [ih hrest]; rfl
    | some k => rfl

/-- Each of some values is found at its own place exactly if they differ. -/
theorem nodup_iff_findIdx? {l : List (BitVec 8)} :
    l.Nodup ↔ ∀ n a, l[n]? = some a → l.findIdx? (fun b => b == a) = some n := by
  constructor
  · intro hnodup n a hn
    obtain ⟨hlt, rfl⟩ := List.getElem?_eq_some_iff.mp hn
    refine List.findIdx?_eq_some_iff_getElem.mpr ⟨hlt, beq_self_eq_true _, fun j hj => ?_⟩
    intro heq
    have hji := hnodup.getElem_inj_iff.mp (eq_of_beq heq)
    omega
  · intro hfound
    refine List.nodup_iff_getElem?_ne_getElem?.mpr fun i j hij hj heq => ?_
    have hjth := List.getElem?_eq_getElem hj
    have hi := hfound i _ (heq.trans hjth)
    rw [hfound j _ hjth] at hi
    have := Option.some.inj hi
    omega

theorem length_addressPlaces (start : Nat) (settings : List AltSetting) :
    (addressPlaces start settings).length = (settings.flatMap AltSetting.addresses).length := by
  induction settings generalizing start with
  | nil => rfl
  | cons setting rest ih =>
    rw [addressPlaces, List.flatMap_cons, List.length_append, List.length_append, ih,
      AltSetting.addresses, List.length_map, List.length_map]

/-- The bytes at the places of the addresses. -/
theorem getElem?_addressPlaces (settings : List AltSetting) (front : List UInt8) (n : Nat) :
    ((addressPlaces front.length settings)[n]?.bind fun place =>
      (front ++ settings.flatMap AltSetting.desc)[place]?) =
      (settings.flatMap AltSetting.addresses)[n]?.map UInt8.ofBitVec := by
  induction settings generalizing front n with
  | nil => rfl
  | cons setting rest ih =>
    have hlength : setting.addresses.length = setting.epList.length := List.length_map _
    rw [addressPlaces, List.flatMap_cons, List.flatMap_cons, List.getElem?_append,
      List.getElem?_append, List.length_map, hlength]
    by_cases hn : n < setting.epList.length
    · rw [if_pos hn, if_pos hn, List.getElem?_map, AltSetting.addresses, List.getElem?_map,
        List.getElem?_eq_getElem hn, Option.map_some, Option.map_some, Option.map_some,
        Option.bind_some, List.getElem?_append_right (Nat.le_add_right _ _),
        Nat.add_sub_cancel_left]
      have hin : (setting.epList[n]).epDesc + 2 < setting.desc.length := by
        have := setting.fits _ (List.getElem_mem hn)
        omega
      rw [List.getElem?_append_left hin, List.getElem?_eq_getElem hin]
      simp only [SettingEp.address, SettingEp.poolEp, List.getD_eq_getElem?_getD,
        List.getElem?_eq_getElem hin, Option.getD_some, UInt8.ofBitVec_toBitVec]
    · rw [if_neg hn, if_neg hn, ← List.append_assoc, ← List.length_append]
      exact ih (front ++ setting.desc) (n - setting.epList.length)

/-! ## The law -/

/-- An interface keeps that it has a setting. -/
theorem isSome_of_keeps (h : List.Forall₂ ConfigInterface.Keeps after before) :
    ∀ intf ∈ after, intf.currSetting.isSome = true := by
  induction h with
  | nil => exact fun intf hintf => absurd hintf List.not_mem_nil
  | cons hkeeps _ ih =>
    obtain ⟨setting, -, hsetting, -⟩ := hkeeps
    refine List.forall_mem_cons.mpr ⟨?_, ih⟩
    rw [hsetting]
    rfl

/-- The endpoints are found under the addresses in the blob exactly if these differ. -/
theorem found_iff {cfg : Uconfig} {front : List UInt8}
    (hset : ∀ intf ∈ interfacesOf cfg.funcList, intf.currSetting.isSome = true)
    (hfront : front.length = 9)
    (hblob : cfg.cfgDesc.blob = front ++ descsOf (interfacesOf cfg.funcList)) :
    (∀ (n place : Nat),
        (addressPlaces 9 (settingsOf (interfacesOf cfg.funcList)))[n]? = some place →
      ∃ address, cfg.cfgDesc.blob[place]? = some address ∧
        rtUsbdFindEndpoint cfg address.toBitVec = .ok (some n)) ↔
      (addressesOf (interfacesOf cfg.funcList)).Nodup := by
  have hplaces (n : Nat) :
      ((addressPlaces 9 (settingsOf (interfacesOf cfg.funcList)))[n]?.bind fun place =>
        cfg.cfgDesc.blob[place]?) =
      (addressesOf (interfacesOf cfg.funcList))[n]?.map UInt8.ofBitVec := by
    rw [hblob, ← hfront]
    exact getElem?_addressPlaces _ _ _
  have hfind (epAddr : BitVec 8) : rtUsbdFindEndpoint cfg epAddr =
      .ok ((addressesOf (interfacesOf cfg.funcList)).findIdx? fun address => address == epAddr) :=
    findEndpointFrom_eq hset
  rw [nodup_iff_findIdx?]
  constructor
  · intro hfound n a hn
    have hthere := hplaces n
    rw [hn, Option.map_some] at hthere
    obtain ⟨place, hplace, hbyte⟩ := Option.bind_eq_some_iff.mp hthere
    obtain ⟨address, haddress, hends⟩ := hfound n place hplace
    rw [hbyte] at haddress
    cases haddress
    rw [hfind] at hends
    exact Except.ok.inj hends
  · intro hfound n place hplace
    have hthere := hplaces n
    rw [hplace, Option.bind_some] at hthere
    have hlt : n < (addressesOf (interfacesOf cfg.funcList)).length := by
      rw [addressesOf, ← length_addressPlaces 9]
      exact (List.getElem?_eq_some_iff.mp hplace).1
    have hn := List.getElem?_eq_getElem hlt
    rw [hn, Option.map_some] at hthere
    refine ⟨_, hthere, ?_⟩
    rw [hfind]
    exact congrArg Except.ok (hfound n _ hn)

/-- The data stage of the reply is that of the blob's first bytes. -/
theorem UconfigDescriptor.answers {d : UconfigDescriptor}
    (hle : d.wTotalLength.toNat ≤ d.bytes.length) : d.Answers := by
  intro mem cfgDesc dcd setup hmem hpos h16
  have htotal := d.wTotalLength.isLt
  have hsize : (if d.wTotalLength.toNat < setup.wLength.toNat then d.wTotalLength.toNat
      else setup.wLength.toNat) = min setup.wLength.toNat d.wTotalLength.toNat := by
    split <;> omega
  have hmin : min setup.wLength.toNat d.wTotalLength.toNat ≤ d.wTotalLength.toNat :=
    Nat.min_le_right _ _
  have hregion : region mem (some cfgDesc) (min setup.wLength.toNat d.wTotalLength.toNat) =
      d.blob.take (min setup.wLength.toNat d.wTotalLength.toNat) := by
    rw [region_take mem (some cfgDesc) (Nat.le_trans hmin hle), hmem, UconfigDescriptor.blob,
      List.take_take, Nat.min_eq_left hmin]
  rw [UconfigDescriptor.getConfigDescriptor, hsize]
  generalize hn : min setup.wLength.toNat d.wTotalLength.toNat = n at hmin hregion
  rw [← hregion]
  rcases Nat.eq_zero_or_pos n with hzero | hn
  · have hempty : region mem (some cfgDesc) n = [] := by
      rw [hregion, hzero, List.take_zero]
    rw [hempty, hzero]
    exact rtUsbdEp0Write_replies_empty hpos h16 rfl
  · refine rtUsbdEp0Write_replies hpos h16 hn ?_ rfl (by omega)
    rw [hregion, UconfigDescriptor.blob, List.take_take, List.length_take]
    omega

/-- A walk from a new configuration over some functions leads to a configuration as it should be
exactly if the interfaces were counted right and no two endpoints were given one address. -/
theorem ConfigWalk.Copies.assembled_iff {value : UInt8} {funcs : List ConfigFunction}
    {cfg : Uconfig} {epPool : List EpId}
    (h : ConfigWalk.Copies
      ⟨pool, { rtUsbdConfigNew.cfgDesc with bConfigurationValue := value }⟩
      ⟨epPool, cfg.cfgDesc⟩ (interfacesOf funcs) (interfacesOf cfg.funcList)) :
    cfg.Assembled value funcs ↔ (interfacesOf funcs).length < 256 ∧
      (givenAddresses pool [] (poolEpsOf (interfacesOf funcs))).Nodup := by
  have hset := isSome_of_keeps h.keeps
  have hfits := h.growing.fits
  have htotal : cfg.cfgDesc.wTotalLength.toNat =
      9 + (descsOf (interfacesOf cfg.funcList)).length := h.wTotalLength
  have hcount : cfg.cfgDesc.bNumInterfaces.toNat = (interfacesOf funcs).length % 256 := by
    rw [h.bNumInterfaces]
    exact (congrArg UInt8.toNat (UInt8.zero_add _)).trans UInt8.toNat_ofNat'
  have hblob : cfg.cfgDesc.blob =
      cfg.cfgDesc.header ++ descsOf (interfacesOf cfg.funcList) := by
    have hdata : cfg.cfgDesc.data =
      blit (List.replicate 256 0) 0 (descsOf (interfacesOf cfg.funcList)) := h.data
    have hheader : cfg.cfgDesc.header.length = 9 := rfl
    rw [UconfigDescriptor.blob, UconfigDescriptor.bytes, hdata, htotal, ← hheader,
      List.take_length_add_append, blit, List.take_zero, List.nil_append, List.take_left]
  have haddresses : addressesOf (interfacesOf cfg.funcList) =
      givenAddresses pool [] (poolEpsOf (interfacesOf funcs)) :=
    h.addresses.trans (assignAll_eq _ [] fun other => rfl)
  rw [← haddresses, ← found_iff hset rfl hblob]
  constructor
  · intro hassembled
    refine ⟨?_, hassembled.found⟩
    rw [← hassembled.bNumInterfaces]
    exact cfg.cfgDesc.bNumInterfaces.toNat_lt
  · rintro ⟨hsmall, hfound⟩
    refine ⟨?_, hblob, ?_, hcount.trans (Nat.mod_eq_of_lt hsmall), h.keeps, hfound,
      h.growing.array, UconfigDescriptor.answers ?_⟩
    · rw [UconfigDescriptor.header, show cfg.cfgDesc.bLength = 9 from h.bLength,
        show cfg.cfgDesc.type = 2 from h.type,
        show cfg.cfgDesc.bConfigurationValue = value from h.bConfigurationValue,
        show cfg.cfgDesc.iConfiguration = 0 from h.iConfiguration,
        show cfg.cfgDesc.bmAttributes = 0xC0 from h.bmAttributes,
        show cfg.cfgDesc.maxPower = 0x32 from h.maxPower]
    · rw [hblob, List.length_append, htotal]
      rfl
    · have hbytes : cfg.cfgDesc.bytes.length = 9 + cfg.cfgDesc.data.length :=
        List.length_append
      rw [hbytes, h.growing.array]
      exact hfits

/-- The configuration holds the functions in the order of their registration. -/
theorem configOf_eq (funcs : List ConfigFunction) :
    configOf funcs = { rtUsbdConfigNew with funcList := funcs } := by
  have hfold (cfg : Uconfig) : funcs.foldl rtUsbdConfigAddFunction cfg =
      { cfg with funcList := cfg.funcList ++ funcs } := by
    induction funcs generalizing cfg with
    | nil => rw [List.foldl_nil, List.append_nil]
    | cons func rest ih =>
      rw [List.foldl_cons, ih, rtUsbdConfigAddFunction, List.append_assoc, List.singleton_append]
  exact hfold rtUsbdConfigNew

/-- For every pool and all functions: a new configuration with these functions is added, and is then
as it should be, exactly if they are `Assemblable`. -/
theorem config_assembled_iff (device : ConfigDevice) (funcs : List ConfigFunction) :
    (∃ device' cfg, rtUsbdDeviceAddConfig device (configOf funcs) = .ok device' ∧
        device'.cfgList = device.cfgList ++ [cfg] ∧
        cfg.Assembled (device.bNumConfigurations + 1) funcs) ↔
      Assemblable device.epPool funcs := by
  generalize hvalue : device.bNumConfigurations + 1 = value
  have hgrowing : UconfigDescriptor.Growing
      { rtUsbdConfigNew.cfgDesc with bConfigurationValue := value } :=
    ⟨List.length_replicate, Nat.le_refl 9, show (9 : BitVec 16).toNat ≤ 265 by decide⟩
  have hwalks := addFunctions_walks
    (w := ⟨device.epPool, { rtUsbdConfigNew.cfgDesc with bConfigurationValue := value }⟩)
    hgrowing funcs
  have hfits : (9 : BitVec 16).toNat + (descsOf (interfacesOf funcs)).length ≤ 265 ↔
      (descsOf (interfacesOf funcs)).length ≤ 256 := by
    have : (9 : BitVec 16).toNat = 9 := rfl
    omega
  rw [configOf_eq, rtUsbdDeviceAddConfig, hvalue]
  simp only
  cases hresult : addFunctions
    ⟨device.epPool, { rtUsbdConfigNew.cfgDesc with bConfigurationValue := value }⟩ funcs with
  | error fault =>
    rw [hresult] at hwalks
    refine iff_of_false ?_ fun h => ?_
    · rintro ⟨device', cfg, heq, -⟩
      cases heq
    · obtain ⟨r, heq⟩ := hwalks.succeeds_iff.mpr ⟨h.set, hfits.mpr h.fits⟩
      cases heq
  | ok r =>
    rw [hresult] at hwalks
    have hcopies := hwalks.copies r.1 (interfacesOf r.2) rfl
    have hassembled : Uconfig.Assembled ⟨r.1.cfgDesc, r.2⟩ value funcs ↔ _ :=
      ConfigWalk.Copies.assembled_iff hcopies
    obtain ⟨hset, hle⟩ := hwalks.succeeds_iff.mp ⟨_, rfl⟩
    constructor
    · rintro ⟨device', cfg, heq, hlist, hcfg⟩
      cases heq
      cases List.append_cancel_left hlist
      obtain ⟨hcounted, hdistinct⟩ := hassembled.mp hcfg
      exact ⟨hset, hfits.mp hle, hcounted, hdistinct⟩
    · intro h
      exact ⟨_, _, rfl, rfl, hassembled.mpr ⟨h.counted, h.distinct⟩⟩

/-- Five functions with an interface of 58 bytes each: the fifth is copied past the array. -/
theorem config_overflows :
    let intf : ConfigInterface := ⟨some ⟨List.replicate 58 0, [], List.forall_mem_nil _, .nil⟩⟩
    let device : ConfigDevice := ⟨0, epPool, []⟩
    rtUsbdDeviceAddConfig device (configOf (List.replicate 5 ⟨[intf]⟩)) = .error .overflow ∧
      ¬∃ device' cfg,
        rtUsbdDeviceAddConfig device (configOf (List.replicate 5 ⟨[intf]⟩)) = .ok device' ∧
          device'.cfgList = device.cfgList ++ [cfg] ∧
          cfg.Assembled (device.bNumConfigurations + 1) (List.replicate 5 ⟨[intf]⟩) := by
  intro intf device
  have hfault : rtUsbdDeviceAddConfig device (configOf (List.replicate 5 ⟨[intf]⟩)) =
    .error .overflow := rfl
  refine ⟨hfault, ?_⟩
  rintro ⟨device', cfg, heq, -⟩
  rw [hfault] at heq
  cases heq

end RtVcom.Usb

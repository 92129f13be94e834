import RtVcom.Kernel.MessageQueue

/-!
# What a message queue keeps

The two lists of a message queue, and the nodes that are in neither because a call holds them
(`MqLists`): what each critical section does with them is one lemma each. Over them the invariant
of the runs, with the messages the nodes hold.

**The law** (`mq_conserves`): every node of the pool is free, a message, or held by one call;
the messages leave in the order they were linked in, the urgent ones in front, each once and with
the bytes that were sent. A reset is the one way to leave without being received
(`mq_reset_discards`).
-/

namespace RtVcom.Kernel

open RtVcom.Lib

/-! ## The lists -/

/-- The lists of the free nodes and of the messages, and the nodes in transit. -/
structure MqLists (mq : RtMq) (transit free messages : List Nat) : Prop where
  freeList : Linked mq.next mq.msgQueueFree free
  messageList : Linked mq.next mq.msgQueueHead messages
  tail : mq.msgQueueTail = messages.getLast?
  nodes : (free ++ messages ++ transit).Perm (List.range mq.maxMsgs)

/-- Only the pointer of the last message changes. -/
theorem RtMq.linkTail_next {mq : RtMq} {msg n : Nat} (h : mq.msgQueueTail ≠ some n) :
    (mq.linkTail msg).next n = mq.next n := by
  unfold RtMq.linkTail RtMq.countUp
  cases htail : mq.msgQueueTail with
  | none => rfl
  | some tail =>
    have hne : n ≠ tail := fun heq => h (heq ▸ htail)
    exact Function.update_of_ne hne ..

namespace MqLists

variable {mq : RtMq} {transit transit' free messages : List Nat} {msg : Nat}

theorem nodup (h : MqLists mq transit free messages) : (free ++ messages ++ transit).Nodup :=
  h.nodes.nodup_iff.mpr List.nodup_range

/-- A node in transit is in no list. -/
theorem not_mem_of_transit (h : MqLists mq transit free messages) (hmsg : msg ∈ transit) :
    msg ∉ free ∧ msg ∉ messages := by
  have hdisjoint := List.disjoint_of_nodup_append h.nodup
  constructor
  · exact fun hmem => hdisjoint (List.mem_append_left messages hmem) hmsg
  · exact fun hmem => hdisjoint (List.mem_append_right free hmem) hmsg

/-- There are no more messages than nodes. -/
theorem length_messages_le (h : MqLists mq transit free messages) :
    messages.length ≤ mq.maxMsgs := by
  have hlength := h.nodes.length_eq
  simp only [List.length_append, List.length_range] at hlength
  omega

/-- `msg->next` of a node in transit. -/
theorem setNext (h : MqLists mq transit free messages) (hmsg : msg ∈ transit)
    (p : Option Nat) :
    MqLists { mq with next := Function.update mq.next msg p } transit free messages :=
  have hout := h.not_mem_of_transit hmsg
  ⟨h.freeList.update hout.1, h.messageList.update hout.2, h.tail, h.nodes⟩

/-- The first free node is taken. -/
theorem takeFree (h : MqLists mq transit free messages) (hfree : mq.msgQueueFree = some msg)
    (htransit : transit'.Perm (msg :: transit)) :
    ∃ rest, free = msg :: rest ∧
      MqLists { mq with msgQueueFree := mq.next msg } transit' rest messages := by
  obtain ⟨rest, rfl, hrest⟩ := (hfree ▸ h.freeList).pop
  refine ⟨rest, rfl, hrest, h.messageList, h.tail, List.Perm.trans ?_ h.nodes⟩
  apply (htransit.append_left (rest ++ messages)).trans
  exact List.perm_middle

/-- A node is freed. -/
theorem putFree (h : MqLists mq transit free messages)
    (htransit : transit.Perm (msg :: transit')) :
    MqLists (mq.putFree msg) transit' (msg :: free) messages := by
  have hout := h.not_mem_of_transit (htransit.mem_iff.mpr List.mem_cons_self)
  refine ⟨h.freeList.push hout.1, h.messageList.update hout.2, h.tail, List.Perm.trans ?_ h.nodes⟩
  refine List.Perm.trans ?_ (htransit.symm.append_left (free ++ messages))
  exact List.perm_middle.symm

/-- A message is linked behind the others. -/
theorem linkTail (h : MqLists mq transit free messages)
    (htransit : transit.Perm (msg :: transit')) (hnext : mq.next msg = none) :
    MqLists (mq.linkTail msg) transit' free (messages ++ [msg]) := by
  have hout := h.not_mem_of_transit (htransit.mem_iff.mpr List.mem_cons_self)
  have hnodes : (free ++ (messages ++ [msg]) ++ transit').Perm (List.range mq.maxMsgs) := by
    refine List.Perm.trans ?_ h.nodes
    refine List.Perm.trans ?_ (htransit.symm.append_left (free ++ messages))
    rw [← List.append_assoc, List.append_assoc (free ++ messages)]
    exact List.Perm.refl _
  have htail := h.tail
  rcases List.eq_nil_or_concat messages with rfl | ⟨front, last, rfl⟩
  · -- the list was empty: the message is its head too
    have hhead : mq.msgQueueHead = none := h.messageList
    simp only [List.getLast?_nil] at htail
    constructor
    case freeList =>
      dsimp only [RtMq.linkTail, RtMq.countUp]
      rw [htail]
      exact h.freeList
    case messageList =>
      dsimp only [RtMq.linkTail, RtMq.countUp]
      rw [hhead, htail, if_pos rfl]
      exact ⟨rfl, hnext⟩
    case tail => rfl
    case nodes => exact hnodes
  · rw [List.concat_eq_append] at *
    rw [List.getLast?_concat] at htail
    have hnodup := h.nodup
    have hfirst : mq.msgQueueHead ≠ none := by
      intro hnone
      have hnil := (h.messageList.eq_nil_iff).mpr hnone
      exact List.append_ne_nil_of_right_ne_nil front (List.cons_ne_nil last []) hnil
    have hmessages : (front ++ [last]).Nodup := by
      rw [List.append_assoc] at hnodup
      exact (List.nodup_append.mp (List.nodup_append.mp hnodup).2.1).1
    have hlast : last ∉ front := by
      intro hmem
      exact (List.disjoint_of_nodup_append hmessages) hmem List.mem_cons_self
    have hlastFree : last ∉ free := by
      intro hmem
      have hdisjoint := List.disjoint_of_nodup_append (List.nodup_append.mp hnodup).1
      exact hdisjoint hmem (List.mem_append_right front List.mem_cons_self)
    constructor
    case freeList =>
      dsimp only [RtMq.linkTail, RtMq.countUp]
      rw [htail]
      exact h.freeList.update hlastFree
    case messageList =>
      dsimp only [RtMq.linkTail, RtMq.countUp]
      rw [htail, if_neg hfirst, List.append_assoc]
      exact h.messageList.append hlast hout.2 hnext
    case tail => exact (List.getLast?_concat ..).symm
    case nodes => exact hnodes

/-- A message is linked in front of the others. -/
theorem linkHead (h : MqLists mq transit free messages)
    (htransit : transit.Perm (msg :: transit')) :
    MqLists (mq.linkHead msg) transit' free (msg :: messages) := by
  have hout := h.not_mem_of_transit (htransit.mem_iff.mpr List.mem_cons_self)
  constructor
  case freeList => exact h.freeList.update hout.1
  case messageList => exact h.messageList.push hout.2
  case tail =>
    have htail := h.tail
    dsimp only [RtMq.linkHead, RtMq.countUp]
    cases messages with
    | nil =>
      rw [htail]
      rfl
    | cons first rest =>
      rw [htail, if_neg (by simp), List.getLast?_cons_cons]
  case nodes =>
    refine List.Perm.trans ?_ h.nodes
    refine List.Perm.trans ?_ (htransit.symm.append_left (free ++ messages))
    rw [List.perm_iff_count]
    intro n
    simp only [List.count_append, List.count_cons]
    omega

/-- The first message is detached. -/
theorem unlink (h : MqLists mq transit free messages) (hhead : mq.msgQueueHead = some msg)
    (htransit : transit'.Perm (msg :: transit)) :
    ∃ rest, messages = msg :: rest ∧ MqLists (mq.unlink msg) transit' free rest := by
  obtain ⟨rest, rfl, hrest⟩ := (hhead ▸ h.messageList).pop
  refine ⟨rest, rfl, h.freeList, hrest, ?_, ?_⟩
  · have htail := h.tail
    dsimp only [RtMq.unlink]
    cases rest with
    | nil =>
      rw [htail, List.getLast?_singleton, if_pos rfl]
      rfl
    | cons second others =>
      have hne : msg ≠ (second :: others).getLast (List.cons_ne_nil _ _) := by
        intro heq
        have hnodup := (List.nodup_append.mp (List.nodup_append.mp h.nodup).1).2.1
        have hmem := List.getLast_mem (List.cons_ne_nil second others)
        exact (List.nodup_cons.mp hnodup).1 (heq ▸ hmem)
      rw [htail, List.getLast?_cons_cons, List.getLast?_eq_getLast_of_ne_nil (List.cons_ne_nil _ _),
        if_neg]
      exact fun heq => hne (Option.some.inj heq).symm
  · refine List.Perm.trans ?_ h.nodes
    apply (htransit.append_left (free ++ rest)).trans
    rw [List.perm_iff_count]
    intro n
    simp only [List.count_append, List.count_cons]
    omega

/-- The loop of a reset frees every message, and touches no other node. -/
theorem release {fuel : Nat} (h : MqLists mq transit free messages)
    (hfuel : messages.length ≤ fuel) :
    MqLists (mq.release fuel) transit (messages.reverse ++ free) [] ∧
      (∀ n ∈ transit, (mq.release fuel).next n = mq.next n) ∧
      (mq.release fuel).bytes = mq.bytes ∧ (mq.release fuel).msgSize = mq.msgSize ∧
      (mq.release fuel).maxMsgs = mq.maxMsgs := by
  induction fuel generalizing mq free messages with
  | zero =>
    obtain rfl := List.eq_nil_of_length_eq_zero (Nat.le_zero.mp hfuel)
    exact ⟨h, fun _ _ => rfl, rfl, rfl, rfl⟩
  | succ fuel ih =>
    unfold RtMq.release
    cases hhead : mq.msgQueueHead with
    | none =>
      obtain rfl := (h.messageList.eq_nil_iff).mpr hhead
      exact ⟨h, fun _ _ => rfl, rfl, rfl, rfl⟩
    | some msg =>
      obtain ⟨rest, rfl, hunlinked⟩ := h.unlink hhead (List.Perm.refl _)
      obtain ⟨hfreed, hnext, hfields⟩ :=
        ih (hunlinked.putFree (List.Perm.refl _)) (Nat.le_of_succ_le_succ hfuel)
      refine ⟨?_, ?_, hfields⟩
      · rw [List.reverse_cons, List.append_assoc]
        exact hfreed
      · intro n hn
        have hne : n ≠ msg := by
          rintro rfl
          exact (h.not_mem_of_transit hn).2 List.mem_cons_self
        exact (hnext n hn).trans (Function.update_of_ne hne ..)

end MqLists

/-! ## The law -/

/-- The bytes of a node begin with the message. -/
def RtMq.Holds (mq : RtMq) (msg : Nat) (message : List (BitVec 8)) : Prop :=
  message.length ≤ mq.msgSize ∧ ∀ i byte, message[i]? = some byte → mq.bytes msg i = byte

/-- What was received is the message, as far as the buffer and the message go. -/
structure MqReceipt.Faithful (r : MqReceipt) (msgSize : Nat) : Prop where
  length : r.got.length = min r.size msgSize
  fits : r.message.bytes.length ≤ msgSize
  bytes : r.got.take r.message.bytes.length = r.message.bytes.take r.got.length

namespace MqSystem

/-- The nodes that are held by calls. -/
def transit (s : MqSystem) : List Nat :=
  s.sending.map MqSending.node ++ s.receiving.map MqReceiving.node

/-- The law of the queue: every node is in one place, the count and the pointers agree with the
messages, what the queue took and gave is a history of a double-ended queue that ends with the
messages, no message is given twice, and what was given and put back is what was sent. -/
structure Conserved (s : MqSystem) (free messages : List Nat) : Prop where
  lists : MqLists s.mq s.transit free messages
  entry : s.mq.entry = messages.length
  empty : s.mq.msgQueueHead = none ↔ s.mq.msgQueueTail = none
  order : DequeEvent.replay [] s.events = some (messages.map s.content)
  serials : (s.events.filterMap DequeEvent.taken).map MqMessage.serial = List.range s.linked
  once : (s.events.filterMap DequeEvent.given ++ messages.map s.content).Nodup
  given : (s.events.filterMap DequeEvent.given).Perm
    (s.receipts.map MqReceipt.message ++ s.receiving.map MqReceiving.message)
  receipts : ∀ r ∈ s.receipts, r.Faithful s.mq.msgSize

end MqSystem

/-! ## The invariant -/

/-- A sender's node holds what was copied, and its pointer was cleared. -/
structure MqSending.Prepared (f : MqSending) (mq : RtMq) : Prop where
  fits : f.buffer.length ≤ mq.msgSize
  copied : f.copied ≤ f.buffer.length
  bytes : ∀ i byte, i < f.copied → f.buffer[i]? = some byte → mq.bytes f.node i = byte
  cleared : f.cleared = true → mq.next f.node = none

/-- A receiver's node holds the message, and it has copied what the node holds. -/
structure MqReceiving.Reading (f : MqReceiving) (mq : RtMq) : Prop where
  holds : mq.Holds f.node f.message.bytes
  got : ∀ i byte, f.got[i]? = some byte → mq.bytes f.node i = byte

/-- A node that is prepared stays so where its bytes and its link do. -/
theorem MqSending.Prepared.of_eq {f : MqSending} {mq mq' : RtMq} (h : f.Prepared mq)
    (hsize : mq'.msgSize = mq.msgSize) (hbytes : mq'.bytes f.node = mq.bytes f.node)
    (hnext : mq'.next f.node = mq.next f.node) : f.Prepared mq' where
  fits := hsize ▸ h.fits
  copied := h.copied
  bytes := hbytes ▸ h.bytes
  cleared := hnext ▸ h.cleared

/-- A node holds its message where its bytes stay. -/
theorem RtMq.Holds.of_eq {mq mq' : RtMq} {msg : Nat} {message : List (BitVec 8)}
    (h : mq.Holds msg message) (hsize : mq'.msgSize = mq.msgSize)
    (hbytes : mq'.bytes msg = mq.bytes msg) : mq'.Holds msg message :=
  ⟨hsize ▸ h.1, hbytes ▸ h.2⟩

/-- A node is read on where its bytes stay. -/
theorem MqReceiving.Reading.of_eq {f : MqReceiving} {mq mq' : RtMq} (h : f.Reading mq)
    (hsize : mq'.msgSize = mq.msgSize) (hbytes : mq'.bytes f.node = mq.bytes f.node) :
    f.Reading mq' :=
  ⟨h.holds.of_eq hsize hbytes, hbytes ▸ h.got⟩

/-- The invariant of the queue. -/
structure MqInv (s : MqSystem) (free messages : List Nat) : Prop where
  lists : MqLists s.mq s.transit free messages
  entry : s.mq.entry = messages.length
  field : s.mq.maxMsgs < mqFieldMod
  holds : ∀ msg ∈ messages, s.mq.Holds msg (s.content msg).bytes
  sending : ∀ f ∈ s.sending, f.Prepared s.mq
  receiving : ∀ f ∈ s.receiving, f.Reading s.mq
  order : DequeEvent.replay [] s.events = some (messages.map s.content)
  serials : (s.events.filterMap DequeEvent.taken).map MqMessage.serial = List.range s.linked
  given : (s.events.filterMap DequeEvent.given).Perm
    (s.receipts.map MqReceipt.message ++ s.receiving.map MqReceiving.message)
  receipts : ∀ r ∈ s.receipts, r.Faithful s.mq.msgSize

/-- What is left when one element is taken out of a list of different keys has other keys. -/
theorem mem_erase_key {β : Type} [DecidableEq β] {key : β → Nat} {list : List β} {f g : β}
    (hnodup : (list.map key).Nodup) (hf : f ∈ list) (hg : g ∈ list.erase f) :
    g ∈ list ∧ key g ≠ key f := by
  have hperm := (List.perm_cons_erase hf).map key
  have hout := (List.nodup_cons.mp (hperm.nodup_iff.mp hnodup)).1
  exact ⟨List.mem_of_mem_erase hg, fun heq => hout (heq ▸ List.mem_map_of_mem hg)⟩

/-- Two lists that agree where both go are the same as far as both go. -/
theorem take_eq_take {β : Type} {list other : List β}
    (h : ∀ (i : Nat) (a b : β), list[i]? = some a → other[i]? = some b → a = b) :
    list.take other.length = other.take list.length := by
  induction list generalizing other with
  | nil => rw [List.take_nil, List.length_nil, List.take_zero]
  | cons a list ih =>
    cases other with
    | nil => rw [List.take_nil, List.length_nil, List.take_zero]
    | cons b other =>
      rw [List.length_cons, List.length_cons, List.take_succ_cons, List.take_succ_cons,
        h 0 a b rfl rfl, ih fun i a b hl ho => h (i + 1) a b hl ho]

namespace MqInv

variable {s : MqSystem} {free messages : List Nat}

/-- A node that a sender holds: no list, no receiver and no other sender has it. -/
theorem sender_alone (h : MqInv s free messages) {f : MqSending} (hf : f ∈ s.sending) :
    f.node ∈ s.transit ∧ (∀ g ∈ s.sending.erase f, g ∈ s.sending ∧ g.node ≠ f.node) ∧
      ∀ g ∈ s.receiving, g.node ≠ f.node := by
  have htransit : (s.sending.map MqSending.node ++ s.receiving.map MqReceiving.node).Nodup :=
    (List.nodup_append.mp h.lists.nodup).2.1
  have hmem := List.mem_map_of_mem (f := MqSending.node) hf
  refine ⟨List.mem_append_left _ hmem, ?_, ?_⟩
  · exact fun g hg => mem_erase_key (List.nodup_append.mp htransit).1 hf hg
  · intro g hg heq
    exact List.disjoint_of_nodup_append htransit hmem (heq ▸ List.mem_map_of_mem hg)

/-- The same for a receiver. -/
theorem receiver_alone (h : MqInv s free messages) {f : MqReceiving} (hf : f ∈ s.receiving) :
    f.node ∈ s.transit ∧ (∀ g ∈ s.receiving.erase f, g ∈ s.receiving ∧ g.node ≠ f.node) ∧
      ∀ g ∈ s.sending, g.node ≠ f.node := by
  have htransit : (s.sending.map MqSending.node ++ s.receiving.map MqReceiving.node).Nodup :=
    (List.nodup_append.mp h.lists.nodup).2.1
  have hmem := List.mem_map_of_mem (f := MqReceiving.node) hf
  refine ⟨List.mem_append_right _ hmem, ?_, ?_⟩
  · exact fun g hg => mem_erase_key (List.nodup_append.mp htransit).2.1 hf hg
  · intro g hg heq
    exact List.disjoint_of_nodup_append htransit (heq ▸ List.mem_map_of_mem hg) hmem

/-- A change that leaves the books alone: of the waiting receivers, the returns, the tick. -/
theorem quiet (h : MqInv s free messages) {t : MqSystem} {list : List MqCall}
    (hmq : t.mq = { s.mq with suspendThread := list }) (hsending : t.sending = s.sending)
    (hreceiving : t.receiving = s.receiving) (hcontent : t.content = s.content)
    (hlinked : t.linked = s.linked) (hevents : t.events = s.events)
    (hreceipts : t.receipts = s.receipts) : MqInv t free messages := by
  obtain ⟨hlists, hentry, hfield, hholds, hs, hr, horder, hserials, hgiven, hfaithful⟩ := h
  have htransit : t.transit = s.transit := by
    unfold MqSystem.transit
    rw [hsending, hreceiving]
  constructor
  case lists =>
    rw [hmq, htransit]
    exact ⟨hlists.freeList, hlists.messageList, hlists.tail, hlists.nodes⟩
  case entry =>
    rw [hmq]
    exact hentry
  case field =>
    rw [hmq]
    exact hfield
  case holds =>
    rw [hmq, hcontent]
    exact hholds
  case sending =>
    rw [hmq, hsending]
    exact fun f hf => (hs f hf).of_eq rfl rfl rfl
  case receiving =>
    rw [hmq, hreceiving]
    exact fun f hf => (hr f hf).of_eq rfl rfl
  case order =>
    rw [hevents, hcontent]
    exact horder
  case serials =>
    rw [hevents, hlinked]
    exact hserials
  case given =>
    rw [hevents, hreceipts, hreceiving]
    exact hgiven
  case receipts =>
    rw [hmq, hreceipts]
    exact hfaithful

/-! ### The senders -/

/-- A node is taken for a new message. -/
theorem send (h : MqInv s free messages) (caller : Nat) (urgent : Bool)
    (buffer : List (BitVec 8)) : ∃ free', MqInv (s.send caller urgent buffer) free' messages := by
  unfold MqSystem.send
  by_cases hlarge : s.mq.msgSize < buffer.length
  · rw [if_pos hlarge]
    exact ⟨free, h.quiet rfl rfl rfl rfl rfl rfl rfl⟩
  · rw [if_neg hlarge]
    cases hfree : s.mq.msgQueueFree with
    | none => exact ⟨free, h.quiet rfl rfl rfl rfl rfl rfl rfl⟩
    | some msg =>
      have hmoved : ((s.sending ++ [MqSending.mk caller msg urgent buffer false 0]).map
          MqSending.node ++ s.receiving.map MqReceiving.node).Perm (msg :: s.transit) := by
        rw [List.map_append, List.append_assoc]
        exact List.perm_middle
      obtain ⟨rest, -, hlists⟩ := h.lists.takeFree hfree hmoved
      refine ⟨rest, { h with lists := hlists, sending := ?_, receiving := ?_ }⟩
      · intro f hf
        rcases List.mem_append.mp hf with hf | hf
        · exact (h.sending f hf).of_eq rfl rfl rfl
        · obtain rfl := List.mem_singleton.mp hf
          exact ⟨Nat.le_of_not_lt hlarge, Nat.zero_le _,
            fun i _ hi => absurd hi (Nat.not_lt_zero i), fun hcleared => (by cases hcleared)⟩
      · exact fun f hf => (h.receiving f hf).of_eq rfl rfl

/-- What a sender does with its own node between its critical sections. -/
theorem sender_step (h : MqInv s free messages) {f : MqSending} (hf : f ∈ s.sending)
    (f' : MqSending) (hnode : f'.node = f.node) {mq : RtMq}
    (hlists : MqLists mq s.transit free messages)
    (hentry : mq.entry = s.mq.entry) (hmax : mq.maxMsgs = s.mq.maxMsgs)
    (hsize : mq.msgSize = s.mq.msgSize)
    (hbytes : ∀ msg, msg ≠ f.node → mq.bytes msg = s.mq.bytes msg)
    (hnext : ∀ msg, msg ≠ f.node → mq.next msg = s.mq.next msg) (hprepared : f'.Prepared mq) :
    MqInv { s with mq, sending := s.sending.erase f ++ [f'] } free messages := by
  obtain ⟨hmem, hothers, hreceivers⟩ := h.sender_alone hf
  have hperm : ((s.sending.erase f ++ [f']).map MqSending.node ++
      s.receiving.map MqReceiving.node).Perm s.transit := by
    apply List.Perm.append_right _
    rw [List.map_append, List.map_singleton, hnode]
    apply (List.perm_append_singleton _ _).trans
    exact ((List.perm_cons_erase hf).map MqSending.node).symm
  constructor
  case lists =>
    refine ⟨hlists.freeList, hlists.messageList, hlists.tail, List.Perm.trans ?_ hlists.nodes⟩
    exact hperm.append_left _
  case entry => exact hentry.trans h.entry
  case field => exact hmax ▸ h.field
  case holds =>
    intro msg hmsg
    have hne : msg ≠ f.node := by
      rintro rfl
      exact (h.lists.not_mem_of_transit hmem).2 hmsg
    exact (h.holds msg hmsg).of_eq hsize (hbytes msg hne)
  case sending =>
    intro g hg
    rcases List.mem_append.mp hg with hg | hg
    · obtain ⟨hgmem, hne⟩ := hothers g hg
      exact (h.sending g hgmem).of_eq hsize (hbytes _ hne) (hnext _ hne)
    · obtain rfl := List.mem_singleton.mp hg
      exact hprepared
  case receiving =>
    intro g hg
    exact (h.receiving g hg).of_eq hsize (hbytes _ (hreceivers g hg))
  case order => exact h.order
  case serials => exact h.serials
  case given => exact h.given
  case receipts => exact hsize ▸ h.receipts

/-- Clearing the link of a node that is being sent keeps the invariant. -/
theorem clear (h : MqInv s free messages) {f : MqSending} (hf : f ∈ s.sending) :
    MqInv (s.clear f) free messages := by
  have hprepared := h.sending f hf
  refine h.sender_step hf { f with cleared := true } rfl
    (h.lists.setNext (h.sender_alone hf).1 none) rfl rfl rfl (fun _ _ => rfl)
    (fun msg hne => Function.update_of_ne hne ..) ?_
  exact ⟨hprepared.fits, hprepared.copied, hprepared.bytes, fun _ => Function.update_self ..⟩

theorem copyIn (h : MqInv s free messages) {f : MqSending} (hf : f ∈ s.sending)
    (hmore : f.copied < f.buffer.length) : MqInv (s.copyIn f) free messages := by
  have hprepared := h.sending f hf
  have hlists : MqLists (s.mq.store f.node f.copied (f.buffer.getD f.copied 0)) s.transit free
      messages :=
    ⟨h.lists.freeList, h.lists.messageList, h.lists.tail, h.lists.nodes⟩
  refine h.sender_step hf { f with copied := f.copied + 1 } rfl hlists rfl rfl rfl
    (fun msg hne => Function.update_of_ne hne ..) (fun _ _ => rfl) ?_
  refine ⟨hprepared.fits, hmore, ?_, hprepared.cleared⟩
  intro i byte hi hbyte
  dsimp only [RtMq.store]
  rw [Function.update_self]
  by_cases hlast : i = f.copied
  · subst hlast
    rw [Function.update_self, List.getD_eq_getElem?_getD, hbyte]
    rfl
  · rw [Function.update_of_ne hlast]
    exact hprepared.bytes i byte (by dsimp only at hi; omega) hbyte

/-- A message is linked, wherever in the list. -/
theorem linked (h : MqInv s free messages) {f : MqSending} (hf : f ∈ s.sending) {mq : RtMq}
    {messages' : List Nat} {e : DequeEvent MqMessage} (hperm : messages'.Perm (f.node :: messages))
    (hlists : MqLists mq
      ((s.sending.erase f).map MqSending.node ++ s.receiving.map MqReceiving.node) free messages')
    (hentry : mq.entry = (s.mq.entry + 1) % mqFieldMod) (hmax : mq.maxMsgs = s.mq.maxMsgs)
    (hsize : mq.msgSize = s.mq.msgSize) (hbytes : mq.bytes = s.mq.bytes)
    (hnext : ∀ g ∈ s.sending.erase f, mq.next g.node = s.mq.next g.node)
    (hcopied : f.copied = f.buffer.length)
    (htaken : e.taken = some { serial := s.linked, bytes := f.buffer }) (hgiven : e.given = none)
    (hstep : DequeEvent.step (messages.map s.content) e = some (messages'.map
      (Function.update s.content f.node { serial := s.linked, bytes := f.buffer }))) :
    MqInv
      { s with
          mq
          sending := s.sending.erase f
          content :=
            Function.update s.content f.node { serial := s.linked, bytes := f.buffer }
          linked := s.linked + 1
          events := s.events ++ [e] } free messages' := by
  obtain ⟨hmem, hothers, hreceivers⟩ := h.sender_alone hf
  have hout := (h.lists.not_mem_of_transit hmem).2
  have hprepared := h.sending f hf
  constructor
  case lists => exact hlists
  case entry =>
    have hlength := hperm.length_eq
    have hfit := hlists.length_messages_le
    have hfield := h.field
    have hcount := h.entry
    rw [List.length_cons] at hlength
    rw [hentry, Nat.mod_eq_of_lt (by omega)]
    omega
  case field => exact hmax ▸ h.field
  case holds =>
    intro msg hmsg
    dsimp only
    rcases List.mem_cons.mp (hperm.mem_iff.mp hmsg) with rfl | hmsg
    · -- the new message: all its bytes were copied
      rw [Function.update_self]
      refine ⟨hsize ▸ hprepared.fits, ?_⟩
      intro i byte hbyte
      rw [hbytes]
      refine hprepared.bytes i byte ?_ hbyte
      obtain ⟨hi, -⟩ := List.getElem?_eq_some_iff.mp hbyte
      exact hcopied ▸ hi
    · have hne : msg ≠ f.node := fun heq => hout (heq ▸ hmsg)
      rw [Function.update_of_ne hne]
      exact (h.holds msg hmsg).of_eq hsize (congrFun hbytes msg)
  case sending =>
    intro g hg
    exact (h.sending g (hothers g hg).1).of_eq hsize (congrFun hbytes _) (hnext g hg)
  case receiving =>
    exact fun g hg => (h.receiving g hg).of_eq hsize (congrFun hbytes _)
  case order => exact (DequeEvent.replay_concat h.order e).trans hstep
  case serials =>
    rw [List.filterMap_append, List.map_append, h.serials, List.range_succ]
    simp only [List.filterMap_cons, htaken, List.filterMap_nil, List.map_cons, List.map_nil]
  case given =>
    rw [List.filterMap_append]
    simp only [List.filterMap_cons, hgiven, List.filterMap_nil, List.append_nil]
    exact h.given
  case receipts => exact hsize ▸ h.receipts

theorem resume (h : MqInv s free messages) : MqInv s.resume free messages := by
  unfold MqSystem.resume
  split
  · exact h
  · exact h.quiet rfl rfl rfl rfl rfl rfl rfl

theorem link (h : MqInv s free messages) {f : MqSending} (hf : f ∈ s.sending)
    (hcopies : f.Copies) (hcopied : f.copied = f.buffer.length) :
    ∃ messages', MqInv (s.link f) free messages' := by
  obtain ⟨hmem, hothers, -⟩ := h.sender_alone hf
  have hout := (h.lists.not_mem_of_transit hmem).2
  have htransit : s.transit.Perm (f.node ::
      ((s.sending.erase f).map MqSending.node ++ s.receiving.map MqReceiving.node)) :=
    ((List.perm_cons_erase hf).map MqSending.node).append_right _
  have hcontent (message : MqMessage) :
      messages.map (Function.update s.content f.node message) = messages.map s.content := by
    refine List.map_congr_left fun msg hmsg => ?_
    have hne : msg ≠ f.node := fun heq => hout (heq ▸ hmsg)
    exact Function.update_of_ne hne ..
  unfold MqSystem.link
  dsimp only
  cases hurgent : f.urgent with
  | true =>
    refine ⟨f.node :: messages, resume ?_ |>.quiet rfl rfl rfl rfl rfl rfl rfl⟩
    refine h.linked hf (List.Perm.refl _) (h.lists.linkHead htransit) rfl rfl rfl rfl ?_ hcopied
      rfl rfl ?_
    · exact fun g hg => Function.update_of_ne (hothers g hg).2 ..
    · rw [List.map_cons, Function.update_self, hcontent]
      rfl
  | false =>
    have hcleared : f.cleared = true :=
      hcopies.resolve_left (by rw [hurgent]; exact Bool.false_ne_true)
    have hnext := (h.sending f hf).cleared hcleared
    refine ⟨messages ++ [f.node], resume ?_ |>.quiet rfl rfl rfl rfl rfl rfl rfl⟩
    refine h.linked hf (List.perm_append_singleton _ _) (h.lists.linkTail htransit hnext) rfl rfl
      rfl rfl ?_ hcopied rfl rfl ?_
    · intro g hg
      apply RtMq.linkTail_next
      intro htail
      have hlast : g.node ∈ messages := List.mem_of_getLast? (h.lists.tail ▸ htail)
      exact (h.lists.not_mem_of_transit (h.sender_alone (hothers g hg).1).1).2 hlast
    · rw [List.map_append, hcontent, List.map_singleton, Function.update_self]
      rfl

/-! ### The receivers -/

/-- What a receiver does with its own node while it copies. -/
theorem copyOut (h : MqInv s free messages) {f : MqReceiving} (hf : f ∈ s.receiving) :
    MqInv (s.copyOut f) free messages := by
  obtain ⟨hmem, hothers, -⟩ := h.receiver_alone hf
  have hmoved {β : Type} (key : MqReceiving → β)
      (hkey : key { f with got := f.got ++ [s.mq.bytes f.node f.got.length] } = key f) :
      ((s.receiving.erase f ++
        [{ f with got := f.got ++ [s.mq.bytes f.node f.got.length] }]).map key).Perm
        (s.receiving.map key) := by
    rw [List.map_append, List.map_singleton, hkey]
    apply (List.perm_append_singleton _ _).trans
    exact ((List.perm_cons_erase hf).map key).symm
  constructor
  case lists =>
    refine ⟨h.lists.freeList, h.lists.messageList, h.lists.tail, ?_⟩
    refine List.Perm.trans (List.Perm.append_left _ ?_) h.lists.nodes
    exact (hmoved MqReceiving.node rfl).append_left _
  case entry => exact h.entry
  case field => exact h.field
  case holds => exact h.holds
  case sending => exact h.sending
  case receiving =>
    intro g hg
    rcases List.mem_append.mp hg with hg | hg
    · exact h.receiving g (hothers g hg).1
    · obtain rfl := List.mem_singleton.mp hg
      refine ⟨(h.receiving f hf).holds, ?_⟩
      intro i byte hbyte
      dsimp only at hbyte ⊢
      rw [List.getElem?_append] at hbyte
      split at hbyte
      · exact (h.receiving f hf).got i byte hbyte
      · next hi =>
        obtain ⟨hlast, hbyte⟩ := List.getElem?_eq_some_iff.mp hbyte
        rw [List.length_singleton] at hlast
        obtain rfl : i = f.got.length := by omega
        rw [← hbyte, List.getElem_singleton]
        rfl
  case order => exact h.order
  case serials => exact h.serials
  case given => exact h.given.trans ((hmoved MqReceiving.message rfl).symm.append_left _)
  case receipts => exact h.receipts

/-- A turn of a waiting receiver may take one. -/
theorem turn (h : MqInv s free messages) (call : MqCall) :
    ∃ messages', MqInv (s.turn call) free messages' := by
  unfold MqSystem.turn
  by_cases hempty : s.mq.entry = 0
  · rw [if_pos hempty]
    split
    · exact ⟨messages, h.quiet rfl rfl rfl rfl rfl rfl rfl⟩
    · exact ⟨messages, h.quiet rfl rfl rfl rfl rfl rfl rfl⟩
  · rw [if_neg hempty]
    cases hhead : s.mq.msgQueueHead with
    | none => exact ⟨messages, h⟩
    | some msg =>
      have hmoved : (s.sending.map MqSending.node ++
          (s.receiving ++ [MqReceiving.mk call.thread msg call.size [] (s.content msg)]).map
            MqReceiving.node).Perm (msg :: s.transit) := by
        rw [List.map_append, ← List.append_assoc]
        exact List.perm_append_singleton _ _
      obtain ⟨rest, rfl, hlists⟩ := h.lists.unlink hhead hmoved
      have hholds := h.holds msg List.mem_cons_self
      refine ⟨rest, ?_⟩
      constructor
      case lists =>
        exact ⟨hlists.freeList, hlists.messageList, hlists.tail, hlists.nodes⟩
      case entry =>
        have hcount := h.entry
        have hfit := h.lists.length_messages_le
        have hfield := h.field
        rw [List.length_cons] at hcount hfit
        dsimp only
        rw [Nat.mod_eq_of_lt (by omega)]
        omega
      case field => exact h.field
      case holds =>
        intro n hn
        exact (h.holds n (List.mem_cons_of_mem msg hn)).of_eq rfl rfl
      case sending => exact fun f hf => (h.sending f hf).of_eq rfl rfl rfl
      case receiving =>
        intro f hf
        rcases List.mem_append.mp hf with hf | hf
        · exact (h.receiving f hf).of_eq rfl rfl
        · obtain rfl := List.mem_singleton.mp hf
          exact ⟨hholds.of_eq rfl rfl, fun i byte hi => (by cases hi)⟩
      case order =>
        apply (DequeEvent.replay_concat h.order _).trans
        exact if_pos rfl
      case serials =>
        rw [List.filterMap_append]
        simp only [List.filterMap_cons, DequeEvent.taken, List.filterMap_nil, List.append_nil]
        exact h.serials
      case given =>
        rw [List.filterMap_append, List.map_append, ← List.append_assoc]
        exact h.given.append_right [s.content msg]
      case receipts => exact h.receipts

/-- A node that was read is free again. -/
theorem putBack (h : MqInv s free messages) {f : MqReceiving} (hf : f ∈ s.receiving)
    (hgot : f.got.length = s.count f.size) : MqInv (s.putBack f) (f.node :: free) messages := by
  obtain ⟨hmem, hothers, hsenders⟩ := h.receiver_alone hf
  have hreading := h.receiving f hf
  have hmoved {β : Type} (key : MqReceiving → β) :
      (s.receiving.map key).Perm (key f :: (s.receiving.erase f).map key) :=
    (List.perm_cons_erase hf).map key
  have htransit : s.transit.Perm (f.node ::
      (s.sending.map MqSending.node ++ (s.receiving.erase f).map MqReceiving.node)) :=
    ((hmoved MqReceiving.node).append_left _).trans List.perm_middle
  constructor
  case lists => exact h.lists.putFree htransit
  case entry => exact h.entry
  case field => exact h.field
  case holds => exact fun msg hmsg => (h.holds msg hmsg).of_eq rfl rfl
  case sending =>
    intro g hg
    exact (h.sending g hg).of_eq rfl rfl (Function.update_of_ne (hsenders g hg) ..)
  case receiving => exact fun g hg => (h.receiving g (hothers g hg).1).of_eq rfl rfl
  case order => exact h.order
  case serials => exact h.serials
  case given =>
    apply h.given.trans
    dsimp only [MqSystem.putBack, MqSystem.returns]
    rw [List.map_append, List.append_assoc]
    exact (hmoved MqReceiving.message).append_left _
  case receipts =>
    intro r hr
    rcases List.mem_append.mp hr with hr | hr
    · exact h.receipts r hr
    · obtain rfl := List.mem_singleton.mp hr
      have hcount : f.got.length = min f.size s.mq.msgSize := by
        rw [hgot]
        unfold MqSystem.count
        split <;> omega
      refine ⟨hcount, hreading.holds.1, ?_⟩
      apply take_eq_take
      intro i byte byte' hbyte hbyte'
      rw [← hreading.got i byte hbyte, ← hreading.holds.2 i byte' hbyte']

/-! ### The reset -/

/-- A reset frees the nodes of all messages. -/
theorem control (h : MqInv s free messages) (cmd : Int) :
    ∃ free' messages', MqInv (s.control cmd) free' messages' := by
  unfold MqSystem.control
  split
  · obtain ⟨hlists, hnext, hbytes, hsize, hmax⟩ := h.lists.release h.lists.length_messages_le
    refine ⟨messages.reverse ++ free, [], ?_⟩
    constructor
    case lists => exact ⟨hlists.freeList, hlists.messageList, hlists.tail, hlists.nodes⟩
    case entry => rfl
    case field => exact hmax ▸ h.field
    case holds => exact fun msg hmsg => (by cases hmsg)
    case sending =>
      intro f hf
      exact (h.sending f hf).of_eq hsize (congrFun hbytes _) (hnext _ (h.sender_alone hf).1)
    case receiving => exact fun f hf => (h.receiving f hf).of_eq hsize (congrFun hbytes _)
    case order => exact (DequeEvent.replay_concat h.order _).trans rfl
    case serials =>
      rw [List.filterMap_append]
      simp only [List.filterMap_cons, DequeEvent.taken, List.filterMap_nil, List.append_nil]
      exact h.serials
    case given =>
      rw [List.filterMap_append]
      simp only [List.filterMap_cons, DequeEvent.given, List.filterMap_nil, List.append_nil]
      exact h.given
    case receipts => exact hsize ▸ h.receipts
  · exact ⟨free, messages, h⟩

end MqInv

/-! ## The runs -/

/-- The loop of the initialisation frees the first nodes, and touches nothing else. -/
theorem RtMq.initFree_eq {mq : RtMq} (hfree : mq.msgQueueFree = none) (n : Nat) :
    Linked (mq.initFree n).next (mq.initFree n).msgQueueFree (List.range n).reverse ∧
      (mq.initFree n).msgQueueHead = mq.msgQueueHead ∧
      (mq.initFree n).msgQueueTail = mq.msgQueueTail ∧
      (mq.initFree n).maxMsgs = mq.maxMsgs ∧ (mq.initFree n).entry = mq.entry := by
  induction n with
  | zero => exact ⟨hfree, rfl, rfl, rfl, rfl⟩
  | succ n ih =>
    have hout : n ∉ (List.range n).reverse := by
      rw [List.mem_reverse, List.mem_range]
      exact Nat.lt_irrefl n
    rw [List.range_succ, List.reverse_append, List.reverse_singleton]
    exact ⟨ih.1.push hout, ih.2⟩

variable {next : Nat → Option Nat} {bytes : Nat → Nat → BitVec 8} {msgSize maxMsgs : Nat}
  {flag : IpcFlag} {tick : BitVec 32} {priority : Nat → Nat}

/-- All nodes are free at the start. -/
theorem mqInv_init : ∃ free, MqInv
    (mqMachine (rtMqMake next bytes msgSize maxMsgs flag) tick priority).init free [] := by
  obtain ⟨hfree, hhead, htail, hmax, hentry⟩ :=
    RtMq.initFree_eq (rfl : (rtMqBlank next bytes msgSize maxMsgs flag).msgQueueFree = none)
      (maxMsgs % mqFieldMod)
  refine ⟨(List.range (maxMsgs % mqFieldMod)).reverse, ?_⟩
  constructor
  case lists =>
    refine ⟨hfree, hhead, htail, ?_⟩
    rw [List.append_nil]
    apply List.Perm.trans (List.Perm.of_eq (List.append_nil _))
    refine (List.reverse_perm _).trans (List.Perm.of_eq ?_)
    exact congrArg List.range hmax.symm
  case entry => exact hentry
  case field =>
    apply Nat.lt_of_le_of_lt (Nat.le_of_eq hmax)
    exact Nat.mod_lt _ (by decide)
  case holds => exact fun msg hmsg => (by cases hmsg)
  case sending => exact fun f hf => (by cases hf)
  case receiving => exact fun f hf => (by cases hf)
  case order => rfl
  case serials => rfl
  case given => exact List.Perm.refl _
  case receipts => exact fun r hr => (by cases hr)

/-- Every step keeps the invariant, with other lists. -/
theorem mqInv_step {mq : RtMq} {s t : MqSystem} {a : MqAction} {free messages : List Nat}
    (h : MqInv s free messages) (hstep : (mqMachine mq tick priority).step s a = some t) :
    ∃ free' messages', MqInv t free' messages' := by
  cases a with
  | send caller urgent buffer =>
    obtain ⟨-, ⟨⟩⟩ := Option.ite_none_right_eq_some.mp hstep
    obtain ⟨free', hsent⟩ := h.send caller urgent buffer
    exact ⟨free', messages, hsent⟩
  | clear caller =>
    obtain ⟨f, hfind, rfl⟩ := Option.map_eq_some_iff.mp hstep
    exact ⟨free, messages, h.clear (List.mem_of_find?_eq_some hfind)⟩
  | copyIn caller =>
    obtain ⟨f, hfind, rfl⟩ := Option.map_eq_some_iff.mp hstep
    have hfound := List.find?_some hfind
    simp only [Bool.and_eq_true, decide_eq_true_eq] at hfound
    exact ⟨free, messages, h.copyIn (List.mem_of_find?_eq_some hfind) hfound.2.2⟩
  | link caller =>
    obtain ⟨f, hfind, rfl⟩ := Option.map_eq_some_iff.mp hstep
    have hfound := List.find?_some hfind
    simp only [Bool.and_eq_true, decide_eq_true_eq] at hfound
    obtain ⟨messages', hlinked⟩ :=
      h.link (List.mem_of_find?_eq_some hfind) hfound.2.1 hfound.2.2
    exact ⟨free, messages', hlinked⟩
  | recv caller size timeout =>
    obtain ⟨-, ⟨⟩⟩ := Option.ite_none_right_eq_some.mp hstep
    obtain ⟨messages', hturned⟩ := h.turn { wait := ipcWait caller timeout, size }
    exact ⟨free, messages', hturned⟩
  | copyOut caller =>
    obtain ⟨f, hfind, rfl⟩ := Option.map_eq_some_iff.mp hstep
    exact ⟨free, messages, h.copyOut (List.mem_of_find?_eq_some hfind)⟩
  | putBack caller =>
    obtain ⟨f, hfind, rfl⟩ := Option.map_eq_some_iff.mp hstep
    have hfound := List.find?_some hfind
    simp only [Bool.and_eq_true, decide_eq_true_eq] at hfound
    exact ⟨_, messages, h.putBack (List.mem_of_find?_eq_some hfind) hfound.2⟩
  | control cmd =>
    cases hstep
    exact h.control cmd
  | timeout caller =>
    obtain ⟨call, -, rfl⟩ := Option.map_eq_some_iff.mp hstep
    exact ⟨free, messages, h.quiet rfl rfl rfl rfl rfl rfl rfl⟩
  | run caller =>
    obtain ⟨⟨call, error⟩, -, rfl⟩ := Option.map_eq_some_iff.mp hstep
    have hrest : MqInv { s with resumed := s.resumed.erase (call, error) } free messages :=
      h.quiet rfl rfl rfl rfl rfl rfl rfl
    unfold MqSystem.run
    dsimp only
    split
    · exact ⟨free, messages, hrest.quiet rfl rfl rfl rfl rfl rfl rfl⟩
    · obtain ⟨messages', hturned⟩ := hrest.turn { call with wait := call.wait.recalculated s.tick }
      exact ⟨free, messages', hturned⟩
  | tick =>
    cases hstep
    exact ⟨free, messages, h.quiet rfl rfl rfl rfl rfl rfl rfl⟩
  | changePriority thread priority =>
    cases hstep
    exact ⟨free, messages, h.quiet rfl rfl rfl rfl rfl rfl rfl⟩

/-- The invariant says that no node is lost. -/
theorem MqInv.conserved {s : MqSystem} {free messages : List Nat} (h : MqInv s free messages) :
    s.Conserved free messages where
  lists := h.lists
  entry := h.entry
  empty := by
    rw [h.lists.tail, List.getLast?_eq_none_iff]
    exact (h.lists.messageList.eq_nil_iff).symm
  order := h.order
  serials := h.serials
  once := by
    obtain ⟨discarded, hperm⟩ := DequeEvent.replay_conserves h.order
    have htaken : (s.events.filterMap DequeEvent.taken).Nodup := by
      apply List.Nodup.of_map MqMessage.serial
      rw [h.serials]
      exact List.nodup_range
    have hall := hperm.nodup_iff.mpr htaken
    rw [List.append_assoc] at hall
    exact hall.sublist ((List.sublist_append_right discarded _).append_left _)
  given := h.given
  receipts := h.receipts

/-- **Conservation and order.** For every pool, in every interleaving of the steps of the senders,
the receivers and the resets: every node is free, a message, or held by one call; the count and the
pointers agree with the messages; and they leave in the order of a double-ended queue, each once,
with the bytes that were sent. -/
theorem mq_conserves (next : Nat → Option Nat) (bytes : Nat → Nat → BitVec 8)
    (msgSize maxMsgs : Nat) (flag : IpcFlag) (tick : BitVec 32) (priority : Nat → Nat)
    (s : MqSystem) (h : (mqMachine (rtMqMake next bytes msgSize maxMsgs flag) tick priority).Reach
      Machine.any s) : ∃ free messages, s.Conserved free messages := by
  obtain ⟨free, messages, hinv⟩ : ∃ free messages, MqInv s free messages := by
    refine h.invariant (P := fun s => ∃ free messages, MqInv s free messages) ?_ ?_
    · obtain ⟨free, hinit⟩ := mqInv_init
      exact ⟨free, [], hinit⟩
    · intro s a t hs _ hstep
      obtain ⟨free, messages, hs⟩ := hs
      exact mqInv_step hs hstep
  exact ⟨free, messages, hinv.conserved⟩

/-- An urgent message that overtakes another one while that is copied. -/
theorem mq_conserves_overtaken :
    ∃ s, (mqMachine (rtMqMake (fun _ => none) (fun _ _ => 0xff) 3 2 .fifo) 0 fun _ => 10).Reach
        Machine.any s ∧
      s.receipts.map (fun r => (r.caller, r.got)) = [(3, [9]), (4, [1, 2])] ∧
      ∃ free messages, s.Conserved free messages := by
  obtain ⟨s, hreach, hs⟩ := Machine.exists_reach_of_run
    (mqMachine (rtMqMake (fun _ => none) (fun _ _ => 0xff) 3 2 .fifo) 0 fun _ => 10) Machine.any
    [.send 1 false [1, 2], .clear 1, .copyIn 1, .send 2 true [9], .copyIn 2, .link 2, .copyIn 1,
      .link 1, .recv 3 1 0, .copyOut 3, .recv 4 2 0, .copyOut 4, .putBack 3, .copyOut 4, .putBack 4]
    (fun s => s.receipts.map (fun r => (r.caller, r.got)) = [(3, [9]), (4, [1, 2])]) (by decide)
  exact ⟨s, hreach, hs, mq_conserves _ _ _ _ _ _ _ s hreach⟩

/-- A message that is in the list when a reset comes is received by nobody. -/
theorem mq_reset_discards :
    ¬ ∀ next bytes msgSize maxMsgs flag tick priority s,
      (mqMachine (rtMqMake next bytes msgSize maxMsgs flag) tick priority).Reach Machine.any s →
        ∃ free messages, s.Conserved free messages ∧
          (s.events.filterMap DequeEvent.taken).Perm
            (s.events.filterMap DequeEvent.given ++ messages.map s.content) := by
  intro hall
  obtain ⟨s, hreach, htaken, hgiven, hentry⟩ := Machine.exists_reach_of_run
    (mqMachine (rtMqMake (fun _ => none) (fun _ _ => 0xff) 4 1 .fifo) 0 fun _ => 10) Machine.any
    [.send 1 false [7], .clear 1, .copyIn 1, .link 1, .control rtIpcCmdReset]
    (fun s => (s.events.filterMap DequeEvent.taken).length = 1 ∧
      s.events.filterMap DequeEvent.given = [] ∧ s.mq.entry = 0) (by decide)
  obtain ⟨free, messages, hconserved, hperm⟩ := hall _ _ _ _ _ _ _ s hreach
  have hlength := hperm.length_eq
  rw [hgiven, List.nil_append, List.length_map, ← hconserved.entry, htaken, hentry] at hlength
  cases hlength

end RtVcom.Kernel

import OtaFix.Word
import OtaFix.Lib.Run
import Mathlib.Data.List.Nodup

/-!
# The packet queue of the serial transport

`rpc_transport_event_handler` puts a received packet into the lowest free slot of
`m_data_queue`; `process_dfu_packet` scans the slots by index and hands what it finds
to the DFU core. Packets may be received between two slots of a scan.

Each RX buffer is released exactly once, and `count` is the number of occupied slots,
in every run. The order of the packets is that of their arrival while a packet is only
received when the lowest free slot is the last that the scan will come to
(`serialQueue_in_order`); otherwise a later packet overtakes an earlier one.
-/

namespace OtaFix.SerialRx

open Lib

/-! ## The queue -/

/-- `MAX_BUFFERS`. -/
def maxBuffers : Nat := 4

def initPacket : Nat := 1

def stopInitPacket : Nat := 2

def startPacket : Nat := 3

def dataPacket : Nat := 4

def stopDataPacket : Nat := 5

/-- A queued packet; `buffer` names its RX buffer. -/
structure Element where
  ptype : Nat
  /-- In words, the packet type not counted. -/
  length : Nat
  buffer : Nat
  deriving DecidableEq, Repr

/-- A packet that `hci_transport_rx_pkt_extract` returns. -/
structure RxPacket where
  ptype : Nat
  length : Nat
  deriving DecidableEq, Repr

structure SerialQueue where
  /-- A slot of type `INVALID_PACKET` is `none`. -/
  slots : List (Option Element) := List.replicate maxBuffers none
  count : Nat := 0
  /-- The slot that `process_dfu_packet` looks at next, while it runs. -/
  cursor : Option Nat := none
  /-- Calls of `process_dfu_packet` that the scheduler still has to make. -/
  scheduled : Nat := 0
  /-- A STOP has activated the image, and its packet is still queued. -/
  activated : Bool := false
  /-- The name of the next RX buffer; the lists below name buffers. -/
  next : Nat := 0
  accepted : List Nat := []
  handled : List Nat := []
  released : List Nat := []
  flushed : List Nat := []
  deriving DecidableEq, Repr

namespace SerialQueue

/-- The slot of `data_queue_element_alloc`. -/
def alloc (q : SerialQueue) : Option Nat :=
  if q.count = maxBuffers - 1 then none else q.slots.findIdx? Option.isNone

/-- `hci_transport_rx_pkt_consume`. -/
def consume (q : SerialQueue) (buffer : Nat) : SerialQueue :=
  { q with released := q.released ++ [buffer] }

/-- `data_queue_element_free`. -/
def free (q : SerialQueue) (i : Nat) : SerialQueue :=
  match q.slots.getD i none with
  | none => q
  | some e => { q with count := q.count - 1, slots := q.slots.set i none }.consume e.buffer

/-- `data_queue_flush`, one slot of it. -/
def flushSlot (q : SerialQueue) (i : Nat) : SerialQueue :=
  { q with flushed := q.flushed ++ ((q.slots.getD i none).map Element.buffer).toList }.free i

def flush (q : SerialQueue) : SerialQueue := (List.range maxBuffers).foldl flushSlot q

end SerialQueue

/-- The checks of `rpc_transport_event_handler` on the type and the length. -/
def RxPacket.wellFormed (rx : RxPacket) : Bool :=
  initPacket ≤ rx.ptype && rx.ptype ≤ stopDataPacket && rx.ptype ≠ stopInitPacket &&
    !(rx.ptype = startPacket && rx.length ≠ 4 + 16) &&
    !(rx.ptype = stopDataPacket && rx.length ≠ 4) &&
    !(rx.ptype = dataPacket && rx.length % 4 ≠ 0)

/-- `rpc_transport_event_handler`; `put` is the result of `app_sched_event_put`. -/
def rpcTransportEventHandler (q : SerialQueue) (rx : Option RxPacket) (put : Bool) : SerialQueue :=
  match rx with
  | none => q
  | some rx =>
    let buffer := q.next
    let q := { q with next := q.next + 1 }
    if !rx.wellFormed || !put then q.consume buffer
    else
      let q := { q with scheduled := q.scheduled + 1 }
      match q.alloc with
      | none => q.consume buffer
      | some i => { q with
          count := q.count + 1
          slots := q.slots.set i (some ⟨rx.ptype, sub32 (rx.length / 4) 1, buffer⟩)
          accepted := q.accepted ++ [buffer] }

/-- The scheduler calls `process_dfu_packet`, up to the test of its outer loop. -/
def enterProcess (q : SerialQueue) : SerialQueue :=
  match q.cursor with
  | some _ => q
  | none => if q.scheduled = 0 then q
      else { q with scheduled := q.scheduled - 1, cursor := some maxBuffers }

/-- `process_dfu_packet`, one slot of a scan or the test of the outer loop. `ok` is the
result of the DFU core; only that of an activation is looked at. -/
def processDfuPacket (q : SerialQueue) (ok : Bool) : SerialQueue :=
  match q.cursor with
  | none => q
  | some i =>
    if i < maxBuffers then
      match q.slots.getD i none with
      | none => { q with cursor := some (i + 1) }
      | some e =>
        let q := { q with handled := q.handled ++ [e.buffer] }
        if e.ptype = stopDataPacket && ok then { q with cursor := none, activated := true }
        else { q with cursor := some (i + 1) }.free i
    else if q.count = 0 then { q with cursor := none }
    else { q with cursor := some 0 }

/-- `dfu_transport_serial_close`, outside `process_dfu_packet`. -/
def serialClose (q : SerialQueue) : SerialQueue :=
  match q.cursor with
  | some _ => q
  | none => { q.flush with activated := false }

inductive QueueEvent where
  | receive (rx : Option RxPacket) (put : Bool)
  | enter
  | process (ok : Bool)
  | close
  deriving DecidableEq, Repr

def queueStep (q : SerialQueue) : QueueEvent → SerialQueue
  | .receive rx put => rpcTransportEventHandler q rx put
  | .enter => enterProcess q
  | .process ok => processDfuPacket q ok
  | .close => serialClose q

/-! ## Slots -/

variable {q q' : SerialQueue} {slots : List (Option Element)} {i : Nat} {x : Option Element}

/-- The buffers of the occupied slots. -/
def slotIds (slots : List (Option Element)) : List Nat :=
  slots.filterMap (Option.map Element.buffer)

@[simp] theorem slotIds_nil : slotIds [] = [] := rfl

@[simp] theorem slotIds_cons (x : Option Element) (slots : List (Option Element)) :
    slotIds (x :: slots) = (x.map Element.buffer).toList ++ slotIds slots := by
  cases x <;> rfl

@[simp] theorem slotIds_append (l l' : List (Option Element)) :
    slotIds (l ++ l') = slotIds l ++ slotIds l' := List.filterMap_append

theorem slotIds_of_none {l : List (Option Element)} (h : ∀ x ∈ l, x = none) : slotIds l = [] := by
  induction l with
  | nil => rfl
  | cons x l ih =>
    rw [slotIds_cons, h x List.mem_cons_self, ih fun y hy => h y (List.mem_cons_of_mem x hy)]
    rfl

/-- The slots around slot `i`. -/
theorem split_at (h : slots[i]? = some x) : slots = slots.take i ++ x :: slots.drop (i + 1) := by
  obtain ⟨hi, rfl⟩ := List.getElem?_eq_some_iff.mp h
  rw [List.getElem_cons_drop, List.take_append_drop]

theorem set_split (h : slots[i]? = some x) (y : Option Element) :
    slots.set i y = slots.take i ++ y :: slots.drop (i + 1) := by
  obtain ⟨hi, -⟩ := List.getElem?_eq_some_iff.mp h
  rw [List.set_eq_take_append_cons_drop, if_pos hi]

theorem slotIds_at (h : slots[i]? = some x) : slotIds slots =
    slotIds (slots.take i) ++ ((x.map Element.buffer).toList ++ slotIds (slots.drop (i + 1))) := by
  conv_lhs => rw [split_at h]
  rw [slotIds_append, slotIds_cons]

theorem slotIds_set (h : slots[i]? = some x) (y : Option Element) : slotIds (slots.set i y) =
    slotIds (slots.take i) ++ ((y.map Element.buffer).toList ++ slotIds (slots.drop (i + 1))) := by
  rw [set_split h, slotIds_append, slotIds_cons]

theorem getD_some {e : Element} (h : slots.getD i none = some e) : slots[i]? = some (some e) := by
  rw [List.getD_eq_getElem?_getD] at h
  cases hx : slots[i]? with
  | none => rw [hx] at h; cases h
  | some y => rw [hx] at h; exact congrArg some h

/-! ## What every run keeps -/

structure QueueInv (q : SerialQueue) : Prop where
  length : q.slots.length = maxBuffers
  count : q.count = (slotIds q.slots).length
  nodup : (slotIds q.slots).Nodup
  queued : ∀ b ∈ slotIds q.slots, b ∈ q.accepted
  named : ∀ b ∈ q.accepted, b < q.next
  sorted : q.accepted.Pairwise (· < ·)
  /-- A buffer is released once, when it is not queued, or no longer. -/
  released : ∀ b, q.released.count b = if b < q.next ∧ b ∉ slotIds q.slots then 1 else 0
  complete : ∀ b ∈ q.accepted, b ∈ q.handled ∨ b ∈ slotIds q.slots ∨ b ∈ q.flushed

theorem queueInv_init : QueueInv {} where
  length := rfl
  count := rfl
  nodup := List.nodup_nil
  queued _ h := by cases h
  named _ h := by cases h
  sorted := .nil
  released b := by rw [if_neg fun h => absurd h.1 (Nat.not_lt_zero b)]; rfl
  complete _ h := by cases h

/-- A state with the same slots and the same account of its buffers. -/
theorem QueueInv.same (h : QueueInv q) (hs : q'.slots = q.slots) (hc : q'.count = q.count)
    (hn : q'.next = q.next) (ha : q'.accepted = q.accepted) (hr : q'.released = q.released)
    (hh : ∀ b ∈ q.handled, b ∈ q'.handled) (hf : ∀ b ∈ q.flushed, b ∈ q'.flushed) :
    QueueInv q' where
  length := hs ▸ h.length
  count := by rw [hc, hs]; exact h.count
  nodup := hs ▸ h.nodup
  queued := by rw [hs, ha]; exact h.queued
  named := by rw [ha, hn]; exact h.named
  sorted := ha ▸ h.sorted
  released b := by rw [hr, hn, hs]; exact h.released b
  complete b hb := by
    rw [ha] at hb
    rw [hs]
    exact (h.complete b hb).imp (hh b) (Or.imp_right (hf b))

/-- Freeing a slot whose packet is accounted for. -/
theorem QueueInv.free (h : QueueInv q) (hdone : ∀ e, q.slots.getD i none = some e →
    e.buffer ∈ q.handled ∨ e.buffer ∈ q.flushed) : QueueInv (q.free i) := by
  unfold SerialQueue.free
  cases hx : q.slots.getD i none with
  | none => exact h
  | some e =>
    have hi := getD_some hx
    have hids := slotIds_at hi
    have hset := slotIds_set hi none
    simp only [Option.map_some, Option.toList_some, Option.map_none, Option.toList_none,
      List.nil_append] at hids hset
    have hnd := h.nodup
    rw [hids] at hnd
    have hmem : ∀ b, b ∈ slotIds q.slots ↔ b ∈ slotIds (q.slots.set i none) ∨ b = e.buffer := by
      intro b
      rw [hids, hset]
      simp only [List.mem_append, List.mem_singleton]
      tauto
    have hnot : e.buffer ∉ slotIds (q.slots.set i none) := by
      rw [hset]
      exact (List.nodup_middle.mp hnd).notMem
    refine ⟨by simpa [SerialQueue.consume] using h.length, ?_, ?_, fun b hb => ?_, h.named, h.sorted,
      fun b => ?_, fun b hb => ?_⟩
    · change q.count - 1 = (slotIds (q.slots.set i none)).length
      rw [h.count, hids, hset]
      simp
    · change (slotIds (q.slots.set i none)).Nodup
      rw [hset]
      exact (List.nodup_middle.mp hnd).of_cons
    · exact h.queued b ((hmem b).mpr (.inl hb))
    · change (q.released ++ [e.buffer]).count b =
        if b < q.next ∧ b ∉ slotIds (q.slots.set i none) then 1 else 0
      rw [List.count_append, h.released b]
      by_cases hb : b = e.buffer
      · subst hb
        have hlt : e.buffer < q.next := h.named _ (h.queued _ ((hmem _).mpr (.inr rfl)))
        rw [if_neg fun hc => hc.2 ((hmem _).mpr (.inr rfl)), if_pos ⟨hlt, hnot⟩]
        simp
      · have hiff : b ∉ slotIds q.slots ↔ b ∉ slotIds (q.slots.set i none) := by
          rw [hmem]
          tauto
        rw [List.count_eq_zero_of_not_mem (by simpa using hb), Nat.add_zero]
        simp only [hiff]
    · change b ∈ q.handled ∨ b ∈ slotIds (q.slots.set i none) ∨ b ∈ q.flushed
      rcases h.complete b hb with hb | hb | hb
      · exact .inl hb
      · rcases (hmem b).mp hb with hb | rfl
        · exact .inr (.inl hb)
        · exact (hdone e hx).imp id .inr
      · exact .inr (.inr hb)

/-- The packet that arrives is released at once. -/
theorem QueueInv.rejects (h : QueueInv q) :
    QueueInv ({ q with next := q.next + 1 }.consume q.next) where
  length := h.length
  count := h.count
  nodup := h.nodup
  queued := h.queued
  named b hb := Nat.lt_succ_of_lt (h.named b hb)
  sorted := h.sorted
  released b := by
    have hfresh : q.next ∉ slotIds q.slots := fun hb =>
      Nat.lt_irrefl _ (h.named _ (h.queued _ hb))
    change (q.released ++ [q.next]).count b = if b < q.next + 1 ∧ b ∉ slotIds q.slots then 1 else 0
    rw [List.count_append, h.released b]
    by_cases hb : b = q.next
    · subst hb
      rw [if_neg fun hc => Nat.lt_irrefl _ hc.1, if_pos ⟨Nat.lt_succ_self _, hfresh⟩]
      simp
    · have hiff : b < q.next + 1 ↔ b < q.next := by omega
      rw [List.count_eq_zero_of_not_mem (by simpa using hb), Nat.add_zero]
      simp only [hiff]
  complete := h.complete

/-- The packet that arrives is queued in a free slot. -/
theorem QueueInv.accepts (h : QueueInv q) (hi : q.slots[i]? = some none) {e : Element}
    (he : e.buffer = q.next) : QueueInv { q with
      next := q.next + 1
      count := q.count + 1
      slots := q.slots.set i (some e)
      accepted := q.accepted ++ [q.next] } := by
  have hids := slotIds_at hi
  have hset := slotIds_set hi (some e)
  simp only [Option.map_some, Option.toList_some, Option.map_none, Option.toList_none,
    List.nil_append, he] at hids hset
  have hmem : ∀ b, b ∈ slotIds (q.slots.set i (some e)) ↔ b ∈ slotIds q.slots ∨ b = q.next := by
    intro b
    rw [hids, hset]
    simp only [List.mem_append, List.mem_singleton]
    tauto
  have hfresh : q.next ∉ slotIds q.slots := fun hb => Nat.lt_irrefl _ (h.named _ (h.queued _ hb))
  refine ⟨by simpa using h.length, ?_, ?_, fun b hb => ?_, fun b hb => ?_, ?_, fun b => ?_,
    fun b hb => ?_⟩
  · change q.count + 1 = (slotIds (q.slots.set i (some e))).length
    rw [h.count, hids, hset]
    simp
    omega
  · change (slotIds (q.slots.set i (some e))).Nodup
    rw [hset]
    have hnd := h.nodup
    rw [hids] at hfresh hnd
    exact List.nodup_middle.mpr (List.nodup_cons.mpr ⟨hfresh, hnd⟩)
  · rcases (hmem b).mp hb with hb | rfl
    · exact List.mem_append_left _ (h.queued b hb)
    · exact List.mem_append_right _ (List.mem_singleton_self _)
  · rcases List.mem_append.mp hb with hb | hb
    · exact Nat.lt_succ_of_lt (h.named b hb)
    · rw [List.mem_singleton.mp hb]
      exact Nat.lt_succ_self _
  · refine List.pairwise_append.mpr ⟨h.sorted, List.pairwise_singleton _ _, fun b hb c hc => ?_⟩
    rw [List.mem_singleton.mp hc]
    exact h.named b hb
  · change q.released.count b =
      if b < q.next + 1 ∧ b ∉ slotIds (q.slots.set i (some e)) then 1 else 0
    rw [h.released b]
    have hiff : (b < q.next ∧ b ∉ slotIds q.slots) ↔
        (b < q.next + 1 ∧ b ∉ slotIds (q.slots.set i (some e))) := by
      rw [hmem]
      constructor
      · rintro ⟨hlt, hnot⟩
        exact ⟨by omega, by rintro (hb | hb); exacts [hnot hb, by omega]⟩
      · rintro ⟨hlt, hnot⟩
        rw [not_or] at hnot
        exact ⟨by omega, hnot.1⟩
    simp only [hiff]
  · change b ∈ q.handled ∨ b ∈ slotIds (q.slots.set i (some e)) ∨ b ∈ q.flushed
    rcases List.mem_append.mp hb with hb | hb
    · exact (h.complete b hb).imp id (Or.imp_left fun hb => (hmem b).mpr (.inl hb))
    · exact .inr (.inl ((hmem b).mpr (.inr (List.mem_singleton.mp hb))))

theorem QueueInv.flushSlot (h : QueueInv q) (i : Nat) : QueueInv (q.flushSlot i) := by
  refine QueueInv.free (h.same rfl rfl rfl rfl rfl (fun _ hb => hb)
    fun b hb => List.mem_append_left _ hb) fun e he => .inr ?_
  change e.buffer ∈ q.flushed ++ ((q.slots.getD i none).map Element.buffer).toList
  rw [show q.slots.getD i none = some e from he]
  exact List.mem_append_right _ (List.mem_singleton_self _)

theorem QueueInv.flush (h : QueueInv q) : QueueInv q.flush := by
  unfold SerialQueue.flush
  induction List.range maxBuffers generalizing q with
  | nil => exact h
  | cons i l ih => exact ih (h.flushSlot i)

theorem alloc_free (h : q.alloc = some i) : q.slots[i]? = some none := by
  unfold SerialQueue.alloc at h
  split_ifs at h
  obtain ⟨hi, hnone, -⟩ := List.findIdx?_eq_some_iff_getElem.mp h
  rw [List.getElem?_eq_getElem hi, Option.isNone_iff_eq_none.mp hnone]

theorem QueueInv.step (h : QueueInv q) (e : QueueEvent) : QueueInv (queueStep q e) := by
  cases e with
  | receive rx put =>
    cases rx with
    | none => exact h
    | some rx =>
      unfold queueStep rpcTransportEventHandler
      simp only
      split_ifs
      · exact h.rejects
      · split
        · exact (h.rejects).same rfl rfl rfl rfl rfl (fun _ hb => hb) fun _ hb => hb
        · rename_i i hi
          exact (h.accepts (alloc_free hi) rfl).same rfl rfl rfl rfl rfl (fun _ hb => hb)
            fun _ hb => hb
  | enter =>
    unfold queueStep enterProcess
    simp only
    split
    · exact h
    · split_ifs
      · exact h
      · exact h.same rfl rfl rfl rfl rfl (fun _ hb => hb) fun _ hb => hb
  | process ok =>
    unfold queueStep processDfuPacket
    simp only
    split
    · exact h
    split_ifs
    · split
      · exact h.same rfl rfl rfl rfl rfl (fun _ hb => hb) fun _ hb => hb
      rename_i e he
      split_ifs
      · exact h.same rfl rfl rfl rfl rfl (fun b hb => List.mem_append_left _ hb) fun _ hb => hb
      · refine QueueInv.free (h.same rfl rfl rfl rfl rfl (fun b hb => List.mem_append_left _ hb)
          fun _ hb => hb) fun e' he' => .inl ?_
        obtain rfl : e' = e := Option.some.inj (he'.symm.trans he)
        exact List.mem_append_right _ (List.mem_singleton_self _)
    · exact h.same rfl rfl rfl rfl rfl (fun _ hb => hb) fun _ hb => hb
    · exact h.same rfl rfl rfl rfl rfl (fun _ hb => hb) fun _ hb => hb
  | close =>
    unfold queueStep serialClose
    simp only
    split
    · exact h
    · exact h.flush.same rfl rfl rfl rfl rfl (fun _ hb => hb) fun _ hb => hb

/-! ## The order of the packets -/

namespace SerialQueue

/-- Where the scan stands; outside `process_dfu_packet` the next one starts at slot 0. -/
def index (q : SerialQueue) : Nat := q.cursor.getD 0

/-- The buffers still to be handled, in the order of the scan. -/
def rest (q : SerialQueue) : List Nat :=
  if q.activated then [] else slotIds (q.slots.drop q.index ++ q.slots.take q.index)

end SerialQueue

/-- From where it stands, the scan comes to every occupied slot before slot `f`. -/
def LastVisited (q : SerialQueue) (f : Nat) : Prop :=
  (f < q.index ∧ ∀ j < maxBuffers, f < j → j < q.index → q.slots.getD j none = none) ∨
  (q.index ≤ f ∧ ∀ j < maxBuffers, j < q.index ∨ f < j → q.slots.getD j none = none)

/-- What keeps the order: a packet is queued only where the scan comes last, and
`process_dfu_packet` does not see the STOP that it has acted on again. -/
def KeepsOrder (q : SerialQueue) : QueueEvent → Prop
  | .receive (some rx) put => rx.wellFormed = true → put = true → q.activated = false →
      ∀ f ∈ q.alloc, LastVisited q f
  | .enter => 0 < q.scheduled → q.activated = false
  | _ => True

instance (q : SerialQueue) : DecidablePred (LastVisited q) := fun _ => inferInstanceAs (Decidable (_ ∨ _))

instance (q : SerialQueue) : DecidablePred (KeepsOrder q)
  | .receive (some rx) put => inferInstanceAs (Decidable (rx.wellFormed = true → put = true →
      q.activated = false → ∀ f ∈ q.alloc, LastVisited q f))
  | .receive none _ => .isTrue trivial
  | .enter => inferInstanceAs (Decidable (0 < q.scheduled → q.activated = false))
  | .process _ => .isTrue trivial
  | .close => .isTrue trivial

structure Ordered (q : SerialQueue) : Prop where
  inv : QueueInv q
  index_le : q.index ≤ maxBuffers
  stopped : q.activated = true → q.cursor = none
  order : (q.handled ++ q.rest).Sublist q.accepted
  scheduled : q.cursor = none → q.activated = false → slotIds q.slots ≠ [] → 0 < q.scheduled

theorem mem_none {l : List (Option Element)} (h : ∀ j < l.length, l.getD j none = none) :
    ∀ x ∈ l, x = none := by
  intro x hx
  obtain ⟨j, hj, rfl⟩ := List.getElem_of_mem hx
  rw [← h j hj, List.getD_eq_getElem?_getD, List.getElem?_eq_getElem hj]
  rfl

/-- A packet in the slot that the scan comes to last is the last to be handled. -/
theorem slotIds_last (hl : q.slots.length = maxBuffers) (hi : q.slots[i]? = some none)
    (hlast : LastVisited q i) (e : Element) :
    slotIds ((q.slots.set i (some e)).drop q.index ++ (q.slots.set i (some e)).take q.index) =
      slotIds (q.slots.drop q.index ++ q.slots.take q.index) ++ [e.buffer] := by
  have hlt : i < q.slots.length := (List.getElem?_eq_some_iff.mp hi).1
  rcases hlast with ⟨hf, hnone⟩ | ⟨hf, hnone⟩
  · -- the slot lies in the part that the next scan begins with
    have hmid : slotIds ((q.slots.drop (i + 1)).take (q.index - (i + 1))) = [] := by
      refine slotIds_of_none (mem_none fun j hj => ?_)
      rw [List.length_take, List.length_drop] at hj
      rw [List.getD_eq_getElem?_getD, List.getElem?_take_of_lt (by omega), List.getElem?_drop,
        ← List.getD_eq_getElem?_getD]
      exact hnone _ (by omega) (by omega) (by omega)
    have htake : ∀ y, (q.slots.take i ++ y :: q.slots.drop (i + 1)).take q.index =
        q.slots.take i ++ y :: (q.slots.drop (i + 1)).take (q.index - (i + 1)) := by
      intro y
      rw [List.take_append, List.take_of_length_le (by rw [List.length_take]; omega),
        List.length_take, Nat.min_eq_left (by omega),
        show q.index - i = (q.index - (i + 1)) + 1 by omega, List.take_succ_cons]
    have hold := htake none
    rw [← split_at hi] at hold
    rw [List.drop_set_of_lt hf, set_split hi, htake, hold]
    simp [hmid]
  · -- the slot lies in the part still to be scanned, and nothing lies behind it
    have hback : slotIds (q.slots.take q.index) = [] := by
      refine slotIds_of_none (mem_none fun j hj => ?_)
      rw [List.length_take] at hj
      rw [List.getD_eq_getElem?_getD, List.getElem?_take_of_lt (by omega),
        ← List.getD_eq_getElem?_getD]
      exact hnone _ (by omega) (.inl (by omega))
    have hafter : slotIds (q.slots.drop (i + 1)) = [] := by
      refine slotIds_of_none (mem_none fun j hj => ?_)
      rw [List.length_drop] at hj
      rw [List.getD_eq_getElem?_getD, List.getElem?_drop, ← List.getD_eq_getElem?_getD]
      exact hnone _ (by omega) (.inr (by omega))
    have hdrop : ∀ y, (q.slots.take i ++ y :: q.slots.drop (i + 1)).drop q.index =
        (q.slots.take i).drop q.index ++ y :: q.slots.drop (i + 1) := by
      intro y
      rw [List.drop_append_of_le_length (by rw [List.length_take]; omega)]
    have hold := hdrop none
    rw [← split_at hi] at hold
    rw [List.take_set_of_le hf, set_split hi, hdrop, hold]
    simp [hback, hafter]

theorem ordered_init : Ordered {} where
  inv := queueInv_init
  index_le := Nat.zero_le _
  stopped h := by cases h
  order := by decide
  scheduled _ _ h := absurd rfl h

/-- Outside a scan and at its end the slots are handled from the first one on. -/
theorem rest_from_zero (hl : q.slots.length = maxBuffers) (ha : q.activated = false)
    (hi : q.index = 0 ∨ q.index = maxBuffers) : q.rest = slotIds q.slots := by
  unfold SerialQueue.rest
  rw [if_neg (by rw [ha]; decide)]
  rcases hi with hi | hi
  · rw [hi, List.drop_zero, List.take_zero, List.append_nil]
  · rw [hi, ← hl, List.drop_length, List.take_length, List.nil_append]

/-- The scan leaves slot `i` behind, emptied. -/
theorem rest_next (h : q.cursor = some i) (hl : q.slots.length = maxBuffers)
    (hi : i < maxBuffers) (ha : q.activated = false) :
    q.rest = ((q.slots.getD i none).map Element.buffer).toList ++
      slotIds ((q.slots.set i none).drop (i + 1) ++ (q.slots.set i none).take (i + 1)) := by
  have hlt : i < q.slots.length := by omega
  have hat : q.slots[i]? = some (q.slots.getD i none) := by
    rw [List.getD_eq_getElem?_getD, List.getElem?_eq_getElem hlt]
    rfl
  have hindex : q.index = i := by rw [SerialQueue.index, h]; rfl
  unfold SerialQueue.rest
  rw [if_neg (by rw [ha]; decide), hindex]
  have hdrop : q.slots.drop i = q.slots.getD i none :: q.slots.drop (i + 1) := by
    rw [List.drop_eq_getElem_cons hlt, ← Option.some.inj ((List.getElem?_eq_getElem hlt).symm.trans hat)]
  have htake : (q.slots.set i none).take (i + 1) = q.slots.take i ++ [none] := by
    rw [set_split hat, List.take_append, List.take_of_length_le (by rw [List.length_take]; omega),
      List.length_take, Nat.min_eq_left (by omega), show i + 1 - i = 1 by omega]
    rfl
  rw [hdrop, List.drop_set_of_lt (Nat.lt_succ_self i), htake]
  simp

theorem free_cursor (q : SerialQueue) (i : Nat) : (q.free i).cursor = q.cursor ∧
    (q.free i).activated = q.activated ∧ (q.free i).handled = q.handled ∧
    (q.free i).accepted = q.accepted ∧ (q.free i).scheduled = q.scheduled := by
  unfold SerialQueue.free
  split <;> exact ⟨rfl, rfl, rfl, rfl, rfl⟩

theorem free_slots (q : SerialQueue) (i : Nat) : (q.free i).slots = q.slots.set i none := by
  unfold SerialQueue.free
  split
  · rename_i h
    refine List.ext_getElem? fun j => ?_
    rw [List.getElem?_set]
    split_ifs with hj hlt
    · subst hj
      rw [List.getD_eq_getElem?_getD, List.getElem?_eq_getElem hlt] at h
      rw [List.getElem?_eq_getElem hlt]
      exact congrArg some h
    · subst hj
      exact List.getElem?_eq_none (Nat.le_of_not_lt hlt)
    · rfl
  · rfl

theorem flush_slots (hl : q.slots.length = maxBuffers) :
    q.flush.slots = List.replicate maxBuffers none := by
  have hslot : ∀ (q : SerialQueue) (i : Nat), (q.flushSlot i).slots = q.slots.set i none :=
    fun q i => free_slots _ i
  have hflush : q.flush = (((q.flushSlot 0).flushSlot 1).flushSlot 2).flushSlot 3 := rfl
  rw [hflush, hslot, hslot, hslot, hslot]
  match hs : q.slots, hl with
  | [a, b, c, d], _ => rfl

theorem flush_rest (q : SerialQueue) : q.flush.cursor = q.cursor ∧ q.flush.handled = q.handled ∧
    q.flush.accepted = q.accepted := by
  unfold SerialQueue.flush
  induction List.range maxBuffers generalizing q with
  | nil => exact ⟨rfl, rfl, rfl⟩
  | cons i l ih =>
    obtain ⟨h1, h2, h3⟩ := ih (q.flushSlot i)
    obtain ⟨f1, -, f3, f4, -⟩ := free_cursor { q with
      flushed := q.flushed ++ ((q.slots.getD i none).map Element.buffer).toList } i
    exact ⟨h1.trans f1, h2.trans f3, h3.trans f4⟩

theorem Ordered.receive {rx : Option RxPacket} {put : Bool} (h : Ordered q)
    (hk : KeepsOrder q (.receive rx put)) : Ordered (queueStep q (.receive rx put)) := by
  have hinv := h.inv.step (.receive rx put)
  cases rx with
  | none => exact h
  | some rx =>
    unfold queueStep rpcTransportEventHandler at *
    simp only at *
    by_cases hbad : (!rx.wellFormed || !put) = true
    · rw [if_pos hbad] at hinv ⊢
      exact ⟨hinv, h.index_le, h.stopped, h.order, h.scheduled⟩
    rw [if_neg hbad] at hinv ⊢
    simp only [Bool.or_eq_true, Bool.not_eq_true', not_or, Bool.not_eq_false] at hbad
    cases hf : SerialQueue.alloc { q with next := q.next + 1, scheduled := q.scheduled + 1 } with
    | none =>
      simp only [hf] at hinv ⊢
      exact ⟨hinv, h.index_le, h.stopped, h.order, fun _ _ _ => Nat.succ_pos _⟩
    | some f =>
      simp only [hf] at hinv ⊢
      refine ⟨hinv, h.index_le, h.stopped, ?_, fun _ _ _ => Nat.succ_pos _⟩
      unfold SerialQueue.rest
      simp only
      cases ha : q.activated with
      | true =>
        have hord := h.order
        rw [SerialQueue.rest, if_pos ha] at hord
        rw [if_pos rfl]
        exact hord.trans (List.sublist_append_left _ _)
      | false =>
        have hord := h.order
        rw [SerialQueue.rest, if_neg (by rw [ha]; decide)] at hord
        rw [if_neg (by decide)]
        have hlast := slotIds_last h.inv.length (alloc_free hf) (hk hbad.1 hbad.2 ha f hf)
        change (q.handled ++ slotIds ((q.slots.set f _).drop q.index ++
          (q.slots.set f _).take q.index)).Sublist _
        rw [hlast, ← List.append_assoc]
        exact hord.append (List.Sublist.refl _)

theorem Ordered.enter (h : Ordered q) (hk : KeepsOrder q .enter) : Ordered (queueStep q .enter) := by
  have hinv := h.inv.step .enter
  unfold queueStep enterProcess at *
  simp only at *
  cases hc : q.cursor with
  | some i => exact h
  | none =>
    simp only [hc] at hinv ⊢
    by_cases hs : q.scheduled = 0
    · rw [if_pos hs]
      exact h
    · rw [if_neg hs] at hinv ⊢
      have ha := hk (Nat.pos_of_ne_zero hs)
      refine ⟨hinv, Nat.le_refl _, fun h' => ?_, ?_, nofun⟩
      · rw [ha] at h'
        cases h'
      · have hord := h.order
        rw [rest_from_zero h.inv.length ha (.inl (by rw [SerialQueue.index, hc]; rfl))] at hord
        rw [rest_from_zero (by exact h.inv.length) (by exact ha) (.inr rfl)]
        exact hord

theorem Ordered.process {ok : Bool} (h : Ordered q) : Ordered (queueStep q (.process ok)) := by
  have hinv := h.inv.step (.process ok)
  have hl := h.inv.length
  unfold queueStep processDfuPacket at *
  simp only at *
  cases hc : q.cursor with
  | none =>
    simp only
    exact h
  | some i =>
    have ha : q.activated = false := by
      cases ha : q.activated with
      | false => rfl
      | true => rw [h.stopped ha] at hc; cases hc
    have hindex : q.index = i := by rw [SerialQueue.index, hc]; rfl
    have hle : i ≤ maxBuffers := hindex ▸ h.index_le
    have hord := h.order
    simp only [hc] at hinv ⊢
    by_cases hi : i < maxBuffers
    · rw [if_pos hi] at hinv ⊢
      rw [rest_next hc hl hi ha] at hord
      cases hx : q.slots.getD i none with
      | none =>
        simp only [hx] at hinv ⊢
        have hset : q.slots.set i none = q.slots := by
          rw [← free_slots, SerialQueue.free, hx]
        rw [hx, hset] at hord
        refine ⟨hinv, hi, fun h' => ?_, ?_, nofun⟩
        · exact absurd (ha.symm.trans h') (by decide)
        · unfold SerialQueue.rest
          rw [if_neg (by exact ha ▸ (by decide : ¬ (false = true)))]
          exact hord
      | some e =>
        simp only [hx] at hinv ⊢
        rw [hx] at hord
        by_cases hstop : (e.ptype = stopDataPacket && ok) = true
        · rw [if_pos hstop] at hinv ⊢
          refine ⟨hinv, Nat.zero_le _, fun _ => rfl, ?_, fun _ h' => by cases h'⟩
          refine List.Sublist.trans ?_ hord
          change (q.handled ++ [e.buffer] ++ []).Sublist _
          rw [List.append_nil]
          exact (List.Sublist.refl _).append (List.sublist_append_left _ _)
        · rw [if_neg hstop] at hinv ⊢
          obtain ⟨f1, f2, f3, f4, f5⟩ := free_cursor { q with
            handled := q.handled ++ [e.buffer], cursor := some (i + 1) } i
          refine ⟨hinv, ?_, fun h' => ?_, ?_, fun h' => ?_⟩
          · rw [SerialQueue.index, f1]
            exact hi
          · rw [f2] at h'
            exact absurd (ha.symm.trans h') (by decide)
          · unfold SerialQueue.rest SerialQueue.index
            rw [f1, f2, f3, f4, free_slots, if_neg (by exact ha ▸ (by decide : ¬ (false = true)))]
            change (q.handled ++ [e.buffer] ++ slotIds ((q.slots.set i none).drop (i + 1) ++
              (q.slots.set i none).take (i + 1))).Sublist q.accepted
            rw [List.append_assoc]
            exact hord
          · rw [f1] at h'
            cases h'
    · rw [if_neg hi] at hinv ⊢
      have hmax : i = maxBuffers := by omega
      rw [rest_from_zero hl ha (.inr (hindex.trans hmax))] at hord
      by_cases hcount : q.count = 0
      · rw [if_pos hcount] at hinv ⊢
        refine ⟨hinv, Nat.zero_le _, fun _ => rfl, ?_, fun _ _ hne => absurd ?_ hne⟩
        · rw [rest_from_zero (by exact hl) (by exact ha) (.inl rfl)]
          exact hord
        · exact List.length_eq_zero_iff.mp (h.inv.count ▸ hcount)
      · rw [if_neg hcount] at hinv ⊢
        refine ⟨hinv, Nat.zero_le _, fun h' => ?_, ?_, nofun⟩
        · exact absurd (ha.symm.trans h') (by decide)
        · rw [rest_from_zero (by exact hl) (by exact ha) (.inl rfl)]
          exact hord

theorem Ordered.close (h : Ordered q) : Ordered (queueStep q .close) := by
  have hinv := h.inv.step .close
  unfold queueStep serialClose at *
  simp only at *
  cases hc : q.cursor with
  | some i => exact h
  | none =>
    simp only [hc] at hinv ⊢
    obtain ⟨f1, f2, f3⟩ := flush_rest q
    have hempty : slotIds q.flush.slots = [] := by rw [flush_slots h.inv.length]; rfl
    refine ⟨hinv, ?_, nofun, ?_, fun _ _ hne => absurd hempty hne⟩
    · rw [SerialQueue.index, f1, hc]
      exact Nat.zero_le _
    · rw [rest_from_zero (by exact hinv.length) rfl (.inl (by rw [SerialQueue.index, f1, hc]; rfl))]
      rw [hempty, List.append_nil, f2, f3]
      exact (List.sublist_append_left _ _).trans h.order

theorem Ordered.step (h : Ordered q) (e : QueueEvent) (hk : KeepsOrder q e) :
    Ordered (queueStep q e) := by
  cases e with
  | receive rx put => exact h.receive hk
  | enter => exact h.enter hk
  | process ok => exact h.process
  | close => exact h.close

/-! ## The end of a scan -/

/-- A bound on the steps that `process_dfu_packet` still takes: to the end of its scan,
and through one more where slots behind it are occupied again. -/
def stepsLeft (q : SerialQueue) : Nat :=
  match q.cursor with
  | none => 0
  | some i => maxBuffers + 1 - i + if slotIds (q.slots.take i) = [] then 0 else 2 * maxBuffers

theorem stepsLeft_le (q : SerialQueue) : stepsLeft q ≤ 16 := by
  have hm : maxBuffers = 4 := rfl
  unfold stepsLeft
  split
  · exact Nat.zero_le _
  · split_ifs <;> omega

theorem stepsLeft_process (h : Ordered q) (hc : q.cursor ≠ none) (ok : Bool) :
    stepsLeft (processDfuPacket q ok) < stepsLeft q := by
  have hm : maxBuffers = 4 := rfl
  have hl := h.inv.length
  cases hc' : q.cursor with
  | none => exact absurd hc' hc
  | some i =>
    have hle : i ≤ maxBuffers := by
      have := h.index_le
      rwa [SerialQueue.index, hc'] at this
    have hpos : 0 < stepsLeft q := by
      rw [stepsLeft, hc']
      simp only
      omega
    have hemptied : i < maxBuffers →
        slotIds ((q.slots.set i none).take (i + 1)) = slotIds (q.slots.take i) := by
      intro hi
      have hlt : i < q.slots.length := by omega
      rw [set_split (List.getElem?_eq_getElem hlt), List.take_append,
        List.take_of_length_le (by rw [List.length_take]; omega), List.length_take,
        Nat.min_eq_left (by omega), show i + 1 - i = 1 by omega]
      simp
    -- the slot is left behind empty, so only the distance to the end changes
    have hnext : ∀ q' : SerialQueue, i < maxBuffers → q'.cursor = some (i + 1) →
        q'.slots = q.slots.set i none → stepsLeft q' < stepsLeft q := by
      intro q' hi hcur hslots
      rw [stepsLeft, stepsLeft, hc', hcur, hslots]
      simp only [hemptied hi]
      omega
    unfold processDfuPacket
    simp only [hc']
    split_ifs with hi hcount
    · split
      · rename_i hx
        refine hnext _ hi rfl ?_
        rw [← free_slots, SerialQueue.free, hx]
      · split_ifs
        · exact hpos
        · exact hnext _ hi (free_cursor _ i).1 (free_slots _ i)
    · exact hpos
    · have hne : slotIds (q.slots.take i) ≠ [] := by
        rw [show i = q.slots.length by omega, List.take_length]
        intro hnil
        rw [h.inv.count, hnil] at hcount
        exact hcount rfl
      rw [stepsLeft, stepsLeft, hc']
      simp only [List.take_zero, slotIds_nil, if_true, if_neg hne]
      omega

theorem Ordered.returns (h : Ordered q) (results : List Bool) (hn : stepsLeft q ≤ results.length) :
    (results.foldl processDfuPacket q).cursor = none := by
  induction results generalizing q with
  | nil =>
    cases hc : q.cursor with
    | none => exact hc
    | some i =>
      have hle := h.index_le
      rw [SerialQueue.index, hc, Option.getD_some] at hle
      rw [stepsLeft, hc] at hn
      simp only [List.length_nil] at hn
      omega
  | cons ok results ih =>
    have hnext : Ordered (processDfuPacket q ok) := h.process
    refine ih hnext ?_
    by_cases hc : q.cursor = none
    · have : processDfuPacket q ok = q := by rw [processDfuPacket, hc]
      rw [this, stepsLeft, hc]
      exact Nat.zero_le _
    · have := stepsLeft_process h hc ok
      rw [List.length_cons] at hn
      exact Nat.le_of_lt_succ (Nat.lt_of_lt_of_le this hn)

/-! ## Runs -/

/-- The packets are served as a queue should serve them. -/
structure Served (q : SerialQueue) : Prop where
  /-- Handled in the order of acceptance, none of them twice. -/
  order : q.handled.Sublist q.accepted
  once : q.accepted.Nodup
  /-- None is lost, and none stays while no call of `process_dfu_packet` is due. -/
  complete : ∀ b ∈ q.accepted, b ∈ q.handled ∨ b ∈ slotIds q.slots ∨ b ∈ q.flushed
  drained : q.cursor = none → q.scheduled = 0 → q.activated = false → slotIds q.slots = []
  /-- `process_dfu_packet` returns, whatever the core answers. -/
  returns : ∀ results : List Bool, 16 ≤ results.length →
    (results.foldl processDfuPacket q).cursor = none
  /-- A buffer is released once: at once if it is rejected, or when it leaves its slot. -/
  released : ∀ b < q.next, q.released.count b = if b ∈ slotIds q.slots then 0 else 1
  rejected : ∀ b < q.next, b ∉ q.accepted → q.released.count b = 1
  count : q.count = q.slots.countP Option.isSome

theorem slotIds_length (slots : List (Option Element)) :
    (slotIds slots).length = slots.countP Option.isSome := by
  induction slots with
  | nil => rfl
  | cons x slots ih =>
    cases x with
    | none => simpa using ih
    | some e => simp [ih, Nat.add_comm]

theorem Ordered.served (h : Ordered q) : Served q where
  order := (List.sublist_append_left _ _).trans h.order
  once := h.inv.sorted.imp fun hlt => Nat.ne_of_lt hlt
  complete := h.inv.complete
  drained hc hs ha := by
    by_contra hne
    have := h.scheduled hc ha hne
    omega
  returns results hn := h.returns results (Nat.le_trans (stepsLeft_le q) hn)
  released b hb := by
    rw [h.inv.released b]
    split_ifs <;> tauto
  rejected b hb hna := by
    rw [h.inv.released b, if_pos ⟨hb, fun hq => hna (h.inv.queued b hq)⟩]
  count := h.inv.count.trans (slotIds_length _)

/-- In every run in which a packet is queued only where the scan comes last, and a STOP that
was acted on is not scanned again, the packets are served in order. -/
theorem serialQueue_in_order {evs : List QueueEvent} (h : Reach queueStep KeepsOrder {} evs q) :
    Served q :=
  (h.invariant ordered_init fun _ e hq hk => hq.step e hk).served

/-- A packet received during the scan of the one before it, in the slot behind the scan. -/
def inTurn : List QueueEvent :=
  [.receive (some ⟨dataPacket, 260⟩) true, .enter, .process true, .process true,
    .receive (some ⟨dataPacket, 260⟩) true, .process true, .process true, .process true,
    .process true, .process true]

/-- Both are handled, in order. -/
theorem serialQueue_inTurn : (inTurn.foldl queueStep {}).handled = [0, 1] ∧
    Served (inTurn.foldl queueStep {}) :=
  ⟨by decide, serialQueue_in_order (Reach.append_allowed (fun q e => decide (KeepsOrder q e))
    (fun _ _ h => of_decide_eq_true h) .init (by decide))⟩

/-- Two packets wait; two more arrive while the scan is behind the first of them. -/
def overtaking : List QueueEvent :=
  [.receive (some ⟨dataPacket, 260⟩) true, .receive (some ⟨dataPacket, 260⟩) true, .enter,
    .process true, .process true, .receive (some ⟨dataPacket, 260⟩) true,
    .receive (some ⟨dataPacket, 260⟩) true, .process true, .process true, .process true,
    .process true, .process true]

/-- The fourth packet is handled before the third. -/
theorem serialQueue_overtakes :
    (overtaking.foldl queueStep {}).accepted = [0, 1, 2, 3] ∧
    (overtaking.foldl queueStep {}).handled = [0, 1, 3, 2] ∧
    ¬ Served (overtaking.foldl queueStep {}) := by
  refine ⟨by decide, by decide, fun h => ?_⟩
  have := h.order
  revert this
  decide

end OtaFix.SerialRx

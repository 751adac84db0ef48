import OtaFix.Lib.Run
import OtaFix.Word
import Mathlib.Data.List.Nodup

/-!
# The RX buffers

`hci_mem_pool.c`. The buffers form a ring with three indices: the next one to produce, the next
one to extract, and the bits of `free_index`, which tell what was consumed. Consumption in the
order of extraction never hands out a buffer that is in use (`rx_pool_in_order`). Out of order the
counts go wrong: right after the second oldest buffer was consumed before the oldest, the pool
takes none of the buffers back that are still out, and later hands one of them out again
(`rx_pool_forgets`).
-/

namespace OtaFix.Hci

open Lib

/-- `HCI_RX_BUF_SIZE`. -/
def rxBufSize : Nat := 600

/-- `HCI_RX_BUF_QUEUE_SIZE`. -/
def rxBufQueueSize : Nat := 16

/-- `rx_buffer_queue_t`; `freeIndex` are the bits of `free_index`, `length` the lengths of the
buffers. -/
structure MemPool where
  freeWindowCount : Nat := rxBufQueueSize
  freeAvailableCount : Nat := 0
  readAvailableCount : Nat := 0
  writeIndex : Nat := 0
  readIndex : Nat := 0
  freeIndex : Nat → Bool := fun _ => false
  length : Nat → Nat := fun _ => 0

namespace MemPool

def next (i : Nat) : Nat := (i + 1) % rxBufQueueSize

/-- `hci_mem_pool_rx_produce` of a whole buffer; `none` is `NRF_ERROR_NO_MEM`. -/
def rxProduce (m : MemPool) : Option Nat × MemPool :=
  if m.freeWindowCount ≠ 0 then
    (some m.writeIndex, { m with
      freeWindowCount := m.freeWindowCount - 1
      readAvailableCount := m.readAvailableCount + 1
      freeIndex := Function.update m.freeIndex m.writeIndex true
      writeIndex := next m.writeIndex })
  else (none, m)

/-- `hci_mem_pool_rx_data_size_set`, of the buffer that was produced last. -/
def rxDataSizeSet (length : Nat) (m : MemPool) : MemPool :=
  { m with length := Function.update m.length (sub32 m.writeIndex 1 % rxBufQueueSize) length }

/-- `hci_mem_pool_rx_extract`. -/
def rxExtract (m : MemPool) : Option (Nat × Nat) × MemPool :=
  if m.readAvailableCount ≠ 0 then
    (some (m.readIndex, m.length m.readIndex), { m with
      readAvailableCount := m.readAvailableCount - 1
      freeAvailableCount := m.freeAvailableCount + 1
      readIndex := next m.readIndex })
  else (none, m)

/-- The search for the buffer from `i` on; it ends where it finds the buffer or at the read
index. -/
def findConsumed (m : MemPool) (buffer : Nat) : Nat → Nat → Nat × Bool
  | 0, i => (i, false)
  | fuel + 1, i =>
    if i = buffer then (i, true)
    else if next i = m.readIndex then (next i, false)
    else findConsumed m buffer fuel (next i)

/-- The second loop of `hci_mem_pool_rx_consume`, with the buffer that was found. -/
def release (freeIndex : Nat → Bool) (consume : Nat) : Nat → Nat → Nat → Nat × Nat
  | _, 0, window => (0, window)
  | start, available + 1, window =>
    if freeIndex start then (available + 1, window)
    else release freeIndex consume (next consume) available (window + 1)

/-- What `hci_mem_pool_rx_consume` returns. -/
inductive Consumed where
  | success
  | noMem
  | invalidAddr
  deriving DecidableEq, Repr

def rxConsume (buffer : Nat) (m : MemPool) : Consumed × MemPool :=
  if m.freeAvailableCount ≠ 0 then
    let start := sub32 m.readIndex m.freeAvailableCount % rxBufQueueSize
    let found := findConsumed m buffer rxBufQueueSize start
    let freeIndex :=
      if found.2 then Function.update m.freeIndex found.1 (!m.freeIndex found.1) else m.freeIndex
    let counts := release freeIndex found.1 start m.freeAvailableCount m.freeWindowCount
    (if found.2 then .success else .invalidAddr, { m with
      freeIndex := freeIndex
      freeAvailableCount := counts.1
      freeWindowCount := counts.2 })
  else (.noMem, m)

/-! ## Positions -/

/-- The pool after `consumed` buffers were consumed in order, `extracted` extracted and `produced`
produced. -/
structure At (m : MemPool) (consumed extracted produced : Nat) : Prop where
  consumed_le : consumed ≤ extracted
  extracted_le : extracted ≤ produced
  produced_le : produced ≤ consumed + rxBufQueueSize
  write : m.writeIndex = produced % rxBufQueueSize
  read : m.readIndex = extracted % rxBufQueueSize
  window : m.freeWindowCount = consumed + rxBufQueueSize - produced
  available : m.freeAvailableCount = extracted - consumed
  readable : m.readAvailableCount = produced - extracted
  bits : ∀ i < rxBufQueueSize,
    m.freeIndex i = true ↔ ∃ k, consumed ≤ k ∧ k < produced ∧ k % rxBufQueueSize = i

variable {m : MemPool} {c x p : Nat}

theorem at_init : At {} 0 0 0 where
  consumed_le := Nat.le_refl _
  extracted_le := Nat.le_refl _
  produced_le := Nat.zero_le _
  write := rfl
  read := rfl
  window := rfl
  available := rfl
  readable := rfl
  bits i _ := by
    constructor
    · intro h
      cases h
    · rintro ⟨k, -, h, -⟩
      cases h

theorem At.sized (h : At m c x p) (n : Nat) : At (m.rxDataSizeSet n) c x p :=
  ⟨h.1, h.2, h.3, h.write, h.read, h.window, h.available, h.readable, h.bits⟩

theorem next_mod (k : Nat) : next (k % rxBufQueueSize) = (k + 1) % rxBufQueueSize := by
  rw [next, Nat.mod_add_mod]

/-- Fewer than a ring apart, two positions are two buffers. -/
theorem mod_inj {a b : Nat} (hab : a ≤ b) (h : b < a + rxBufQueueSize)
    (heq : a % rxBufQueueSize = b % rxBufQueueSize) : a = b := by
  simp only [rxBufQueueSize] at *
  omega

theorem At.produce (h : At m c x p) (hroom : p < c + rxBufQueueSize) :
    m.rxProduce.1 = some (p % rxBufQueueSize) ∧ At m.rxProduce.2 c x (p + 1) ∧
      m.rxProduce.2.length = m.length := by
  have hwindow : m.freeWindowCount ≠ 0 := by
    rw [h.window]
    omega
  rw [rxProduce, if_pos hwindow, h.write]
  refine ⟨rfl, ⟨h.consumed_le, Nat.le_succ_of_le h.extracted_le, hroom, next_mod p, h.read, ?_,
    h.available, ?_, fun i hi => ?_⟩, rfl⟩
  · show m.freeWindowCount - 1 = _
    rw [h.window]
    omega
  · show m.readAvailableCount + 1 = _
    rw [h.readable]
    have := h.extracted_le
    omega
  · show Function.update m.freeIndex (p % rxBufQueueSize) true i = true ↔ _
    by_cases hip : i = p % rxBufQueueSize
    · rw [hip, Function.update_self]
      exact ⟨fun _ => ⟨p, Nat.le_trans h.consumed_le h.extracted_le, Nat.lt_succ_self p, rfl⟩,
        fun _ => rfl⟩
    · rw [Function.update_of_ne hip, h.bits i hi]
      constructor
      · rintro ⟨k, hck, hkp, hk⟩
        exact ⟨k, hck, Nat.lt_succ_of_lt hkp, hk⟩
      · rintro ⟨k, hck, hkp, hk⟩
        refine ⟨k, hck, Nat.lt_of_le_of_ne (Nat.le_of_lt_succ hkp) ?_, hk⟩
        rintro rfl
        exact hip hk.symm

theorem At.full (h : At m c x p) (hfull : p = c + rxBufQueueSize) : m.rxProduce = (none, m) := by
  rw [rxProduce, h.window, hfull, Nat.sub_self]
  exact if_neg fun h => h rfl

theorem At.extract (h : At m c x p) (hx : x < p) :
    m.rxExtract.1 = some (x % rxBufQueueSize, m.length (x % rxBufQueueSize)) ∧
      At m.rxExtract.2 c (x + 1) p ∧ m.rxExtract.2.length = m.length := by
  have hread : m.readAvailableCount ≠ 0 := by
    rw [h.readable]
    omega
  rw [rxExtract, if_pos hread, h.read]
  refine ⟨rfl, ⟨Nat.le_succ_of_le h.consumed_le, hx, h.produced_le, h.write, next_mod x, h.window,
    ?_, ?_, h.bits⟩, rfl⟩
  · show m.freeAvailableCount + 1 = _
    rw [h.available]
    have := h.consumed_le
    omega
  · show m.readAvailableCount - 1 = _
    rw [h.readable]
    omega

/-- The search starts at the oldest buffer that was not consumed. -/
theorem At.start (h : At m c x p) :
    sub32 m.readIndex m.freeAvailableCount % rxBufQueueSize = c % rxBufQueueSize := by
  have h1 := h.consumed_le
  have h2 := h.extracted_le
  have h3 := h.produced_le
  rw [h.read, h.available, sub32]
  simp only [rxBufQueueSize] at *
  omega

/-- The buffer that was produced last. -/
theorem At.last (h : At m c x (x + 1)) :
    sub32 m.writeIndex 1 % rxBufQueueSize = x % rxBufQueueSize := by
  rw [h.write]
  unfold sub32
  simp only [rxBufQueueSize]
  omega

theorem findConsumed_start (m : MemPool) (i : Nat) :
    findConsumed m i rxBufQueueSize i = (i, true) := by
  rw [rxBufQueueSize, findConsumed, if_pos rfl]

theorem At.consume (h : At m c x p) (hc : c < x) :
    (m.rxConsume (c % rxBufQueueSize)).1 = .success ∧
      At (m.rxConsume (c % rxBufQueueSize)).2 (c + 1) x p ∧
      (m.rxConsume (c % rxBufQueueSize)).2.length = m.length := by
  have hp := h.extracted_le
  have hring := h.produced_le
  have havail : m.freeAvailableCount ≠ 0 := by
    rw [h.available]
    omega
  have hlt : c % rxBufQueueSize < rxBufQueueSize := Nat.mod_lt _ (Nat.succ_pos 15)
  have hset : m.freeIndex (c % rxBufQueueSize) = true :=
    (h.bits _ hlt).mpr ⟨c, Nat.le_refl _, Nat.lt_of_lt_of_le hc hp, rfl⟩
  obtain ⟨n, hn⟩ := Nat.exists_eq_succ_of_ne_zero havail
  -- the loop releases the oldest buffer, and stops at the next one that is out
  have hrelease : release (Function.update m.freeIndex (c % rxBufQueueSize) false)
      (c % rxBufQueueSize) (c % rxBufQueueSize) m.freeAvailableCount m.freeWindowCount =
      (n, m.freeWindowCount + 1) := by
    rw [hn, release, Function.update_self, if_neg Bool.false_ne_true, next_mod]
    cases n with
    | zero => rfl
    | succ n =>
      have havail := h.available
      have hne : (c + 1) % rxBufQueueSize ≠ c % rxBufQueueSize := by
        simp only [rxBufQueueSize]
        omega
      have hnext : m.freeIndex ((c + 1) % rxBufQueueSize) = true :=
        (h.bits _ (Nat.mod_lt _ (Nat.succ_pos 15))).mpr ⟨c + 1, Nat.le_succ _, by omega, rfl⟩
      rw [release, Function.update_of_ne hne, hnext, if_pos rfl]
  rw [rxConsume, if_pos havail, h.start]
  dsimp only
  rw [findConsumed_start]
  dsimp only
  rw [if_pos rfl, if_pos rfl, hset, Bool.not_true, hrelease]
  refine ⟨rfl, ⟨hc, hp, by omega, h.write, h.read, ?_, ?_, h.readable, fun i hi => ?_⟩, rfl⟩
  · show m.freeWindowCount + 1 = _
    rw [h.window]
    omega
  · have := h.available
    show n = _
    omega
  · show Function.update m.freeIndex (c % rxBufQueueSize) false i = true ↔ _
    by_cases hic : i = c % rxBufQueueSize
    · rw [hic, Function.update_self]
      constructor
      · intro h
        cases h
      · rintro ⟨k, hck, hkp, hk⟩
        exact absurd (mod_inj (Nat.le_of_succ_le hck) (by omega) hk.symm) (Nat.ne_of_lt hck)
    · rw [Function.update_of_ne hic, h.bits i hi]
      constructor
      · rintro ⟨k, hck, hkp, hk⟩
        refine ⟨k, Nat.lt_of_le_of_ne hck ?_, hkp, hk⟩
        rintro rfl
        exact hic hk.symm
      · rintro ⟨k, hck, hkp, hk⟩
        exact ⟨k, Nat.le_of_succ_le hck, hkp, hk⟩

/-! ## Runs -/

/-- The pool with its owners: `out` are the buffers of the application, `waiting` those that were
produced and not yet extracted, both in order. -/
structure Owners where
  pool : MemPool := {}
  out : List Nat := []
  waiting : List Nat := []

inductive PoolEvent where
  | produce
  | setSize (length : Nat)
  | extract
  | consume (buffer : Nat)
  deriving DecidableEq, Repr

def poolStep (s : Owners) : PoolEvent → Owners
  | .produce => { s with pool := s.pool.rxProduce.2, waiting := s.waiting ++ s.pool.rxProduce.1.toList }
  | .setSize length => { s with pool := s.pool.rxDataSizeSet length }
  | .extract => { pool := s.pool.rxExtract.2,
                  out := s.out ++ (s.pool.rxExtract.1.map Prod.fst).toList
                  waiting := s.waiting.drop (s.pool.rxExtract.1.map Prod.fst).toList.length }
  | .consume buffer => { s with pool := (s.pool.rxConsume buffer).2, out := s.out.erase buffer }

/-- The application gives back the buffer that it has had longest. -/
def OldestFirst (s : Owners) : PoolEvent → Prop
  | .consume buffer => s.out.head? = some buffer
  | _ => True

/-- The buffers of the positions from `a` to `b`. -/
def slots (a b : Nat) : List Nat := (List.range' a (b - a)).map (· % rxBufQueueSize)

theorem slots_cons {a b : Nat} (h : a < b) : slots a b = a % rxBufQueueSize :: slots (a + 1) b := by
  obtain ⟨n, hn⟩ := Nat.exists_eq_succ_of_ne_zero (Nat.sub_ne_zero_of_lt h)
  rw [slots, slots, hn, List.range'_succ, show b - (a + 1) = n by omega]
  rfl

theorem slots_snoc {a b : Nat} (h : a ≤ b) : slots a (b + 1) = slots a b ++ [b % rxBufQueueSize] := by
  rw [slots, slots, show b + 1 - a = b - a + 1 by omega, List.range'_concat, List.map_append]
  rw [Nat.one_mul, Nat.add_sub_cancel' h]
  rfl

theorem slots_append {a b d : Nat} (hab : a ≤ b) (hbd : b ≤ d) : slots a b ++ slots b d = slots a d := by
  induction hbd with
  | refl => rw [show slots b b = [] by rw [slots, Nat.sub_self]; rfl, List.append_nil]
  | step hd ih =>
    rw [slots_snoc hd, slots_snoc (Nat.le_trans hab hd), ← List.append_assoc, ih]

theorem slots_length (a b : Nat) : (slots a b).length = b - a := by
  rw [slots, List.length_map, List.length_range']

theorem mem_slots {a b i : Nat} : i ∈ slots a b ↔ ∃ k, a ≤ k ∧ k < b ∧ k % rxBufQueueSize = i := by
  rw [slots, List.mem_map]
  constructor
  · rintro ⟨k, hk, rfl⟩
    obtain ⟨h1, h2⟩ := List.mem_range'_1.mp hk
    exact ⟨k, h1, by omega, rfl⟩
  · rintro ⟨k, h1, h2, rfl⟩
    exact ⟨k, List.mem_range'_1.mpr ⟨h1, by omega⟩, rfl⟩

theorem slots_nodup {a b : Nat} (h : b ≤ a + rxBufQueueSize) : (slots a b).Nodup := by
  refine List.Nodup.map_on ?_ List.nodup_range'
  intro x hx y hy heq
  obtain ⟨hx1, hx2⟩ := List.mem_range'_1.mp hx
  obtain ⟨hy1, hy2⟩ := List.mem_range'_1.mp hy
  obtain hxy | hxy := Nat.le_total x y
  · exact mod_inj hxy (by omega) heq
  · exact (mod_inj hxy (by omega) heq.symm).symm

/-- The pool and its owners agree on the positions. -/
structure Agree (s : Owners) (c x p : Nat) : Prop where
  pool : At s.pool c x p
  out : s.out = slots c x
  waiting : s.waiting = slots x p

theorem Agree.step {s : Owners} {e : PoolEvent} (h : Agree s c x p) (he : OldestFirst s e) :
    ∃ c x p, Agree (poolStep s e) c x p := by
  obtain ⟨hpool, hout, hwaiting⟩ := h
  cases e with
  | setSize length => exact ⟨c, x, p, hpool.sized length, hout, hwaiting⟩
  | produce =>
    obtain hfull | hroom := Nat.eq_or_lt_of_le hpool.produced_le
    · refine ⟨c, x, p, ?_, hout, ?_⟩
      · rw [poolStep, hpool.full hfull]
        exact hpool
      · rw [poolStep, hpool.full hfull]
        exact (List.append_nil _).trans hwaiting
    · obtain ⟨hslot, hat, -⟩ := hpool.produce hroom
      refine ⟨c, x, p + 1, hat, hout, ?_⟩
      rw [poolStep, hslot, slots_snoc hpool.extracted_le, hwaiting]
      rfl
  | extract =>
    obtain hempty | hx := Nat.eq_or_lt_of_le hpool.extracted_le
    · have hnone : s.pool.rxExtract = (none, s.pool) := by
        rw [rxExtract, hpool.readable, hempty, Nat.sub_self]
        exact if_neg fun h => h rfl
      refine ⟨c, x, p, ?_, ?_, ?_⟩
      · rw [poolStep, hnone]
        exact hpool
      · rw [poolStep, hnone]
        exact (List.append_nil _).trans hout
      · rw [poolStep, hnone]
        exact hwaiting
    · obtain ⟨hslot, hat, -⟩ := hpool.extract hx
      refine ⟨c, x + 1, p, hat, ?_, ?_⟩
      · rw [poolStep, hslot, slots_snoc hpool.consumed_le, hout]
        rfl
      · rw [poolStep, hslot, hwaiting, slots_cons hx]
        rfl
  | consume buffer =>
    have hhead : s.out.head? = some buffer := he
    have hcx : c < x := by
      by_contra hcx
      rw [hout, slots, Nat.sub_eq_zero_of_le (Nat.not_lt.mp hcx)] at hhead
      cases hhead
    rw [hout, slots_cons hcx] at hhead
    cases hhead
    obtain ⟨-, hat, -⟩ := hpool.consume hcx
    refine ⟨c + 1, x, p, hat, ?_, hwaiting⟩
    rw [poolStep, hout, slots_cons hcx, List.erase_cons_head]

/-- While the application gives buffers back in the order in which it got them, no buffer has two
owners, the free count is that of the buffers without an owner, each return succeeds, and a buffer
that is produced had no owner. -/
theorem rx_pool_in_order {es : List PoolEvent} {s : Owners} (h : Reach poolStep OldestFirst {} es s) :
    (s.out ++ s.waiting).Nodup ∧
    s.pool.freeWindowCount + (s.out ++ s.waiting).length = rxBufQueueSize ∧
    (∀ buffer, s.out.head? = some buffer → (s.pool.rxConsume buffer).1 = .success) ∧
    (s.pool.rxProduce.1 = none ↔ (s.out ++ s.waiting).length = rxBufQueueSize) ∧
    ∀ buffer, s.pool.rxProduce.1 = some buffer → buffer ∉ s.out ++ s.waiting := by
  obtain ⟨c, x, p, hpool, hout, hwaiting⟩ := h.invariant (I := fun s => ∃ c x p, Agree s c x p)
    ⟨0, 0, 0, at_init, rfl, rfl⟩ fun s e hs he => by
      obtain ⟨_, _, _, hs⟩ := hs
      exact hs.step he
  have hall : s.out ++ s.waiting = slots c p := by
    rw [hout, hwaiting, slots_append hpool.consumed_le hpool.extracted_le]
  have hcp := Nat.le_trans hpool.consumed_le hpool.extracted_le
  have hring := hpool.produced_le
  rw [hall, slots_length]
  refine ⟨slots_nodup hring, ?_, fun buffer hb => ?_, ?_, fun buffer hb hmem => ?_⟩
  · rw [hpool.window]
    omega
  · have hcx : c < x := by
      by_contra hcx
      rw [hout, slots, Nat.sub_eq_zero_of_le (Nat.not_lt.mp hcx)] at hb
      cases hb
    rw [hout, slots_cons hcx] at hb
    cases hb
    exact (hpool.consume hcx).1
  · obtain hfull | hroom := Nat.eq_or_lt_of_le hring
    · rw [hpool.full hfull]
      exact ⟨fun _ => by omega, fun _ => rfl⟩
    · rw [(hpool.produce hroom).1]
      exact ⟨fun h => (by cases h), fun h => by omega⟩
  · obtain hfull | hroom := Nat.eq_or_lt_of_le hring
    · rw [hpool.full hfull] at hb
      cases hb
    · rw [(hpool.produce hroom).1] at hb
      cases hb
      obtain ⟨k, hck, hkp, hk⟩ := mem_slots.mp hmem
      exact absurd (mod_inj (Nat.le_of_lt hkp) (by omega) hk) (Nat.ne_of_lt hkp)

def fourOut : List PoolEvent := [.produce, .extract, .produce, .extract, .produce, .extract,
  .produce, .extract, .produce]

def PoolEvent.keeps : PoolEvent → Bool
  | .consume _ => false
  | _ => true

theorem reach_fourOut : Reach poolStep OldestFirst {} fourOut (fourOut.foldl poolStep {}) :=
  .of_allowed (fun _ e => e.keeps) (fun _ e h => by cases e <;> trivial) (by decide)

theorem rx_pool_in_order_fourOut :
    ((fourOut.foldl poolStep {}).out ++ (fourOut.foldl poolStep {}).waiting).Nodup ∧
    (fourOut.foldl poolStep {}).pool.freeWindowCount +
      ((fourOut.foldl poolStep {}).out ++ (fourOut.foldl poolStep {}).waiting).length =
        rxBufQueueSize ∧
    (∀ buffer, (fourOut.foldl poolStep {}).out.head? = some buffer →
      ((fourOut.foldl poolStep {}).pool.rxConsume buffer).1 = .success) ∧
    ((fourOut.foldl poolStep {}).pool.rxProduce.1 = none ↔
      ((fourOut.foldl poolStep {}).out ++ (fourOut.foldl poolStep {}).waiting).length =
        rxBufQueueSize) ∧
    ∀ buffer, (fourOut.foldl poolStep {}).pool.rxProduce.1 = some buffer →
      buffer ∉ (fourOut.foldl poolStep {}).out ++ (fourOut.foldl poolStep {}).waiting :=
  rx_pool_in_order reach_fourOut

/-! ## Out of order -/

/-- The second loop does not leave a start that is not in use. -/
theorem release_all {freeIndex : Nat → Bool} {consume : Nat}
    (h : freeIndex (next consume) = false) (n w : Nat) :
    release freeIndex consume (next consume) n w = (0, w + n) := by
  induction n generalizing w with
  | zero => rfl
  | succ n ih => rw [release, h, if_neg Bool.false_ne_true, ih, Nat.add_assoc, Nat.add_comm 1 n]

theorem consume_forgets {i : Nat} (hstart : sub32 m.readIndex m.freeAvailableCount %
      rxBufQueueSize = i) (havail : m.freeAvailableCount ≠ 0) (hset : m.freeIndex i = true)
    (hnext : m.freeIndex (next i) = false) (hne : next i ≠ i) :
    (m.rxConsume i).1 = .success ∧ (m.rxConsume i).2.freeAvailableCount = 0 ∧
      (m.rxConsume i).2.freeWindowCount = m.freeWindowCount + m.freeAvailableCount ∧
      (m.rxConsume i).2.writeIndex = m.writeIndex := by
  obtain ⟨n, hn⟩ := Nat.exists_eq_succ_of_ne_zero havail
  have hnext' : Function.update m.freeIndex i false (next i) = false := by
    rw [Function.update_of_ne hne, hnext]
  rw [rxConsume, if_pos havail, hstart]
  dsimp only
  rw [findConsumed_start]
  dsimp only
  rw [if_pos rfl, if_pos rfl, hset, Bool.not_true, hn, release, Function.update_self,
    if_neg Bool.false_ne_true, release_all hnext']
  exact ⟨rfl, rfl, by show m.freeWindowCount + 1 + n = _; omega, rfl⟩

def freed (m : MemPool) (i : Nat) : MemPool :=
  { m with freeIndex := Function.update m.freeIndex i false }

theorem freed_freeIndex (m : MemPool) (i : Nat) :
    (m.freed i).freeIndex = Function.update m.freeIndex i false := rfl

theorem At.consume_second (h : At m c x p) (hx : c + 1 < x) :
    m.rxConsume ((c + 1) % rxBufQueueSize) = (.success, m.freed ((c + 1) % rxBufQueueSize)) := by
  have hp := h.extracted_le
  have hring := h.produced_le
  have havail : m.freeAvailableCount ≠ 0 := by
    rw [h.available]
    omega
  have hne : c % rxBufQueueSize ≠ (c + 1) % rxBufQueueSize := by
    simp only [rxBufQueueSize]
    omega
  have hread : next (c % rxBufQueueSize) ≠ m.readIndex := by
    rw [h.read, next_mod]
    exact fun heq => absurd (mod_inj (Nat.le_of_lt hx) (by omega) heq) (Nat.ne_of_lt hx)
  have hbit : ∀ k, c ≤ k → k < x → m.freeIndex (k % rxBufQueueSize) = true := fun k h1 h2 =>
    (h.bits _ (Nat.mod_lt _ (Nat.succ_pos 15))).mpr ⟨k, h1, Nat.lt_of_lt_of_le h2 hp, rfl⟩
  have hfound : findConsumed m ((c + 1) % rxBufQueueSize) rxBufQueueSize (c % rxBufQueueSize) =
      ((c + 1) % rxBufQueueSize, true) := by
    rw [show findConsumed m ((c + 1) % rxBufQueueSize) rxBufQueueSize (c % rxBufQueueSize) =
      findConsumed m ((c + 1) % rxBufQueueSize) (14 + 1 + 1) (c % rxBufQueueSize) from rfl,
      findConsumed, if_neg hne, if_neg hread, next_mod, findConsumed, if_pos rfl]
  obtain ⟨n, hn⟩ := Nat.exists_eq_succ_of_ne_zero havail
  rw [rxConsume, if_pos havail, h.start]
  dsimp only
  rw [hfound]
  dsimp only
  rw [if_pos rfl, if_pos rfl, hbit (c + 1) (Nat.le_succ c) hx, Bool.not_true, hn, release,
    Function.update_of_ne hne, hbit c (Nat.le_refl c) (by omega), if_pos rfl,
    show n + 1 = m.freeAvailableCount from hn.symm]
  rfl

def produced : Nat → MemPool → MemPool
  | 0, m => m
  | n + 1, m => produced n m.rxProduce.2

theorem produced_free {n : Nat} : ∀ {m : MemPool} {p : Nat}, n < m.freeWindowCount →
    m.writeIndex = p % rxBufQueueSize →
    (produced n m).rxProduce.1 = some ((p + n) % rxBufQueueSize) := by
  induction n with
  | zero =>
    intro m p hn hw
    rw [produced, rxProduce, if_pos (Nat.ne_of_gt hn), hw]
    rfl
  | succ n ih =>
    intro m p hn hw
    have hstep : m.rxProduce.2.freeWindowCount = m.freeWindowCount - 1 ∧
        m.rxProduce.2.writeIndex = (p + 1) % rxBufQueueSize := by
      rw [rxProduce, if_pos (by omega), hw]
      exact ⟨rfl, next_mod p⟩
    rw [produced, show p + (n + 1) = p + 1 + n by omega]
    exact ih (by rw [hstep.1]; omega) hstep.2

/-- Three buffers are out and the second is given back before the oldest: the state behind that
takes no buffer back, and goes on to produce the third again while it is out. -/
theorem rx_pool_forgets {es : List PoolEvent} {s : Owners} (h : Reach poolStep OldestFirst {} es s)
    {oldest second third : Nat} {rest : List Nat} (hout : s.out = oldest :: second :: third :: rest) :
    (s.pool.rxConsume second).1 = .success ∧
    ((s.pool.rxConsume second).2.rxConsume oldest).1 = .success ∧
    (∀ buffer, ((s.pool.rxConsume second).2.rxConsume oldest).2.rxConsume buffer =
      (.noMem, ((s.pool.rxConsume second).2.rxConsume oldest).2)) ∧
    ∃ n, (produced n ((s.pool.rxConsume second).2.rxConsume oldest).2).rxProduce.1 =
      some third := by
  obtain ⟨c, x, p, hpool, hslots, -⟩ := h.invariant (I := fun s => ∃ c x p, Agree s c x p)
    ⟨0, 0, 0, at_init, rfl, rfl⟩ fun s e hs he => by
      obtain ⟨_, _, _, hs⟩ := hs
      exact hs.step he
  have hlen : x - c = (oldest :: second :: third :: rest).length := by
    rw [← hout, hslots, slots_length]
  simp only [List.length_cons] at hlen
  rw [hout, slots_cons (by omega), slots_cons (by omega), slots_cons (by omega)] at hslots
  obtain ⟨ho, hslots⟩ := List.cons.inj hslots
  obtain ⟨hs, hslots⟩ := List.cons.inj hslots
  obtain ⟨ht, -⟩ := List.cons.inj hslots
  have hx : c + 1 < x := by omega
  have hxp := hpool.extracted_le
  have hring := hpool.produced_le
  have havail := hpool.available
  have hne : next (c % rxBufQueueSize) ≠ c % rxBufQueueSize := by
    rw [next_mod]
    simp only [rxBufQueueSize]
    omega
  have hset : (s.pool.freed ((c + 1) % rxBufQueueSize)).freeIndex (c % rxBufQueueSize) = true := by
    rw [freed_freeIndex, Function.update_of_ne (next_mod c ▸ hne.symm)]
    exact (hpool.bits _ (Nat.mod_lt _ (Nat.succ_pos 15))).mpr
      ⟨c, Nat.le_refl _, Nat.lt_of_lt_of_le (by omega) hxp, rfl⟩
  have hcleared : (s.pool.freed ((c + 1) % rxBufQueueSize)).freeIndex
      (next (c % rxBufQueueSize)) = false := by
    rw [next_mod, freed_freeIndex, Function.update_self]
  rw [hs, hpool.consume_second hx, ho]
  have hforget := consume_forgets (m := s.pool.freed ((c + 1) % rxBufQueueSize))
    hpool.start (by show s.pool.freeAvailableCount ≠ 0; omega) hset hcleared hne
  dsimp only
  generalize (s.pool.freed ((c + 1) % rxBufQueueSize)).rxConsume (c % rxBufQueueSize) = r
    at hforget ⊢
  obtain ⟨hok, hnone, hwindow, hwrite⟩ := hforget
  refine ⟨rfl, hok, fun buffer => ?_, c + 18 - p, ?_⟩
  · rw [rxConsume, hnone]
    exact if_neg fun h => h rfl
  · -- as if the buffers that are out were free
    have hroom : c + 18 - p < r.2.freeWindowCount := by
      rw [hwindow]
      show _ < s.pool.freeWindowCount + s.pool.freeAvailableCount
      rw [hpool.window, hpool.available]
      simp only [rxBufQueueSize] at *
      omega
    rw [produced_free hroom (hwrite.trans hpool.write), ht]
    simp only [rxBufQueueSize] at *
    congr 1
    omega

/-- The first of four, out of order. -/
theorem rx_pool_forgets_fourOut :
    ((fourOut.foldl poolStep {}).pool.rxConsume 1).1 = .success ∧
    (((fourOut.foldl poolStep {}).pool.rxConsume 1).2.rxConsume 0).1 = .success ∧
    (∀ buffer, (((fourOut.foldl poolStep {}).pool.rxConsume 1).2.rxConsume 0).2.rxConsume buffer =
      (.noMem, (((fourOut.foldl poolStep {}).pool.rxConsume 1).2.rxConsume 0).2)) ∧
    ∃ n, (produced n (((fourOut.foldl poolStep {}).pool.rxConsume 1).2.rxConsume
      0).2).rxProduce.1 = some 2 :=
  @rx_pool_forgets _ _ reach_fourOut 0 1 2 [3] (by decide)

end MemPool

end OtaFix.Hci

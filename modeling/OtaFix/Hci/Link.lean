import OtaFix.Hci.Transport

/-!
# Frames and bytes at the receiver

Between the bytes of `hci_slip.c` and the packets of `hci_transport.c`. The UART hands a frame to
the transport as `arrive` does: a packet that fits the registered buffer is one event, any other
one is an overflow (`uart_frames`).

An overflow leaves the buffer for acknowledgements registered, and every longer packet overflows
it again: from then on the transport gets nothing of the packets of five bytes and more
(`transport_deaf`).
-/

namespace OtaFix.Hci

open Lib

section Overflow

variable {υ β : Type*} {up : Upper υ β} {a : Option β} {k : Nat} {u : υ} {r : SlipRx β}

/-- An overflow registers one and the same buffer, and does nothing else. -/
def Overflows (up : Upper υ β) (a : Option β) (k : Nat) : Prop :=
  ∀ b n s, up (.rxOverflow b n) s = (s.1, hciSlipRxBufferRegister a k)

theorem overflow_eq (h : Overflows up a k) (u : υ) (r : SlipRx β) :
    overflow up (u, r) = (u, hciSlipRxBufferRegister a k) := h _ _ _

theorem free_of_empty (hb : r.buffer ≠ none) (hsize : 0 < r.size) (hr : r.received = []) :
    rxBufferOverflowed r = false :=
  not_overflowed hb (by rw [hr]; exact hsize)

theorem uart_free (h : rxBufferOverflowed r = false) (b : Byte) :
    uartData up (u, r) b = handleRxByte up b (u, r) := by
  rw [uartData, h, if_neg Bool.false_ne_true]

theorem uart_full (hup : Overflows up a k) (h : rxBufferOverflowed r = true) (b : Byte) :
    uartData up (u, r) b = (u, hciSlipRxBufferRegister a k) := by
  rw [uartData, h, if_pos rfl, overflow_eq hup]

/-- Outside a frame the bytes are skipped. -/
theorem uart_skip {l : List Byte} (hw : r.handler = .waitStart) (hfree : rxBufferOverflowed r = false)
    (hl : appSlipEnd ∉ l) : l.foldl (uartData up) (u, r) = (u, r) := by
  induction l with
  | nil => rfl
  | cons b l ih =>
    rw [List.mem_cons, not_or] at hl
    have hb : handleRxByte up b (u, r) = (u, r) := by
      rw [handleRxByte, hw]
      exact if_neg (Ne.symm hl.1)
    rw [List.foldl_cons, uart_free hfree, hb]
    exact ih hl.2

/-- What is left of a frame after an overflow. -/
theorem uart_rest {l : List Byte} (ha : a ≠ none) (hk : 0 < k) (hl : appSlipEnd ∉ l) :
    (l ++ [appSlipEnd]).foldl (uartData up) (u, hciSlipRxBufferRegister a k) =
      (u, (hciSlipRxBufferRegister a k).handle .plain) := by
  have hfree : rxBufferOverflowed (hciSlipRxBufferRegister a k) = false := free_of_empty ha hk rfl
  rw [List.foldl_append, uart_skip rfl hfree hl, List.foldl_cons, List.foldl_nil, uart_free hfree]
  rfl

/-- A frame whose packet does not fit. -/
theorem uart_overflow (hup : Overflows up a k) (ha : a ≠ none) (hk : 0 < k) (hr : Between r)
    {p : List Byte} (hp : ¬ (r.buffer ≠ none ∧ p.length < r.size)) : ∃ r',
    (slip.frame p).foldl (uartData up) (u, r) = (u, r') ∧
      (r' = hciSlipRxBufferRegister a k ∨ r' = (hciSlipRxBufferRegister a k).handle .plain) := by
  have hbody := slip.stop_not_mem_body p
  by_cases hfull : rxBufferOverflowed r = true
  · refine ⟨_, ?_, .inr rfl⟩
    show ((slip.body p ++ [appSlipEnd]).foldl (uartData up) (uartData up (u, r) appSlipEnd)) = _
    rw [uart_full hup hfull]
    exact uart_rest ha hk hbody
  · have hfree : rxBufferOverflowed r = false := Bool.eq_false_iff.mpr hfull
    rw [rxBufferOverflowed, Bool.or_eq_false_iff] at hfree
    have hb : r.buffer ≠ none := Option.isSome_iff_ne_none.mp (Option.isNone_eq_false_iff.mp hfree.1)
    have hsize : r.size ≤ p.length := Nat.not_lt.mp fun h => hp ⟨hb, h⟩
    -- the buffer is full in the middle of the packet
    obtain ⟨p₁, p₂, rfl, hlen⟩ : ∃ p₁ p₂, p = p₁ ++ p₂ ∧ p₁.length = r.size :=
      ⟨p.take r.size, p.drop r.size, (List.take_append_drop ..).symm,
        List.length_take_of_le hsize⟩
    have hsplit : slip.body (p₁ ++ p₂) = slip.body p₁ ++ slip.body p₂ := List.flatMap_append
    rw [hsplit] at hbody
    have hstored : ((r.handle .plain).put p₁).received.length = r.size := by
      show (r.received ++ p₁).length = _
      rw [hr.received]
      exact hlen
    have hfeeds : Feeds up (slip.body p₁) (u, r.handle .plain) (u, (r.handle .plain).put p₁) := by
      refine feeds_body p₁ rfl hb ?_
      show r.received.length + p₁.length ≤ r.size
      rw [hr.received, hlen]
      exact Nat.le_of_eq (Nat.zero_add _)
    have hover : rxBufferOverflowed ((r.handle .plain).put p₁) = true := by
      rw [rxBufferOverflowed, Bool.or_eq_true]
      exact .inr (decide_eq_true (Nat.le_of_eq hstored.symm))
    have hstart : (slip.frame (p₁ ++ p₂)).foldl (uartData up) (u, r) =
        (slip.body p₂ ++ [appSlipEnd]).foldl (uartData up) (u, (r.handle .plain).put p₁) := by
      show (slip.body (p₁ ++ p₂) ++ [appSlipEnd]).foldl (uartData up)
        (uartData up (u, r) appSlipEnd) = _
      rw [uart_free (Bool.eq_false_iff.mpr hfull), hr.start, hsplit, List.append_assoc,
        List.foldl_append, hfeeds.uart]
    rw [hstart]
    cases hb₂ : slip.body p₂ with
    | nil =>
      exact ⟨_, uart_full hup hover _, .inl rfl⟩
    | cons b l =>
      rw [hb₂] at hbody
      refine ⟨_, ?_, .inr rfl⟩
      rw [List.cons_append, List.foldl_cons, uart_full hup hover]
      exact uart_rest ha hk fun h => hbody (List.mem_append_right _ (List.mem_cons_of_mem _ h))

end Overflow

/-! ## A frame arrives -/

theorem overflows_slipEventHandle (left : Nat) :
    Overflows (slipEventHandle left) (some .ack) ackBufSize := fun _ _ _ => rfl

theorem registerUsed_between (rx : RxSide) : Between (registerUsed rx) := ⟨.inl rfl, rfl⟩

theorem registerProduced_between (rx : RxSide) : Between (registerProduced rx) := by
  unfold registerProduced
  split <;> exact ⟨.inl rfl, rfl⟩

theorem rxPktDrop_between (h : Transport) : Between (rxPktDrop h).2 := by
  unfold rxPktDrop
  split
  · exact registerUsed_between _
  · exact registerProduced_between _

/-- Each event registers a buffer. -/
theorem slipEventHandle_between (left : Nat) (e : SlipEvent RxBuf) (s : Endpoint) :
    Between (slipEventHandle left e s).2 := by
  cases e with
  | rxOverflow b n => exact ⟨.inl rfl, rfl⟩
  | rxRdy b p =>
    rw [slipEventHandle]
    dsimp only
    split
    · exact rxPktDrop_between _
    · split
      · unfold rxVendorSpecificPktTypeHandle
        split
        · split
          · exact registerProduced_between _
          · exact registerUsed_between _
        · exact registerUsed_between _
      · split
        · split <;> exact rxPktDrop_between _
        · exact rxPktDrop_between _

/-- The bytes of a frame do to an endpoint what its packet does, up to the place from which SLIP
looks for the next frame. -/
theorem uart_arrive (left : Nat) {p : List Byte} (hp : p ≠ []) {s : Endpoint} (hs : Between s.2) :
    ∃ t : Endpoint, (slip.frame p).foldl (uartData (slipEventHandle left)) s = t ∧
      t.1 = (arrive left p s).1 ∧ Between t.2 ∧
      t.2.handle .waitStart = (arrive left p s).2.handle .waitStart := by
  obtain ⟨h, r⟩ := s
  rw [arrive, if_neg hp]
  split
  · rename_i hfit
    refine ⟨_, (feeds_frame hs hfit.1 hp hfit.2).uart, rfl, slipEventHandle_between _ _ _, rfl⟩
  · rename_i hfit
    obtain ⟨r', hr', hcase⟩ := uart_overflow (u := h) (overflows_slipEventHandle left)
      (fun h => by cases h) (by decide) hs hfit
    refine ⟨(h, r'), hr', rfl, ?_⟩
    obtain rfl | rfl := hcase
    · exact ⟨⟨.inl rfl, rfl⟩, rfl⟩
    · exact ⟨⟨.inr rfl, rfl⟩, rfl⟩

/-- An event does not read the registration that it replaces. -/
theorem slipEventHandle_fst (left : Nat) (e : SlipEvent RxBuf) (h : Transport)
    (r r' : SlipRx RxBuf) : slipEventHandle left e (h, r) = slipEventHandle left e (h, r') := by
  cases e <;> rfl

theorem arrive_congr {left : Nat} {p : List Byte} {h : Transport} {r r' : SlipRx RxBuf}
    (heq : r.handle .waitStart = r'.handle .waitStart) :
    (arrive left p (h, r)).1 = (arrive left p (h, r')).1 ∧
      (arrive left p (h, r)).2.handle .waitStart = (arrive left p (h, r')).2.handle .waitStart := by
  have hb : (r.handle .waitStart).buffer = (r'.handle .waitStart).buffer :=
    congrArg SlipRx.buffer heq
  have hsize : (r.handle .waitStart).size = (r'.handle .waitStart).size :=
    congrArg SlipRx.size heq
  change r.buffer = r'.buffer at hb
  change r.size = r'.size at hsize
  unfold arrive
  dsimp only
  rw [hb, hsize]
  split
  · exact ⟨rfl, heq⟩
  · split
    · rw [slipEventHandle_fst left _ h r.taken r'.taken]
      exact ⟨rfl, rfl⟩
    · rw [slipEventHandle_fst left _ h r r']
      exact ⟨rfl, rfl⟩

theorem arrivals_congr {left : Nat} {ps : List (List Byte)} {s t : Endpoint} (h1 : s.1 = t.1)
    (h2 : s.2.handle .waitStart = t.2.handle .waitStart) :
    (ps.foldl (fun u p => arrive left p u) s).1 = (ps.foldl (fun u p => arrive left p u) t).1 := by
  induction ps generalizing s t with
  | nil => exact h1
  | cons p ps ih =>
    obtain ⟨hu, hr⟩ := @arrive_congr left p s.1 s.2 t.2 h2
    obtain ⟨h, r'⟩ := t
    cases h1
    exact ih hu hr

def frames (ps : List (List Byte)) : List Byte := ps.flatMap slip.frame

/-- Byte by byte over the UART, the frames of any packets do to the transport what the packets do
as they arrive one after the other, those that overflow the registered buffer included. -/
theorem uart_frames (left : Nat) {ps : List (List Byte)} (hps : ∀ p ∈ ps, p ≠ []) {s : Endpoint}
    (hs : Between s.2) :
    ((frames ps).foldl (uartData (slipEventHandle left)) s).1 =
      (ps.foldl (fun t p => arrive left p t) s).1 := by
  induction ps generalizing s with
  | nil => rfl
  | cons p ps ih =>
    obtain ⟨hp, hps⟩ := List.forall_mem_cons.mp hps
    obtain ⟨t, ht, hsame, hbetween, hr⟩ := uart_arrive left hp hs
    rw [frames, List.flatMap_cons, List.foldl_append, ht, List.foldl_cons]
    exact (ih hps hbetween).trans (arrivals_congr hsame hr)

/-- An overlong packet, and a good one. -/
theorem uart_frames_overlong :
    ((frames [List.replicate 600 7, dataPacket 1 1 [1, 2, 3, 4]]).foldl
      (uartData (slipEventHandle 0)) hciTransportOpen).1 =
      ([List.replicate 600 7, dataPacket 1 1 [1, 2, 3, 4]].foldl (fun t p => arrive 0 p t)
        hciTransportOpen).1 :=
  uart_frames 0 (by
    rw [List.forall_mem_cons, List.forall_mem_singleton]
    exact ⟨(fun h => by cases h), (fun h => by cases h)⟩) ⟨.inl rfl, rfl⟩

/-! ## Deafness -/

section Deaf

variable {υ β : Type*} {up : Upper υ β} {a : Option β} {k : Nat} {u : υ} {r : SlipRx β}

theorem frames_cons (p : List Byte) (ps : List (List Byte)) :
    frames (p :: ps) = appSlipEnd :: (slip.body p ++ appSlipEnd :: frames ps) :=
  congrArg (appSlipEnd :: ·) (List.append_assoc (slip.body p) [appSlipEnd] (frames ps))

/-- On the bytes to come the receiver, with a buffer of `k` bytes, finds no packet that fits. -/
inductive Deaf (k : Nat) (r : SlipRx β) : List Byte → Prop where
  | between (ps : List (List Byte)) : Between r → (∀ p ∈ ps, k ≤ p.length) → Deaf k r (frames ps)
  | inside (p : List Byte) (ps : List (List Byte)) : r.handler = .plain →
      k ≤ r.received.length + p.length → (∀ p ∈ ps, k ≤ p.length) →
      Deaf k r (slip.body p ++ appSlipEnd :: frames ps)
  | escaped (b x : Byte) (p : List Byte) (ps : List (List Byte)) : r.handler = .esc → special b →
      Sender.encoded.byte b = some x → k ≤ r.received.length + 1 + p.length →
      (∀ p ∈ ps, k ≤ p.length) → Deaf k r (x :: (slip.body p ++ appSlipEnd :: frames ps))
  | skipping (l : List Byte) (ps : List (List Byte)) : r.handler = .waitStart → r.received = [] →
      appSlipEnd ∉ l → (∀ p ∈ ps, k ≤ p.length) → Deaf k r (l ++ appSlipEnd :: frames ps)

theorem encoded_ne_end {b x : Byte} (hb : special b) (hx : Sender.encoded.byte b = some x) :
    x ≠ appSlipEnd := by
  obtain rfl | rfl := hb <;> cases hx <;> decide

/-- A byte that finds room. -/
theorem Deaf.byte {b : Byte} {l : List Byte} (h : Deaf k r (b :: l))
    (hsize : r.size = k) (hfree : rxBufferOverflowed r = false) :
    ∃ r', handleRxByte up b (u, r) = (u, r') ∧ r'.buffer = r.buffer ∧ r'.size = r.size ∧
      Deaf k r' l := by
  have hroom : r.received.length < k := by
    rw [rxBufferOverflowed, Bool.or_eq_false_iff] at hfree
    exact hsize ▸ Nat.not_le.mp (of_decide_eq_false hfree.2)
  generalize hbl : b :: l = bl at h
  cases h with
  | between ps hr hps =>
    cases ps with
    | nil => cases hbl
    | cons p ps =>
      rw [frames_cons] at hbl
      obtain ⟨rfl, rfl⟩ := List.cons.inj hbl
      obtain ⟨hp, hps⟩ := List.forall_mem_cons.mp hps
      refine ⟨r.handle .plain, hr.start, rfl, rfl, .inside p ps rfl ?_ hps⟩
      exact Nat.le_trans hp (Nat.le_add_left _ _)
  | inside p ps hr hlen hps =>
    cases p with
    | nil => exact absurd hlen (Nat.not_le.mpr hroom)
    | cons c p =>
      rw [List.length_cons] at hlen
      rw [slip.body_cons] at hbl
      by_cases hc : special c
      · obtain ⟨x, hx, hstuff⟩ := slip_stuff_special hc
        rw [hstuff] at hbl
        obtain ⟨rfl, rfl⟩ := List.cons.inj hbl
        exact ⟨r.handle .esc, handleRxByte_esc hr, rfl, rfl,
          .escaped c x p ps rfl hc hx (by show k ≤ r.received.length + 1 + _; omega) hps⟩
      · rw [slip_stuff_plain hc] at hbl
        obtain ⟨rfl, rfl⟩ := List.cons.inj hbl
        refine ⟨r.store b, ?_, rfl, rfl, .inside p ps hr ?_ hps⟩
        · rw [handleRxByte, hr]
          dsimp only
          rw [if_neg fun h => hc (.inl h), if_neg fun h => hc (.inr h)]
        · show k ≤ (r.received ++ [b]).length + p.length
          rw [List.length_append, List.length_singleton]
          omega
  | escaped c x p ps hr hs hx hlen hps =>
    obtain ⟨rfl, rfl⟩ := List.cons.inj hbl
    refine ⟨(r.store c).handle .plain, ?_, rfl, rfl, .inside p ps rfl ?_ hps⟩
    · rw [handleRxByte, hr]
      obtain rfl | rfl := hs <;> cases hx <;> rfl
    · show k ≤ (r.received ++ [c]).length + p.length
      rw [List.length_append, List.length_singleton]
      exact hlen
  | skipping s ps hr hrec hs hps =>
    cases s with
    | nil =>
      obtain ⟨rfl, rfl⟩ := List.cons.inj hbl
      refine ⟨r.handle .plain, ?_, rfl, rfl, .between ps ⟨.inr rfl, hrec⟩ hps⟩
      rw [handleRxByte, hr]
      exact if_pos rfl
    | cons c s =>
      obtain ⟨rfl, rfl⟩ := List.cons.inj hbl
      rw [List.mem_cons, not_or] at hs
      refine ⟨r, ?_, rfl, rfl, .skipping s ps hr hrec hs.2 hps⟩
      rw [handleRxByte, hr]
      exact if_neg (Ne.symm hs.1)

/-- An overflow: the port drops the byte, or keeps it. -/
theorem Deaf.overflowed {b : Byte} {l : List Byte} (h : Deaf k r (b :: l)) (hk : 0 < k)
    (hb : r.buffer ≠ none) (hsize : r.size = k) (hfull : rxBufferOverflowed r = true) :
    Deaf k (hciSlipRxBufferRegister a k) l ∧ Deaf k (hciSlipRxBufferRegister a k) (b :: l) := by
  have hne : r.received ≠ [] := by
    intro hr
    rw [free_of_empty hb (hsize ▸ hk) hr] at hfull
    cases hfull
  -- outside a frame nothing is stored; inside, the rest of the frame is skipped
  have hskip : ∀ (s : List Byte) (ps : List (List Byte)), appSlipEnd ∉ s →
      (∀ p ∈ ps, k ≤ p.length) → s ++ appSlipEnd :: frames ps = b :: l →
      Deaf k (hciSlipRxBufferRegister a k) l ∧ Deaf k (hciSlipRxBufferRegister a k) (b :: l) := by
    intro s ps hs hps hbl
    refine ⟨?_, hbl ▸ .skipping s ps rfl rfl hs hps⟩
    cases s with
    | nil =>
      obtain ⟨-, rfl⟩ := List.cons.inj hbl
      exact .between ps ⟨.inl rfl, rfl⟩ hps
    | cons c s =>
      obtain ⟨-, rfl⟩ := List.cons.inj hbl
      exact .skipping s ps rfl rfl (fun h => hs (List.mem_cons_of_mem _ h)) hps
  generalize hbl : b :: l = bl at h
  cases h with
  | between ps hr => exact absurd hr.received hne
  | skipping s ps hr hrec => exact absurd hrec hne
  | inside p ps hr hlen hps =>
    exact hbl ▸ hskip _ ps (slip.stop_not_mem_body p) hps hbl.symm
  | escaped c x p ps hr hs hx hlen hps =>
    refine hbl ▸ hskip (x :: slip.body p) ps ?_ hps hbl.symm
    rw [List.mem_cons, not_or]
    exact ⟨(encoded_ne_end hs hx).symm, slip.stop_not_mem_body p⟩

/-- The registered buffer has `k` bytes, and holds nothing that could become a packet. -/
structure Stuck (k : Nat) (r : SlipRx β) (l : List Byte) : Prop where
  buffer : r.buffer ≠ none
  size : r.size = k
  deaf : Deaf k r l

theorem Stuck.byte {b : Byte} {l : List Byte} (h : Stuck k r (b :: l))
    (hfree : rxBufferOverflowed r = false) :
    ∃ r', handleRxByte up b (u, r) = (u, r') ∧ Stuck k r' l := by
  obtain ⟨r', hr', hb, hs, hd⟩ := h.deaf.byte h.size hfree
  exact ⟨r', hr', hb ▸ h.buffer, hs.trans h.size, hd⟩

theorem Stuck.overflowed {b : Byte} {l : List Byte} (h : Stuck k r (b :: l)) (ha : a ≠ none)
    (hk : 0 < k) (hfull : rxBufferOverflowed r = true) :
    Stuck k (hciSlipRxBufferRegister a k) l ∧ Stuck k (hciSlipRxBufferRegister a k) (b :: l) := by
  obtain ⟨hdrop, hkeep⟩ := h.deaf.overflowed (a := a) hk h.buffer h.size hfull
  exact ⟨⟨ha, rfl, hdrop⟩, ha, rfl, hkeep⟩

variable (hup : Overflows up a k) (ha : a ≠ none) (hk : 0 < k)
include hup ha hk

theorem Stuck.uart {l rest : List Byte} (h : Stuck k r (l ++ rest)) :
    ∃ r', l.foldl (uartData up) (u, r) = (u, r') ∧ Stuck k r' rest := by
  induction l generalizing r with
  | nil => exact ⟨r, rfl, h⟩
  | cons b l ih =>
    rw [List.foldl_cons]
    cases hfull : rxBufferOverflowed r with
    | true =>
      rw [uart_full hup hfull]
      exact ih (h.overflowed ha hk hfull).1
    | false =>
      rw [uart_free hfull]
      obtain ⟨r', hr', hs⟩ : ∃ r', handleRxByte up b (u, r) = (u, r') ∧ Stuck k r' (l ++ rest) :=
        h.byte hfull
      rw [hr']
      exact ih hs

theorem Stuck.pending {l rest : List Byte} (h : Stuck k r (l ++ rest)) :
    ∃ l' r', hciSlipProcessPendingRx up l (u, r) = (l', (u, r')) ∧ Stuck k r' (l' ++ rest) := by
  induction l generalizing r with
  | nil => exact ⟨[], r, rfl, h⟩
  | cons b l ih =>
    rw [hciSlipProcessPendingRx]
    cases hfull : rxBufferOverflowed r with
    | true =>
      rw [if_pos rfl, overflow_eq hup]
      exact ⟨b :: l, _, rfl, (h.overflowed ha hk hfull).2⟩
    | false =>
      rw [if_neg Bool.false_ne_true]
      obtain ⟨r', hr', hs⟩ : ∃ r', handleRxByte up b (u, r) = (u, r') ∧ Stuck k r' (l ++ rest) :=
        h.byte hfull
      rw [hr']
      exact ih hs

theorem Stuck.usb {chunks : List (List Byte)} : ∀ {fifo rest : List Byte} {r : SlipRx β},
    Stuck k r (fifo ++ chunks.flatten ++ rest) →
    ∃ l' r', chunks.foldl (tudCdcRxCb up) (fifo, (u, r)) = (l', (u, r')) ∧
      Stuck k r' (l' ++ rest) := by
  induction chunks with
  | nil =>
    intro fifo rest r h
    rw [List.flatten_nil, List.append_nil] at h
    exact ⟨fifo, r, rfl, h⟩
  | cons c chunks ih =>
    intro fifo rest r h
    rw [List.flatten_cons, ← List.append_assoc, List.append_assoc (fifo ++ c)] at h
    obtain ⟨l', r', hl', hs⟩ := h.pending (u := u) hup ha hk
    rw [List.foldl_cons, tudCdcRxCb]
    dsimp only
    rw [hl']
    rw [← List.append_assoc] at hs
    exact ih hs

end Deaf

/-- With the buffer for acknowledgements registered, the bytes of packets of five bytes and more
do nothing to the transport, over the UART or over USB in any chunks, however many there are. -/
theorem transport_deaf (left : Nat) {s : Endpoint} (hs : Between s.2) (hb : s.2.buffer = some .ack)
    (hsize : s.2.size = ackBufSize) {ps : List (List Byte)} (hps : ∀ p ∈ ps, ackBufSize ≤ p.length)
    {l rest : List Byte} (hl : l ++ rest = frames ps) :
    (l.foldl (uartData (slipEventHandle left)) s).1 = s.1 ∧
    ∀ chunks : List (List Byte), chunks.flatten = l →
      (chunks.foldl (tudCdcRxCb (slipEventHandle left)) ([], s)).2.1 = s.1 := by
  obtain ⟨h, r⟩ := s
  have hstuck : Stuck ackBufSize r (l ++ rest) :=
    ⟨fun h => (by cases hb.symm.trans h), hsize, hl ▸ .between ps hs hps⟩
  have hup := overflows_slipEventHandle left
  refine ⟨?_, fun chunks hc => ?_⟩
  · obtain ⟨r', hr', -⟩ := hstuck.uart (u := h) hup (fun h => by cases h) (by decide)
    rw [hr']
  · have hfifo : Stuck ackBufSize r ([] ++ chunks.flatten ++ rest) := by
      rw [hc]
      exact hstuck
    obtain ⟨l', r', hl', -⟩ := hfifo.usb (u := h) hup (fun h => by cases h) (by decide)
    rw [hl']

/-- A packet of one byte too many arrives, and then a good one. -/
theorem transport_deaf_overlong :
    ((frames [dataPacket 1 1 [1, 2, 3, 4]]).foldl (uartData (slipEventHandle 0))
      (arrive 0 (List.replicate 600 7) hciTransportOpen)).1 =
        (arrive 0 (List.replicate 600 7) hciTransportOpen).1 ∧
    ∀ chunks : List (List Byte), chunks.flatten = frames [dataPacket 1 1 [1, 2, 3, 4]] →
      (chunks.foldl (tudCdcRxCb (slipEventHandle 0))
        ([], arrive 0 (List.replicate 600 7) hciTransportOpen)).2.1 =
          (arrive 0 (List.replicate 600 7) hciTransportOpen).1 := by
  have hover : arrive 0 (List.replicate 600 7) hciTransportOpen =
      (hciTransportOpen.1, hciSlipRxBufferRegister (some .ack) ackBufSize) := by
    rw [arrive, if_neg (fun h => by cases h), if_neg]
    · rfl
    · rw [List.length_replicate]
      exact fun h => absurd h.2 (by decide)
  rw [hover]
  exact @transport_deaf 0 _ ⟨.inl rfl, rfl⟩ rfl rfl _ (by decide) _ [] (List.append_nil _)

end OtaFix.Hci

import OtaFix.Hci.Transport

/-!
# What a receiver hands on

In every run of an endpoint, whatever arrives, the application gets valid packets that arrived,
in the order of arrival and with consecutive numbers. While it consumes in order, no buffer that
it has is written again (`transport_rx_exact`).
-/

namespace OtaFix.Hci

open Lib MemPool

variable {h : Transport} {rx : RxSide} {r : SlipRx RxBuf} {c x p left : Nat} {packet : List Byte}

/-! ## Where SLIP stores -/

/-- The registered buffer: the one that was produced last, or else none of the pool's. -/
inductive Place (rx : RxSide) (r : SlipRx RxBuf) (x p : Nat) : Prop where
  | whole : rx.used = some (x % rxBufQueueSize) → p = x + 1 →
      r.buffer = some (.pool (x % rxBufQueueSize)) → r.size = rxBufSize → Place rx r x p
  | ack : (rx.used = some (x % rxBufQueueSize) ∧ p = x + 1 ∨ rx.used = none ∧ p = x) →
      r.buffer = some .ack → r.size = ackBufSize → Place rx r x p
  | missing : rx.used = none → p = x → r.buffer = none → Place rx r x p

/-- The buffers of the application hold what it extracted. -/
def Intact (rx : RxSide) : Prop :=
  ∀ b ∈ rx.out, payloadOf ((rx.memory b.1).take (rx.pool.length b.1)) = b.2

structure RxInv (rx : RxSide) (r : SlipRx RxBuf) (c x p : Nat) : Prop where
  pool : At rx.pool c x p
  out : rx.out.map Prod.fst = slots c x
  intact : Intact rx
  recent : rx.out.map Prod.snd <:+ rx.got
  ready : rx.decodeReady = false
  place : Place rx r x p

theorem Place.counts (h : Place rx r x p) :
    rx.used = some (x % rxBufQueueSize) ∧ p = x + 1 ∨ rx.used = none ∧ p = x := by
  cases h with
  | whole hu hp => exact .inl ⟨hu, hp⟩
  | ack hu => exact hu
  | missing hu hp => exact .inr ⟨hu, hp⟩

theorem Place.used (h : rx.used = some (x % rxBufQueueSize) ∧ p = x + 1 ∨ rx.used = none ∧ p = x) :
    Place rx (registerUsed rx) x p := by
  obtain ⟨hu, hp⟩ | ⟨hu, hp⟩ := h
  · exact .whole hu hp (by rw [registerUsed, hu]; rfl) rfl
  · exact .missing hu hp (by rw [registerUsed, hu]; rfl)

theorem Place.produced
    (h : rx.used = some (x % rxBufQueueSize) ∧ p = x + 1 ∨ rx.used = none ∧ p = x) :
    Place rx (registerProduced rx) x p := by
  rw [registerProduced]
  obtain ⟨hu, hp⟩ | ⟨hu, hp⟩ := h
  · rw [hu]
    exact .whole hu hp rfl rfl
  · rw [hu]
    exact .ack (.inr ⟨hu, hp⟩) rfl rfl

theorem Place.congr {rx' : RxSide} (h : Place rx r x p) (hu : rx'.used = rx.used) :
    Place rx' r x p := by
  cases h with
  | whole h1 h2 h3 h4 => exact .whole (hu.trans h1) h2 h3 h4
  | ack h1 h2 h3 => exact .ack (by rw [hu]; exact h1) h2 h3
  | missing h1 h2 h3 => exact .missing (hu.trans h1) h2 h3

theorem Intact.congr {rx' : RxSide} (h : Intact rx) (hout : rx'.out = rx.out)
    (hmem : rx'.memory = rx.memory) (hlen : rx'.pool.length = rx.pool.length) : Intact rx' := by
  intro b hb
  rw [hmem, hlen]
  exact h b (hout ▸ hb)

theorem RxInv.open : ∃ c x p, RxInv hciTransportOpen.1.rx hciTransportOpen.2 c x p := by
  obtain ⟨hslot, hat, -⟩ := at_init.produce (by decide)
  exact ⟨0, 0, 1, hat, rfl, (fun b hb => by cases hb), List.suffix_rfl, rfl, .whole rfl rfl rfl rfl⟩

/-- The buffer behind the application's is not one of them. -/
theorem not_out {m : MemPool} (h : At m c x p) (hp : p = x + 1) :
    x % rxBufQueueSize ∉ slots c x := by
  intro hmem
  have hring := h.produced_le
  obtain ⟨k, hck, hkx, hk⟩ := mem_slots.mp hmem
  exact absurd (mod_inj (Nat.le_of_lt hkx) (by omega) hk) (Nat.ne_of_lt hkx)

section Store

variable (rx) (b : Option RxBuf) (l : List Byte)

@[simp] theorem store_used : (rx.store b l).used = rx.used := by
  unfold RxSide.store
  split <;> rfl

@[simp] theorem store_pool : (rx.store b l).pool = rx.pool := by
  unfold RxSide.store
  split <;> rfl

@[simp] theorem store_out : (rx.store b l).out = rx.out := by
  unfold RxSide.store
  split <;> rfl

@[simp] theorem store_expected : (rx.store b l).expected = rx.expected := by
  unfold RxSide.store
  split <;> rfl

@[simp] theorem store_got : (rx.store b l).got = rx.got := by
  unfold RxSide.store
  split <;> rfl

@[simp] theorem store_ready : (rx.store b l).decodeReady = rx.decodeReady := by
  unfold RxSide.store
  split <;> rfl

end Store

/-- SLIP stores into no buffer of the application. -/
theorem RxInv.store (h : RxInv rx r c x p) (l : List Byte) :
    RxInv (rx.store r.buffer l) r c x p where
  pool := store_pool rx _ l ▸ h.pool
  out := by rw [store_out, h.out]
  recent := by
    rw [store_out, store_got]
    exact h.recent
  ready := by rw [store_ready, h.ready]
  place := h.place.congr (store_used rx _ l)
  intact := by
    intro b hb
    rw [store_out] at hb
    rw [store_pool]
    have hintact := h.intact b hb
    have hslot : b.1 ∈ slots c x := h.out ▸ List.mem_map_of_mem hb
    cases h.place with
    | whole hu hp hbuf _ =>
      have hne : b.1 ≠ x % rxBufQueueSize := by
        rintro heq
        exact not_out h.pool hp (heq ▸ hslot)
      rw [hbuf]
      show payloadOf ((Function.update rx.memory _ l b.1).take _) = _
      rw [Function.update_of_ne hne]
      exact hintact
    | ack _ hbuf _ =>
      rw [hbuf]
      exact hintact
    | missing _ _ hbuf =>
      rw [hbuf]
      exact hintact

/-! ## Events -/

theorem produce_cases (h : At rx.pool c x p) :
    (∃ q, At rx.produce.pool c x q ∧
      (rx.produce.used = some (p % rxBufQueueSize) ∧ q = p + 1 ∨
        rx.produce.used = none ∧ q = p)) ∧
    rx.produce.pool.length = rx.pool.length ∧ rx.produce.out = rx.out ∧
    rx.produce.memory = rx.memory ∧ rx.produce.decodeReady = rx.decodeReady := by
  obtain hfull | hroom := Nat.eq_or_lt_of_le h.produced_le
  · have hp : rx.produce = { rx with used := none } := by
      rw [RxSide.produce, h.full hfull]
    rw [hp]
    exact ⟨⟨p, h, .inr ⟨rfl, rfl⟩⟩, rfl, rfl, rfl, rfl⟩
  · obtain ⟨hslot, hat, hlen⟩ := h.produce hroom
    exact ⟨⟨p + 1, hat, .inl ⟨hslot, rfl⟩⟩, hlen, rfl, rfl, rfl⟩

/-- A packet is dropped: the buffer is registered again, or a new one. -/
theorem RxInv.drop (hi : RxInv h.rx r c x p) :
    (∃ q, RxInv (rxPktDrop h).1.rx (rxPktDrop h).2 c x q) ∧
    (rxPktDrop h).1.tx = h.tx ∧ (rxPktDrop h).1.line = h.line ∧
    (rxPktDrop h).1.rx.expected = h.rx.expected ∧ (rxPktDrop h).1.rx.got = h.rx.got := by
  rw [rxPktDrop]
  cases hu : h.rx.used with
  | some slot =>
    exact ⟨⟨p, hi.pool, hi.out, hi.intact, hi.recent, hi.ready, .used hi.place.counts⟩, rfl, rfl,
      rfl, rfl⟩
  | none =>
    have hp : p = x := by
      obtain ⟨hu', -⟩ | ⟨-, hp⟩ := hi.place.counts
      · rw [hu] at hu'
        cases hu'
      · exact hp
    subst hp
    obtain ⟨⟨q, hat, hq⟩, hlen, hout, hmem, hready⟩ := produce_cases hi.pool
    refine ⟨⟨q, hat, ?_, hi.intact.congr hout hmem hlen, hi.recent, hready.trans hi.ready,
      .produced hq⟩, rfl, rfl, rfl, rfl⟩
    exact (congrArg _ hout).trans hi.out

theorem valid_length (hv : isRxPktValid packet = true) : 10 ≤ packet.length := by
  obtain ⟨_, _, payload, heq, h4, -⟩ := (rx_pkt_valid_iff packet).mp hv
  rw [heq, dataPacket_length]
  omega

/-- The extraction in the event of a valid packet gives the application its payload. -/
theorem RxInv.accept (hi : RxInv rx r c x p) (hp : p = x + 1)
    (hmem : rx.memory (x % rxBufQueueSize) = packet) :
    (∃ q, RxInv (rx.accept packet).produce.extract (registerProduced (rx.accept packet).produce)
      c (x + 1) q) ∧
    (rx.accept packet).produce.extract.expected = rx.expected + 1 ∧
    (rx.accept packet).produce.extract.got = rx.got ++ [payloadOf packet] := by
  subst hp
  have hat : At (rx.accept packet).pool c x (x + 1) := hi.pool.sized packet.length
  obtain ⟨⟨q, hq, hplace⟩, hlen, hout, hmemory, hready⟩ := produce_cases hat
  have hxq : x < q := by
    obtain ⟨-, rfl⟩ | ⟨-, rfl⟩ := hplace <;> omega
  obtain ⟨hslot, hat', hlen'⟩ := hq.extract hxq
  have hlength : (rx.accept packet).produce.pool.length =
      Function.update rx.pool.length (x % rxBufQueueSize) packet.length := by
    rw [hlen, ← hi.pool.last]
    rfl
  have hextract : (rx.accept packet).produce.extract =
      (rx.accept packet).produce.handOver (x % rxBufQueueSize) (payloadOf packet) := by
    have hready : (rx.accept packet).produce.decodeReady = true := hready
    rw [RxSide.extract, hready, if_pos rfl, hslot]
    dsimp only
    rw [hlength, Function.update_self, hmemory]
    show RxSide.handOver _ _ (payloadOf ((rx.memory _).take _)) = _
    rw [hmem, List.take_length]
  rw [hextract]
  refine ⟨⟨q, hat', ?_, ?_, ?_, rfl, ?_⟩, rfl, rfl⟩
  · show (rx.out ++ [_]).map Prod.fst = _
    rw [List.map_append, hi.out, slots_snoc hi.pool.consumed_le]
    rfl
  · intro b hb
    show payloadOf ((rx.memory b.1).take ((rx.accept packet).produce.pool.rxExtract.2.length b.1)) = _
    rw [hlen', hlength]
    obtain hb | hb := List.mem_append.mp (show b ∈ rx.out ++ [_] from hb)
    · have hne : b.1 ≠ x % rxBufQueueSize := by
        intro heq
        exact not_out hi.pool rfl (heq ▸ hi.out ▸ List.mem_map_of_mem hb)
      rw [Function.update_of_ne hne]
      exact hi.intact b hb
    · cases List.mem_singleton.mp hb
      rw [Function.update_self, hmem, List.take_length]
  · obtain ⟨l, hl⟩ := hi.recent
    refine ⟨l, ?_⟩
    show l ++ (rx.out ++ [_]).map Prod.snd = rx.got ++ [_]
    rw [List.map_append, ← List.append_assoc, hl]
    rfl
  · exact (Place.produced hplace).congr rfl

/-! ## Arrivals -/

/-- What the arrival of a packet can do to an endpoint, but for its buffers. -/
inductive Arrival (left : Nat) (packet : List Byte) (s s' : Endpoint) : Prop where
  | dropped : s'.1.tx = s.1.tx → s'.1.rx.expected = s.1.rx.expected → s'.1.rx.got = s.1.rx.got →
      s'.1.line = s.1.line → Arrival left packet s s'
  | acked : packetTypeDecode packet = some pktTypeAck →
      rxAckPktTypeHandle s.1.tx.number packet = true → s'.1.tx = s.1.tx.acked →
      s'.1.rx.expected = s.1.rx.expected → s'.1.rx.got = s.1.rx.got →
      s'.1.line = s.1.line → Arrival left packet s s'
  | again : isRxPktValid packet = true → s.1.rx.expected ≠ packetSeqNmbrExtract packet →
      s'.1.tx = s.1.tx → s'.1.rx.expected = s.1.rx.expected → s'.1.rx.got = s.1.rx.got →
      s'.1.line = ackTransmit left s.1.rx.expected s.1.line → Arrival left packet s s'
  | accepted : isRxPktValid packet = true → s.1.rx.expected = packetSeqNmbrExtract packet →
      s'.1.tx = s.1.tx → s'.1.rx.expected = s.1.rx.expected + 1 →
      s'.1.rx.got = s.1.rx.got ++ [payloadOf packet] →
      s'.1.line = ackTransmit left (s.1.rx.expected + 1) s.1.line → Arrival left packet s s'

/-- The invariant, but for the positions. -/
def Received (rx : RxSide) (r : SlipRx RxBuf) (c : Nat) : Prop := ∃ x p, RxInv rx r c x p

theorem RxInv.again (hi : RxInv rx r c x p) : Received rx (registerUsed rx) c :=
  ⟨x, p, hi.pool, hi.out, hi.intact, hi.recent, hi.ready, .used hi.place.counts⟩

theorem vendor_spec {s : Endpoint} (hi : RxInv s.1.rx s.2 c x p)
    (hfit : s.2.buffer ≠ none ∧ packet.length < s.2.size) :
    let h := { s.1 with rx := s.1.rx.store s.2.buffer packet }
    Received (rxVendorSpecificPktTypeHandle left packet h).1.rx
        (rxVendorSpecificPktTypeHandle left packet h).2 c ∧
      Arrival left packet s (rxVendorSpecificPktTypeHandle left packet h) := by
  intro h
  have hs : RxInv h.rx s.2 c x p := hi.store packet
  rw [rxVendorSpecificPktTypeHandle]
  split
  · rename_i hv
    split
    · rename_i hexp
      -- so long a packet is in a buffer of the pool
      have hwhole : p = x + 1 ∧ h.rx.memory (x % rxBufQueueSize) = packet := by
        have hlen := valid_length hv
        have hsize := hfit.2
        cases hi.place with
        | whole hu hp hbuf _ =>
          refine ⟨hp, ?_⟩
          show (s.1.rx.store s.2.buffer packet).memory _ = _
          rw [hbuf]
          exact Function.update_self _ _ _
        | ack _ _ hack =>
          rw [hack, ackBufSize] at hsize
          omega
        | missing _ _ hbuf => exact absurd hbuf hfit.1
      obtain ⟨⟨q, hacc⟩, hexp', hgot⟩ := hs.accept hwhole.1 hwhole.2
      have hsame := store_expected s.1.rx s.2.buffer packet
      refine ⟨⟨x + 1, q, hacc⟩, .accepted hv (hsame.symm.trans hexp) rfl ?_ ?_ ?_⟩
      · exact hexp'.trans (congrArg (· + 1) hsame)
      · exact hgot.trans (congrArg (· ++ _) (store_got s.1.rx s.2.buffer packet))
      · show ackTransmit left (h.rx.expected + 1) s.1.line = _
        rw [hsame]
    · rename_i hexp
      have hsame := store_expected s.1.rx s.2.buffer packet
      refine ⟨hs.again, .again hv (fun heq => hexp (hsame.trans heq)) rfl hsame
        (store_got s.1.rx s.2.buffer packet) ?_⟩
      show ackTransmit left h.rx.expected s.1.line = _
      rw [hsame]
  · exact ⟨hs.again, .dropped rfl (store_expected s.1.rx s.2.buffer packet)
      (store_got s.1.rx s.2.buffer packet) rfl⟩

theorem arrive_spec {s : Endpoint} (hi : RxInv s.1.rx s.2 c x p) :
    Received (arrive left packet s).1.rx (arrive left packet s).2 c ∧
      Arrival left packet s (arrive left packet s) := by
  have hquiet : Arrival left packet s s := .dropped rfl rfl rfl rfl
  rw [arrive]
  split
  · exact ⟨⟨x, p, hi⟩, hquiet⟩
  split
  · rename_i hfit
    have hs := hi.store packet
    have hexp := store_expected s.1.rx s.2.buffer packet
    have hgot := store_got s.1.rx s.2.buffer packet
    -- a packet that is dropped, after its acknowledgement took effect or not
    have hdrop : ∀ tx : TxSide, let h : Transport :=
        { s.1 with rx := s.1.rx.store s.2.buffer packet, tx := tx }
        Received (rxPktDrop h).1.rx (rxPktDrop h).2 c ∧ (rxPktDrop h).1.tx = tx ∧
          (rxPktDrop h).1.line = s.1.line ∧ (rxPktDrop h).1.rx.expected = s.1.rx.expected ∧
          (rxPktDrop h).1.rx.got = s.1.rx.got := by
      intro tx h
      have hsh : RxInv h.rx s.2 c x p := hs
      obtain ⟨⟨q, hq⟩, htx, hline, he, hg⟩ := hsh.drop
      exact ⟨⟨x, q, hq⟩, htx, hline, he.trans hexp, hg.trans hgot⟩
    have hplain := hdrop s.1.tx
    rw [slipEventHandle]
    dsimp only
    split
    · exact ⟨hplain.1, .dropped hplain.2.1 hplain.2.2.2.1 hplain.2.2.2.2 hplain.2.2.1⟩
    · rename_i type htype
      split
      · exact vendor_spec hi hfit
      · split
        · rename_i hack
          split
          · rename_i hnumber
            have hacked := hdrop s.1.tx.acked
            exact ⟨hacked.1, .acked (htype.trans (congrArg some hack)) hnumber hacked.2.1
              hacked.2.2.2.1 hacked.2.2.2.2 hacked.2.2.1⟩
          · exact ⟨hplain.1, .dropped hplain.2.1 hplain.2.2.2.1 hplain.2.2.2.2 hplain.2.2.1⟩
        · exact ⟨hplain.1, .dropped hplain.2.1 hplain.2.2.2.1 hplain.2.2.2.2 hplain.2.2.1⟩
  · refine ⟨⟨x, p, hi.pool, hi.out, hi.intact, hi.recent, hi.ready,
      .ack hi.place.counts rfl rfl⟩, ?_⟩
    exact .dropped rfl rfl rfl rfl

/-! ## Runs -/

/-- The application consumes the packet that it has had longest. -/
def Considerate (s : Endpoint) : HostEvent → Prop
  | .consume slot => s.1.rx.out.head?.map Prod.fst = some slot
  | _ => True

theorem pktWrite_rx (payload : List Byte) (h : Transport) :
    (hciTransportPktWrite payload h).2.rx = h.rx := by
  unfold hciTransportPktWrite
  split
  · dsimp only
    split <;> rfl
  · rfl
  · rfl

theorem timeout_rx (h : Transport) : (hciTransportTimeoutHandle h).rx = h.rx := by
  unfold hciTransportTimeoutHandle
  split
  · split <;> rfl
  · rfl
  · rfl

theorem txDone_rx (copies : Nat) (h : Transport) : (slipTxDone copies h).rx = h.rx := by
  unfold slipTxDone
  split
  · rfl
  · split <;> rfl

theorem RxInv.consume {slot : Nat} (hi : RxInv rx r c x p)
    (hslot : rx.out.head?.map Prod.fst = some slot) : RxInv (rx.consume slot) r (c + 1) x p := by
  obtain ⟨b, rest, hout⟩ : ∃ b rest, rx.out = b :: rest := by
    cases hl : rx.out with
    | nil =>
      rw [hl] at hslot
      cases hslot
    | cons b rest => exact ⟨b, rest, rfl⟩
  have hb : b.1 = slot := by
    rw [hout] at hslot
    exact Option.some.inj hslot
  have hslots := hi.out
  rw [hout, List.map_cons] at hslots
  have hcx : c < x := by
    by_contra hcx
    rw [slots, Nat.sub_eq_zero_of_le (Nat.not_lt.mp hcx)] at hslots
    cases hslots
  rw [slots_cons hcx] at hslots
  obtain ⟨hhead, htail⟩ := List.cons.inj hslots
  obtain ⟨-, hat, hlen⟩ := hi.pool.consume hcx
  rw [← hhead, hb] at hat hlen
  have hrest : (rx.consume slot).out = rest := by
    show rx.out.eraseP _ = rest
    rw [hout]
    exact List.eraseP_cons_of_pos (decide_eq_true hb)
  have hrecent : (rx.consume slot).out.map Prod.snd <:+ rx.got := by
    refine List.IsSuffix.trans ⟨[b.2], ?_⟩ hi.recent
    rw [hrest, hout]
    rfl
  refine ⟨hat, hrest ▸ htail, fun b hb => ?_, hrecent, hi.ready, hi.place.congr rfl⟩
  show payloadOf ((rx.memory b.1).take ((rx.pool.rxConsume slot).2.length b.1)) = _
  rw [hlen]
  exact hi.intact b (hout ▸ List.mem_cons_of_mem _ (hrest ▸ hb))

theorem RxInv.step {s : Endpoint} {e : HostEvent} (hi : RxInv s.1.rx s.2 c x p)
    (he : Considerate s e) : ∃ c, Received (hostStep s e).1.rx (hostStep s e).2 c := by
  cases e with
  | write payload =>
    refine ⟨c, x, p, ?_⟩
    rw [hostStep, pktWrite_rx]
    exact hi
  | txDone copies =>
    refine ⟨c, x, p, ?_⟩
    rw [hostStep, txDone_rx]
    exact hi
  | timeout =>
    refine ⟨c, x, p, ?_⟩
    rw [hostStep, timeout_rx]
    exact hi
  | consume slot => exact ⟨c + 1, x, p, hi.consume he⟩
  | arrive packet left => exact ⟨c, (arrive_spec hi).1⟩

def HostEvent.arrival : HostEvent → Option (List Byte)
  | .arrive p _ => some p
  | _ => none

/-- The application has got the packets of `l`, which have the numbers from one on. -/
structure Got (rx : RxSide) (l : List (List Byte)) : Prop where
  valid : ∀ q ∈ l, isRxPktValid q = true
  got : rx.got = l.map payloadOf
  expected : rx.expected = 1 + BitVec.ofNat 3 l.length
  numbers : l.map packetSeqNmbrExtract = (List.range l.length).map fun k => 1 + BitVec.ofNat 3 k

theorem Got.congr {rx' : RxSide} {l : List (List Byte)} (h : Got rx l)
    (he : rx'.expected = rx.expected) (hg : rx'.got = rx.got) : Got rx' l :=
  ⟨h.valid, hg.trans h.got, he.trans h.expected, h.numbers⟩

theorem Got.snoc {rx' : RxSide} {l : List (List Byte)} (h : Got rx l)
    (hv : isRxPktValid packet = true) (hseq : rx.expected = packetSeqNmbrExtract packet)
    (he : rx'.expected = rx.expected + 1) (hg : rx'.got = rx.got ++ [payloadOf packet]) :
    Got rx' (l ++ [packet]) where
  valid q hq := by
    obtain hq | hq := List.mem_append.mp hq
    · exact h.valid q hq
    · rw [List.mem_singleton.mp hq]
      exact hv
  got := by
    rw [hg, h.got, List.map_append]
    rfl
  expected := by
    rw [he, h.expected, List.length_append, List.length_singleton, BitVec.ofNat_add,
      BitVec.add_assoc]
    rfl
  numbers := by
    rw [List.map_append, h.numbers, List.length_append, List.length_singleton,
      List.range_succ, List.map_append]
    show _ ++ [packetSeqNmbrExtract packet] = _
    rw [← hseq, h.expected]
    rfl

theorem reach_received {es : List HostEvent} {s : Endpoint}
    (h : Reach hostStep Considerate hciTransportOpen es s) : ∃ c, Received s.1.rx s.2 c := by
  refine h.invariant (I := fun s => ∃ c, Received s.1.rx s.2 c) ?_ fun s e hs he => ?_
  · obtain ⟨c, x, p, hi⟩ := RxInv.open
    exact ⟨c, x, p, hi⟩
  · obtain ⟨c, x, p, hi⟩ := hs
    exact hi.step he

theorem reach_got {es : List HostEvent} {s : Endpoint}
    (h : Reach hostStep Considerate hciTransportOpen es s) :
    ∃ l : List (List Byte), l.Sublist (es.filterMap HostEvent.arrival) ∧ Got s.1.rx l := by
  induction h with
  | init => exact ⟨[], List.Sublist.refl _, fun q hq => (by cases hq), rfl, rfl, rfl⟩
  | @snoc es s e hr he ih =>
    obtain ⟨l, hsub, hgot⟩ := ih
    obtain ⟨c, x, p, hi⟩ := reach_received hr
    rw [List.filterMap_append]
    have hlong : l.Sublist (es.filterMap HostEvent.arrival ++ [e].filterMap HostEvent.arrival) :=
      hsub.trans (List.sublist_append_left _ _)
    cases e with
    | write payload =>
      exact ⟨l, hlong, hgot.congr (congrArg RxSide.expected (pktWrite_rx payload s.1))
        (congrArg RxSide.got (pktWrite_rx payload s.1))⟩
    | txDone copies =>
      exact ⟨l, hlong, hgot.congr (congrArg RxSide.expected (txDone_rx copies s.1))
        (congrArg RxSide.got (txDone_rx copies s.1))⟩
    | timeout =>
      exact ⟨l, hlong, hgot.congr (congrArg RxSide.expected (timeout_rx s.1))
        (congrArg RxSide.got (timeout_rx s.1))⟩
    | consume slot => exact ⟨l, hlong, hgot.congr rfl rfl⟩
    | arrive packet left =>
      cases (@arrive_spec c x p left packet s hi).2 with
      | dropped _ hexp hg _ => exact ⟨l, hlong, hgot.congr hexp hg⟩
      | acked _ _ _ hexp hg _ => exact ⟨l, hlong, hgot.congr hexp hg⟩
      | again _ _ _ hexp hg _ => exact ⟨l, hlong, hgot.congr hexp hg⟩
      | accepted hv hseq _ hexp hg _ =>
        exact ⟨l ++ [packet], hsub.append (List.Sublist.refl _), hgot.snoc hv hseq hexp hg⟩

/-- The application gets valid packets that arrived, in order and with consecutive numbers, and
the buffers that it has not consumed are distinct and still hold the packets that it got last. -/
theorem transport_rx_exact {es : List HostEvent} {s : Endpoint}
    (h : Reach hostStep Considerate hciTransportOpen es s) :
    (∃ l : List (List Byte), l.Sublist (es.filterMap HostEvent.arrival) ∧ Got s.1.rx l) ∧
    (s.1.rx.out.map Prod.fst).Nodup ∧ s.1.rx.out.map Prod.snd <:+ s.1.rx.got ∧
    Intact s.1.rx := by
  obtain ⟨c, x, p, hi⟩ := reach_received h
  refine ⟨reach_got h, ?_, hi.recent, hi.intact⟩
  rw [hi.out]
  have hextracted := hi.pool.extracted_le
  have hring := hi.pool.produced_le
  exact slots_nodup (Nat.le_trans hextracted hring)

def considerate (s : Endpoint) : HostEvent → Bool
  | .consume slot => s.1.rx.out.head?.map Prod.fst == some slot
  | _ => true

theorem considerate_iff {s : Endpoint} {e : HostEvent} (h : considerate s e = true) :
    Considerate s e := by
  cases e with
  | consume slot => exact eq_of_beq h
  | _ => trivial

/-- A packet, the same packet again, and the next one. -/
def threeArrivals : List HostEvent :=
  [.arrive (dataPacket 1 1 [1, 2, 3, 4]) 0, .arrive (dataPacket 1 1 [1, 2, 3, 4]) 0,
    .arrive (dataPacket 1 2 [5, 6, 7, 8]) 0, .consume 0]

def afterThreeArrivals : Endpoint := threeArrivals.foldl hostStep hciTransportOpen

theorem transport_rx_exact_threeArrivals :
    (∃ l : List (List Byte), l.Sublist (threeArrivals.filterMap HostEvent.arrival) ∧
      Got afterThreeArrivals.1.rx l) ∧
    (afterThreeArrivals.1.rx.out.map Prod.fst).Nodup ∧
    afterThreeArrivals.1.rx.out.map Prod.snd <:+ afterThreeArrivals.1.rx.got ∧
    Intact afterThreeArrivals.1.rx :=
  transport_rx_exact (.of_allowed considerate (fun _ _ => considerate_iff) (by decide))

end OtaFix.Hci

import Mathlib.Data.Bool.Basic
import OtaFix.Hci.Receive
import OtaFix.Lib.StopAndWait

/-!
# Two endpoints

`hci_transport.c` on both sides of a line that keeps the order of the frames, loses some of them
and brings others that fail their checks. The two sides act in any order: the application writes
and consumes, timers expire, SLIP finishes a packet, a frame arrives.

Each direction is stop-and-wait. What a receiver hands on is among what its peer wrote, in order
and none twice, and while no write was given up nothing is missing before it (`protocol_safe`).
-/

namespace OtaFix.Hci

open Lib

variable {tx tx' : TxSide} {rx rx' : RxSide} {l : Line} {data acks fs : List (List Byte)}
  {p : List Byte} {left : Nat}

/-! ## Frames -/

def ackNumber (p : List Byte) : Seq := (p.getD 0 0 >>> 3).setWidth 3

/-- An acknowledgement that passes its checks. -/
def ackIntact (p : List Byte) : Bool :=
  decide (packetTypeDecode p = some pktTypeAck) && decide (headerSum p = 0)

theorem rxAck_iff {transmit : Seq} : rxAckPktTypeHandle transmit p = true ↔
    headerSum p = 0 ∧ ackNumber p = transmit + 1 := by
  rw [rxAckPktTypeHandle, reject_iff, not_not, decide_eq_true_iff, ackNumber]

theorem dataPacket_number (expected transmit : Seq) (payload : List Byte) :
    packetSeqNmbrExtract (dataPacket expected transmit payload) = transmit :=
  (byteZero_masks expected transmit).2.2.1

theorem dataPacket_not_ack (expected transmit : Seq) (payload : List Byte) :
    ackIntact (dataPacket expected transmit payload) = false := by
  have hlen : pktHdrSize ≤ (dataPacket expected transmit payload).length := by
    rw [dataPacket_length]
    exact Nat.le_add_left_of_le (by decide)
  have htype : packetTypeDecode (dataPacket expected transmit payload) =
      some pktTypeVendorSpecific := by
    rw [packetTypeDecode, if_pos hlen]
    exact congrArg some (typeAndLength_type payload.length)
  rw [ackIntact, htype]
  rfl

/-- The first byte of one acknowledgement and the checksum of another. -/
def ackMix (first last : Seq) : List Byte := (ackPacket first).take 1 ++ (ackPacket last).drop 1

theorem ackMix_self (e : Seq) : ackMix e e = ackPacket e := rfl

theorem ackMix_not_valid (first last : Seq) : isRxPktValid (ackMix first last) = false := rfl

theorem ackMix_intact (first last : Seq) :
    ackIntact (ackMix first last) = decide (first = last) := by
  revert first last
  decide

theorem ackPacket_number (e : Seq) : ackNumber (ackPacket e) = e := by
  revert e
  decide

theorem ackMix_over (first last e : Seq) (left : Nat) :
    (ackMix first last).take left ++ (ackPacket e).drop left = ackMix first last ∨
      ∃ f, (ackMix first last).take left ++ (ackPacket e).drop left = ackMix f e := by
  obtain _ | _ | _ | _ | left := left
  · exact .inr ⟨e, rfl⟩
  · exact .inr ⟨first, rfl⟩
  · exact .inr ⟨first, rfl⟩
  · exact .inr ⟨first, rfl⟩
  · exact .inl (by simp [ackMix, ackPacket])

/-! ## Lines -/

def dataOf (l : Line) : List (List Byte) := l.frames.filter isRxPktValid

def acksOf (l : Line) : List (List Byte) := l.frames.filter ackIntact

/-- What SLIP is given to transmit, and what becomes of an acknowledgement meanwhile. -/
inductive Proper : Outgoing → Prop where
  | ack (first last : Seq) : Proper (.ack (ackMix first last))
  | data (expected transmit : Seq) (payload : List Byte) :
      Proper (.data (dataPacket expected transmit payload))

/-- What is retransmitted is a packet. -/
structure Tidy (h : Transport) : Prop where
  sending : ∀ o, h.line.sending = some o → Proper o
  buffer : h.tx.state ≠ .idle → Proper (.data h.tx.buffer)

theorem Proper.not_ack (h : Proper (.data p)) : ackIntact p = false := by
  cases h
  exact dataPacket_not_ack _ _ _

theorem Proper.ack_eq (h : Proper (.ack p)) : ∃ first last, p = ackMix first last := by
  cases h
  exact ⟨_, _, rfl⟩

theorem frames_none (h : l.sending = none) : l.frames = l.sent := by
  rw [Line.frames, h]
  exact List.append_nil _

theorem frames_some {o : Outgoing} (h : l.sending = some o) : l.frames = l.sent ++ [o.bytes] := by
  rw [Line.frames, h]
  rfl

theorem write_none {o : Outgoing} (h : l.sending = none) : l.write o = ⟨some o, l.sent⟩ := by
  rw [Line.write, h]

theorem write_some {o o' : Outgoing} (h : l.sending = some o') : l.write o = l := by
  rw [Line.write, h]

theorem write_frames {o : Outgoing} (h : l.sending = none) :
    (l.write o).frames = l.frames ++ [o.bytes] := by
  rw [write_none h, frames_none h]
  rfl

theorem filter_drop {f : List Byte → Bool} (h : f p = false) :
    (fs ++ [p]).filter f = fs.filter f := by
  rw [List.filter_append, List.filter_singleton, h]
  exact List.append_nil _

theorem filter_keep {f : List Byte → Bool} (h : f p = true) :
    (fs ++ [p]).filter f = fs.filter f ++ [p] := by
  rw [List.filter_append, List.filter_singleton, h]
  rfl

/-- What an acknowledgement does to the line. -/
theorem ackTransmit_cases (left : Nat) (e : Seq) (h : ∀ o, l.sending = some o → Proper o) :
    ackTransmit left e l = l ∨
    (l.sending = none ∧ ackTransmit left e l = ⟨some (.ack (ackMix e e)), l.sent⟩) ∨
    ∃ first last f, l.sending = some (.ack (ackMix first last)) ∧
      ackTransmit left e l = ⟨some (.ack (ackMix f e)), l.sent⟩ := by
  obtain ⟨sending, sent⟩ := l
  obtain _ | packet | packet := sending
  · exact .inr (.inl ⟨rfl, rfl⟩)
  · obtain ⟨first, last, rfl⟩ := (h _ rfl).ack_eq
    obtain hmix | ⟨f, hmix⟩ := ackMix_over first last e left
    · refine .inl ?_
      show Line.mk (some (.ack _)) sent = _
      rw [hmix]
    · refine .inr (.inr ⟨first, last, f, rfl, ?_⟩)
      show Line.mk (some (.ack _)) sent = _
      rw [hmix]
  · exact .inl rfl

theorem ackTransmit_proper (e : Seq) (h : ∀ o, l.sending = some o → Proper o) :
    ∀ o, (ackTransmit left e l).sending = some o → Proper o := by
  obtain heq | ⟨-, heq⟩ | ⟨_, _, f, -, heq⟩ := ackTransmit_cases left e h
  · rw [heq]
    exact h
  · rw [heq]
    rintro o ⟨⟩
    exact .ack e e
  · rw [heq]
    rintro o ⟨⟩
    exact .ack f e

theorem ackTransmit_data (e : Seq) (h : ∀ o, l.sending = some o → Proper o) :
    dataOf (ackTransmit left e l) = dataOf l := by
  obtain heq | ⟨hnone, heq⟩ | ⟨first, last, f, hsome, heq⟩ := ackTransmit_cases left e h
  · rw [heq]
  · rw [heq, dataOf, dataOf, frames_none hnone, frames_some rfl]
    exact filter_drop (ackMix_not_valid e e)
  · rw [heq, dataOf, dataOf, frames_some hsome, frames_some rfl]
    exact (filter_drop (ackMix_not_valid f e)).trans (filter_drop (ackMix_not_valid _ _)).symm

/-! ## One direction -/

def IsData (w : StopAndWait (List Byte)) (f : List Byte) (i : Nat) : Prop :=
  ∃ e a, w.written[i]? = some a ∧
    f = dataPacket e (1 + BitVec.ofNat 3 (StopAndWait.turn w.results i)) a

def IsAck (f : List Byte) (k : Nat) : Prop := ackNumber f = 1 + BitVec.ofNat 3 k

/-- `data` are the valid packets on the line of the sender, `acks` the acknowledgements on the
line of the receiver. -/
structure Carries (tx : TxSide) (rx : RxSide) (data acks : List (List Byte))
    (w : StopAndWait (List Byte)) : Prop where
  written : w.written = tx.written
  results : w.results = tx.results
  waiting : w.waiting = true ↔ tx.state ≠ .idle
  got : w.got = rx.got
  number : tx.number = 1 + BitVec.ofNat 3 w.acked
  expected : rx.expected = 1 + BitVec.ofNat 3 w.got.length
  buffer : tx.state ≠ .idle → ∃ e a, w.written.getLast? = some a ∧
    tx.buffer = dataPacket e tx.number a
  data : List.Forall₂ (IsData w) data w.data
  acks : List.Forall₂ IsAck acks w.acks

def Linked (tx : TxSide) (rx : RxSide) (data acks : List (List Byte)) : Prop :=
  ∃ w, Relation.ReflTransGen (StopAndWait.Step 8) StopAndWait.start w ∧ Carries tx rx data acks w

theorem seq_eq_iff (a b : Nat) :
    (1 : Seq) + BitVec.ofNat 3 a = 1 + BitVec.ofNat 3 b ↔ a % 8 = b % 8 := by
  rw [BitVec.add_right_inj, ← BitVec.toNat_inj, BitVec.toNat_ofNat, BitVec.toNat_ofNat]

theorem seq_succ (a : Nat) : (1 : Seq) + BitVec.ofNat 3 (a + 1) = 1 + BitVec.ofNat 3 a + 1 := by
  rw [BitVec.ofNat_add, BitVec.add_assoc]
  rfl

theorem IsData.congr {w w' : StopAndWait (List Byte)} {f : List Byte} {i : Nat} (h : IsData w f i)
    (hw : ∀ a, w.written[i]? = some a → w'.written[i]? = some a)
    (hr : StopAndWait.turn w'.results i = StopAndWait.turn w.results i) : IsData w' f i := by
  obtain ⟨e, a, ha, hf⟩ := h
  exact ⟨e, a, hw a ha, by rw [hr, hf]⟩

/-- The rest of the transmitter and of the receiver plays no part. -/
theorem Linked.congr (h : Linked tx rx data acks)
    (hs : tx'.state ≠ .idle ↔ tx.state ≠ .idle) (hn : tx'.number = tx.number)
    (hb : tx'.buffer = tx.buffer) (hr : tx'.results = tx.results)
    (hw : tx'.written = tx.written) (he : rx'.expected = rx.expected) (hg : rx'.got = rx.got) :
    Linked tx' rx' data acks := by
  obtain ⟨w, hrun, hc⟩ := h
  refine ⟨w, hrun, hc.written.trans hw.symm, hc.results.trans hr.symm, hc.waiting.trans hs.symm,
    hc.got.trans hg.symm, hn.trans hc.number, he.trans hc.expected, fun hstate => ?_, hc.data,
    hc.acks⟩
  rw [hb, hn]
  exact hc.buffer (hs.mp hstate)

theorem Linked.of_rx (h : Linked tx rx data acks) (he : rx'.expected = rx.expected)
    (hg : rx'.got = rx.got) : Linked tx rx' data acks :=
  h.congr Iff.rfl rfl rfl rfl rfl he hg

theorem linked_start : Linked {} (RxSide.produce {}) [] [] :=
  ⟨StopAndWait.start, .refl, rfl, rfl, ⟨fun h => (by cases h), fun h => absurd rfl h⟩, rfl, rfl,
    rfl, fun h => absurd rfl h, .nil, .nil⟩

/-- `hci_transport_pkt_write`. -/
theorem Linked.write (h : Linked tx rx data acks) (hidle : tx.state = .idle) (e : Seq)
    (a : List Byte) (hs : tx'.state ≠ .idle) (hn : tx'.number = tx.number)
    (hb : tx'.buffer = dataPacket e tx.number a) (hr : tx'.results = tx.results)
    (hw : tx'.written = tx.written ++ [a]) : Linked tx' rx data acks := by
  obtain ⟨w, hrun, hc⟩ := h
  have hwait : w.waiting = false :=
    Bool.eq_false_iff.mpr fun hwait => hc.waiting.mp hwait hidle
  refine ⟨_, hrun.tail (.write w a hwait), ?_, hc.results.trans hr.symm,
    ⟨fun _ => hs, fun _ => rfl⟩, hc.got, hn.trans hc.number, hc.expected, fun _ => ?_, ?_, hc.acks⟩
  · rw [hw, ← hc.written]
  · exact ⟨e, a, List.getLast?_concat, by rw [hb, hn]⟩
  · refine hc.data.imp fun f i hf => hf.congr (fun b hb => ?_) rfl
    have hi := (List.getElem?_eq_some_iff.mp hb).1
    exact (List.getElem?_append_left hi).trans hb

/-- A packet is put on the line, for the first time or again. -/
theorem Linked.send (h : Linked tx rx data acks) (hs : tx.state ≠ .idle) :
    Linked tx rx (data ++ [tx.buffer]) acks := by
  obtain ⟨w, hrun, hc⟩ := h
  have hwait := hc.waiting.mpr hs
  have hinv := StopAndWait.Inv.of_run (by omega) hrun
  obtain ⟨e, a, ha, hb⟩ := hc.buffer hs
  have hlast : w.written.length - 1 = w.results.length := by
    rw [hinv.ended_waiting hwait, Nat.add_sub_cancel]
  refine ⟨_, hrun.tail (.send w hwait), hc.written, hc.results, hc.waiting, hc.got, hc.number,
    hc.expected, hc.buffer, ?_, hc.acks⟩
  refine List.rel_append hc.data (.cons ⟨e, a, ?_, ?_⟩ .nil)
  · rw [← List.getLast?_eq_getElem?]
    exact ha
  · rw [hlast, StopAndWait.turn_length, hb, hc.number]
    rfl

theorem Linked.loseData (h : Linked tx rx (p :: data) acks) : Linked tx rx data acks := by
  obtain ⟨w, hrun, hc⟩ := h
  obtain ⟨i, is, -, hrest, heq⟩ := List.forall₂_cons_left_iff.mp hc.data
  exact ⟨_, hrun.tail (.loseData w i is heq), hc.written, hc.results, hc.waiting, hc.got, hc.number,
    hc.expected, hc.buffer, hrest, hc.acks⟩

theorem Linked.loseAck (h : Linked tx rx data (p :: acks)) : Linked tx rx data acks := by
  obtain ⟨w, hrun, hc⟩ := h
  obtain ⟨k, ks, -, hrest, heq⟩ := List.forall₂_cons_left_iff.mp hc.acks
  exact ⟨_, hrun.tail (.loseAck w k ks heq), hc.written, hc.results, hc.waiting, hc.got, hc.number,
    hc.expected, hc.buffer, hc.data, hrest⟩

/-- The end of a write leaves the numbers of the packets on the line. -/
theorem data_ended {w : StopAndWait (List Byte)} (hinv : w.Inv) (b : Bool)
    (h : List.Forall₂ (IsData w) data w.data) (w' : StopAndWait (List Byte))
    (hw : w'.written = w.written) (hr : w'.results = w.results ++ [b]) :
    List.Forall₂ (IsData w') data w.data := by
  refine h.imp fun f i hf => hf.congr (fun a ha => hw ▸ ha) ?_
  obtain ⟨-, a, ha, -⟩ := hf
  rw [hr]
  exact StopAndWait.turn_append (hinv.index_le (List.getElem?_eq_some_iff.mp ha).1) b

theorem Linked.succeed (h : Linked tx rx data (p :: acks)) (hs : tx.state ≠ .idle)
    (hnum : ackNumber p = tx.number + 1) (hs' : tx'.state = .idle)
    (hn : tx'.number = tx.number + 1) (hr : tx'.results = tx.results ++ [true])
    (hw : tx'.written = tx.written) : Linked tx' rx data acks := by
  obtain ⟨w, hrun, hc⟩ := h
  have hinv := StopAndWait.Inv.of_run (by omega) hrun
  obtain ⟨k, ks, hk, hrest, heq⟩ := List.forall₂_cons_left_iff.mp hc.acks
  have hmod : k % 8 = (w.acked + 1) % 8 := by
    rw [← seq_eq_iff, seq_succ, ← hc.number, ← hnum]
    exact hk.symm
  refine ⟨_, hrun.tail (.succeed w k ks (hc.waiting.mpr hs) heq hmod), hc.written.trans hw.symm,
    ?_, ⟨fun hfalse => (by cases hfalse), fun hne => absurd hs' hne⟩, hc.got, ?_, hc.expected,
    fun hne => absurd hs' hne, data_ended hinv true hc.data _ rfl rfl, hrest⟩
  · rw [hr, ← hc.results]
  · rw [hn, hc.number, StopAndWait.acked, StopAndWait.acked, List.count_append, ← seq_succ]
    rfl

theorem Linked.fail (h : Linked tx rx data acks) (hs : tx.state ≠ .idle)
    (hs' : tx'.state = .idle) (hn : tx'.number = tx.number)
    (hr : tx'.results = tx.results ++ [false]) (hw : tx'.written = tx.written) :
    Linked tx' rx data acks := by
  obtain ⟨w, hrun, hc⟩ := h
  have hinv := StopAndWait.Inv.of_run (by omega) hrun
  refine ⟨_, hrun.tail (.fail w (hc.waiting.mpr hs)), hc.written.trans hw.symm, ?_,
    ⟨fun hfalse => (by cases hfalse), fun hne => absurd hs' hne⟩, hc.got, ?_, hc.expected,
    fun hne => absurd hs' hne, data_ended hinv false hc.data _ rfl rfl, hc.acks⟩
  · rw [hr, ← hc.results]
  · rw [hn, hc.number, StopAndWait.acked, StopAndWait.acked, List.count_append]
    rfl

theorem Linked.take (h : Linked tx rx (p :: data) acks)
    (hnum : rx.expected = packetSeqNmbrExtract p) (he : rx'.expected = rx.expected + 1)
    (hg : rx'.got = rx.got ++ [payloadOf p]) : Linked tx rx' data acks := by
  obtain ⟨w, hrun, hc⟩ := h
  obtain ⟨i, is, ⟨e, a, ha, hp⟩, hrest, heq⟩ := List.forall₂_cons_left_iff.mp hc.data
  have hmod : StopAndWait.turn w.results i % 8 = w.got.length % 8 := by
    rw [← seq_eq_iff, ← hc.expected, hnum, hp, dataPacket_number]
  refine ⟨_, hrun.tail (.take w i is a heq hmod ha), hc.written, hc.results, hc.waiting, ?_,
    hc.number, ?_, hc.buffer, hrest, hc.acks⟩
  · rw [hg, ← hc.got, hp, payloadOf_dataPacket]
  · rw [he, hc.expected, List.length_append, List.length_singleton, seq_succ]

theorem Linked.ack (h : Linked tx rx data acks) :
    Linked tx rx data (acks ++ [ackPacket rx.expected]) := by
  obtain ⟨w, hrun, hc⟩ := h
  refine ⟨_, hrun.tail (.ack w), hc.written, hc.results, hc.waiting, hc.got, hc.number,
    hc.expected, hc.buffer, hc.data, List.rel_append hc.acks (.cons ?_ .nil)⟩
  rw [IsAck, ackPacket_number]
  exact hc.expected

theorem Linked.tear (h : Linked tx rx data (acks ++ [p])) : Linked tx rx data acks := by
  obtain ⟨w, hrun, hc⟩ := h
  refine ⟨_, hrun.tail (.tear w), hc.written, hc.results, hc.waiting, hc.got, hc.number,
    hc.expected, hc.buffer, hc.data, ?_⟩
  have hlen : w.acks.length - 1 = acks.length := by
    rw [← hc.acks.length_eq, List.length_append, List.length_singleton, Nat.add_sub_cancel]
  have htake := List.forall₂_take acks.length hc.acks
  rw [List.take_left, ← hlen, ← List.dropLast_eq_take] at htake
  exact htake

/-! ## Endpoints -/

theorem Linked.ackTransmit (h : Linked tx rx data (acksOf l))
    (hl : ∀ o, l.sending = some o → Proper o) :
    Linked tx rx data (acksOf (ackTransmit left rx.expected l)) := by
  obtain heq | ⟨hnone, heq⟩ | ⟨first, last, f, hsome, heq⟩ :=
    ackTransmit_cases left rx.expected hl
  · rw [heq]
    exact h
  · have hintact : ackIntact (ackPacket rx.expected) = true := by
      rw [← ackMix_self, ackMix_intact]
      exact decide_eq_true rfl
    rw [acksOf, frames_none hnone] at h
    rw [heq, acksOf, frames_some rfl]
    show Linked tx rx data ((l.sent ++ [ackPacket rx.expected]).filter ackIntact)
    rw [filter_keep hintact]
    exact h.ack
  · -- the one in transmission is taken back
    have hsent : Linked tx rx data (l.sent.filter ackIntact) := by
      rw [acksOf, frames_some hsome] at h
      by_cases hold : ackIntact (ackMix first last) = true
      · rw [show (Outgoing.ack (ackMix first last)).bytes = ackMix first last from rfl,
          filter_keep hold] at h
        exact h.tear
      · exact filter_drop (Bool.eq_false_iff.mpr hold) ▸ h
    rw [heq, acksOf, frames_some rfl]
    show Linked tx rx data ((l.sent ++ [ackMix f rx.expected]).filter ackIntact)
    by_cases hnew : ackIntact (ackMix f rx.expected) = true
    · have hf : f = rx.expected := of_decide_eq_true (ackMix_intact f rx.expected ▸ hnew)
      rw [filter_keep hnew, hf, ackMix_self]
      exact hsent.ack
    · rw [filter_drop (Bool.eq_false_iff.mpr hnew)]
      exact hsent

/-- An endpoint's part in the direction from it and in the direction to it. -/
structure Follows (s s' : Transport) : Prop where
  tidy : Tidy s'
  sender : ∀ rx acks, Linked s.tx rx (dataOf s.line) acks → Linked s'.tx rx (dataOf s'.line) acks
  receiver : ∀ tx data, Linked tx s.rx data (acksOf s.line) →
    Linked tx s'.rx data (acksOf s'.line)

theorem acksOf_write (h : Proper (.data p)) : acksOf (l.write (.data p)) = acksOf l := by
  cases hs : l.sending with
  | none =>
    rw [acksOf, write_frames hs]
    exact filter_drop h.not_ack
  | some o => rw [write_some hs]

theorem Linked.write_line (h : Linked tx rx (dataOf l) acks) (hs : tx.state ≠ .idle) :
    Linked tx rx (dataOf (l.write (.data tx.buffer))) acks := by
  cases hnone : l.sending with
  | some o =>
    rw [write_some hnone]
    exact h
  | none =>
    rw [dataOf, write_frames hnone]
    show Linked tx rx ((l.frames ++ [tx.buffer]).filter isRxPktValid) acks
    by_cases hv : isRxPktValid tx.buffer = true
    · rw [filter_keep hv]
      exact h.send hs
    · rw [filter_drop (Bool.eq_false_iff.mpr hv)]
      exact h

theorem proper_write (h : ∀ o, l.sending = some o → Proper o) (hp : Proper (.data p)) :
    ∀ o, (l.write (.data p)).sending = some o → Proper o := by
  cases hnone : l.sending with
  | some o =>
    rw [write_some hnone]
    exact h
  | none =>
    rw [write_none hnone]
    rintro o ⟨⟩
    exact hp

variable {s : Transport}

theorem Tidy.pktWrite (h : Tidy s) (payload : List Byte) :
    Follows s (hciTransportPktWrite payload s).2 := by
  unfold hciTransportPktWrite
  split
  · rename_i hidle
    have hload : ∀ (tx : TxSide) (rx : RxSide) (data acks : List (List Byte)),
        tx.state ≠ .idle → tx.number = s.tx.number →
        tx.buffer = dataPacket s.rx.expected s.tx.number payload → tx.results = s.tx.results →
        tx.written = s.tx.written ++ [payload] → Linked s.tx rx data acks →
        Linked tx rx data acks := fun tx rx data acks hs hn hb hr hw hlink =>
      hlink.write hidle s.rx.expected payload hs hn hb hr hw
    have hp : Proper (.data (dataPacket s.rx.expected s.tx.number payload)) := .data _ _ _
    dsimp only
    split
    · refine ⟨⟨proper_write h.sending hp, fun _ => hp⟩, fun rx acks hlink => ?_,
        fun tx data hlink => ?_⟩
      · refine Linked.write_line ?_ (fun hfalse => by cases hfalse)
        exact hload _ rx _ acks (fun hfalse => by cases hfalse) rfl rfl rfl rfl hlink
      · exact (acksOf_write hp).symm ▸ hlink
    · refine ⟨⟨h.sending, fun _ => hp⟩, fun rx acks hlink => ?_, fun tx data hlink => hlink⟩
      exact hload _ rx _ acks (fun hfalse => by cases hfalse) rfl rfl rfl rfl hlink
  · exact ⟨h, fun _ _ hlink => hlink, fun _ _ hlink => hlink⟩
  · exact ⟨h, fun _ _ hlink => hlink, fun _ _ hlink => hlink⟩

theorem Tidy.timeout (h : Tidy s) : Follows s (hciTransportTimeoutHandle s) := by
  unfold hciTransportTimeoutHandle
  split
  · rename_i hactive
    have hs : s.tx.state ≠ .idle := fun hidle => by rw [hactive] at hidle; cases hidle
    have hp := h.buffer hs
    split
    · refine ⟨⟨proper_write h.sending hp, fun _ => hp⟩, fun rx acks hlink => ?_,
        fun tx data hlink => (acksOf_write hp).symm ▸ hlink⟩
      exact (Linked.write_line hlink hs).congr Iff.rfl rfl rfl rfl rfl rfl rfl
    · refine ⟨⟨h.sending, fun hne => absurd rfl hne⟩, fun rx acks hlink => ?_,
        fun tx data hlink => hlink⟩
      exact hlink.fail hs rfl rfl rfl rfl
  · exact ⟨h, fun _ _ hlink => hlink, fun _ _ hlink => hlink⟩
  · exact ⟨h, fun _ _ hlink => hlink, fun _ _ hlink => hlink⟩

/-- The copies that a pending packet makes. -/
theorem Linked.send_copies (h : Linked tx rx (fs.filter isRxPktValid) acks) (hs : tx.state ≠ .idle)
    (n : Nat) :
    Linked tx rx ((fs ++ List.replicate n tx.buffer).filter isRxPktValid) acks := by
  induction n with
  | zero => rwa [List.replicate_zero, List.append_nil]
  | succ n ih =>
    rw [List.replicate_succ', ← List.append_assoc]
    by_cases hv : isRxPktValid tx.buffer = true
    · rw [filter_keep hv]
      exact ih.send hs
    · rwa [filter_drop (Bool.eq_false_iff.mpr hv)]

theorem filter_copies {f : List Byte → Bool} (h : f p = false) (n : Nat) :
    (fs ++ List.replicate n p).filter f = fs.filter f := by
  rw [List.filter_append, List.filter_replicate, h]
  exact List.append_nil _

theorem Tidy.txDone (h : Tidy s) (copies : Nat) : Follows s (slipTxDone copies s) := by
  unfold slipTxDone
  split
  · exact ⟨h, fun _ _ hlink => hlink, fun _ _ hlink => hlink⟩
  · rename_i o hsome
    have hframes := frames_some hsome
    have hdone : Follows s
        { s with line := { sending := none, sent := s.line.sent ++ [o.bytes] } } := by
      have hsame : (Line.mk none (s.line.sent ++ [o.bytes])).frames = s.line.frames :=
        (frames_none rfl).trans hframes.symm
      refine ⟨⟨fun o ho => (by cases ho), h.buffer⟩, fun rx acks hlink => ?_,
        fun tx data hlink => ?_⟩
      · show Linked s.tx rx (List.filter _ (Line.frames _)) acks
        rw [hsame]
        exact hlink
      · show Linked tx s.rx data (List.filter _ (Line.frames _))
        rw [hsame]
        exact hlink
    split
    · rename_i hpending
      have hs : s.tx.state ≠ .idle := fun hidle => by rw [hpending] at hidle; cases hidle
      have hp := h.buffer hs
      have hnew : (Line.mk (some (.data s.tx.buffer))
          (s.line.sent ++ [o.bytes] ++ List.replicate copies s.tx.buffer)).frames =
          s.line.frames ++ List.replicate (copies + 1) s.tx.buffer := by
        rw [frames_some rfl, hframes, List.replicate_succ', List.append_assoc _ _ [_]]
        rfl
      refine ⟨⟨fun o ho => ?_, fun _ => hp⟩, fun rx acks hlink => ?_, fun tx data hlink => ?_⟩
      · cases ho
        exact hp
      · show Linked s.tx.active rx (List.filter _ (Line.frames _)) acks
        rw [hnew]
        refine (hlink.send_copies hs (copies + 1)).congr ?_ rfl rfl rfl rfl rfl rfl
        exact ⟨fun _ => hs, fun _ hfalse => by cases hfalse⟩
      · show Linked tx s.rx data (List.filter _ (Line.frames _))
        rw [hnew, filter_copies hp.not_ack]
        exact hlink
    · exact hdone
    · exact hdone

/-! ## Arrivals -/

theorem Linked.drop_data (h : Linked tx rx ((p :: fs).filter isRxPktValid) acks) :
    Linked tx rx (fs.filter isRxPktValid) acks := by
  by_cases hv : isRxPktValid p = true
  · rw [List.filter_cons_of_pos hv] at h
    exact h.loseData
  · rwa [List.filter_cons_of_neg hv] at h

theorem Linked.drop_ack (h : Linked tx rx data ((p :: fs).filter ackIntact)) :
    Linked tx rx data (fs.filter ackIntact) := by
  by_cases hv : ackIntact p = true
  · rw [List.filter_cons_of_pos hv] at h
    exact h.loseAck
  · rwa [List.filter_cons_of_neg hv] at h

/-- An acknowledgement that arrives in no transmission ends nothing. -/
theorem Linked.acked (h : Linked tx rx data ((p :: fs).filter ackIntact))
    (htype : packetTypeDecode p = some pktTypeAck)
    (hnum : rxAckPktTypeHandle tx.number p = true) :
    Linked tx.acked rx data (fs.filter ackIntact) := by
  obtain ⟨hsum, hnum⟩ := rxAck_iff.mp hnum
  have hintact : ackIntact p = true := by
    rw [ackIntact, Bool.and_eq_true]
    exact ⟨decide_eq_true htype, decide_eq_true hsum⟩
  rw [List.filter_cons_of_pos hintact] at h
  rw [TxSide.acked]
  split
  · rename_i hactive
    have hs : tx.state ≠ .idle := fun hidle => by rw [hactive] at hidle; cases hidle
    exact h.succeed hs hnum rfl rfl rfl rfl
  · exact h.loseAck.congr Iff.rfl rfl rfl rfl rfl rfl rfl
  · exact h.loseAck.congr Iff.rfl rfl rfl rfl rfl rfl rfl

theorem acked_buffer (tx : TxSide) : tx.acked.buffer = tx.buffer ∧
    (tx.acked.state ≠ .idle → tx.state ≠ .idle) := by
  rw [TxSide.acked]
  split
  · exact ⟨rfl, fun hne => absurd rfl hne⟩
  · exact ⟨rfl, id⟩
  · exact ⟨rfl, id⟩

/-- The frame at the head of the peer's line arrives. -/
theorem Arrival.links {s s' : Endpoint} (h : Arrival left p s s') (ht : Tidy s.1) :
    Tidy s'.1 ∧
    (∀ rx, Linked s.1.tx rx (dataOf s.1.line) ((p :: fs).filter ackIntact) →
      Linked s'.1.tx rx (dataOf s'.1.line) (fs.filter ackIntact)) ∧
    ∀ tx, Linked tx s.1.rx ((p :: fs).filter isRxPktValid) (acksOf s.1.line) →
      Linked tx s'.1.rx (fs.filter isRxPktValid) (acksOf s'.1.line) := by
  cases h with
  | dropped htx hexp hgot hline =>
    refine ⟨⟨hline ▸ ht.sending, htx ▸ ht.buffer⟩, fun rx hlink => ?_, fun tx hlink => ?_⟩
    · rw [htx, hline]
      exact hlink.drop_ack
    · rw [hline]
      exact hlink.drop_data.of_rx hexp hgot
  | acked htype hnum htx hexp hgot hline =>
    obtain ⟨hbuf, hstate⟩ := acked_buffer s.1.tx
    refine ⟨⟨hline ▸ ht.sending, fun hne => ?_⟩, fun rx hlink => ?_, fun tx hlink => ?_⟩
    · rw [htx] at hne ⊢
      rw [hbuf]
      exact ht.buffer (hstate hne)
    · rw [htx, hline]
      exact hlink.acked htype hnum
    · rw [hline]
      exact hlink.drop_data.of_rx hexp hgot
  | again hv _ htx hexp hgot hline =>
    refine ⟨⟨hline ▸ ackTransmit_proper _ ht.sending, htx ▸ ht.buffer⟩, fun rx hlink => ?_,
      fun tx hlink => ?_⟩
    · rw [htx, hline, ackTransmit_data _ ht.sending]
      exact hlink.drop_ack
    · rw [hline]
      exact (hlink.drop_data.ackTransmit ht.sending).of_rx hexp hgot
  | accepted hv hnum htx hexp hgot hline =>
    refine ⟨⟨hline ▸ ackTransmit_proper _ ht.sending, htx ▸ ht.buffer⟩, fun rx hlink => ?_,
      fun tx hlink => ?_⟩
    · rw [htx, hline, ackTransmit_data _ ht.sending]
      exact hlink.drop_ack
    · rw [List.filter_cons_of_pos hv] at hlink
      rw [hline, ← hexp]
      exact (hlink.take hnum hexp hgot).ackTransmit ht.sending

/-! ## The system -/

abbrev Side := Bool

abbrev System := Side → Endpoint

inductive Event where
  | host (side : Side) (e : HostEvent)
  | deliver (side : Side) (left : Nat)
  | lose (side : Side)
  deriving DecidableEq, Repr

/-- The frame of the line that was sent first is gone. -/
def popped (s : Endpoint) : Endpoint :=
  ({ s.1 with line := { s.1.line with sent := s.1.line.sent.tail } }, s.2)

def systemStep (s : System) : Event → System
  | .host side e => Function.update s side (hostStep (s side) e)
  | .deliver side left =>
    match (s (!side)).1.line.sent with
    | [] => s
    | p :: _ =>
      Function.update (Function.update s (!side) (popped (s (!side)))) side
        (hostStep (s side) (.arrive p left))
  | .lose side => Function.update s side (popped (s side))

def systemOpen : System := fun _ => hciTransportOpen

/-- The application consumes in order, and it writes no packet while SLIP still transmits the one
before; what arrives beside the frames of the peer fails its checks. -/
def Orderly (s : System) : Event → Prop
  | .host side (.write _) => ∀ p, (s side).1.line.sending ≠ some (.data p)
  | .host _ (.arrive p _) => isRxPktValid p = false ∧ ackIntact p = false
  | .host side (.consume slot) => Considerate (s side) (.consume slot)
  | _ => True

structure Settled (s : Endpoint) : Prop where
  received : ∃ c, Received s.1.rx s.2 c
  tidy : Tidy s.1

/-- The direction from one endpoint to the other one. -/
def Joined (s t : Endpoint) : Prop := Linked s.1.tx t.1.rx (dataOf s.1.line) (acksOf t.1.line)

def SystemInv (s : System) : Prop := ∀ side, Settled (s side) ∧ Joined (s side) (s (!side))

theorem SystemInv.update {s : System} {side : Side} {t : Endpoint} (ht : Settled t)
    (hpeer : Settled (s (!side))) (hfrom : Joined t (s (!side))) (hto : Joined (s (!side)) t) :
    SystemInv (Function.update s side t) := by
  intro i
  obtain rfl | rfl : i = side ∨ i = !side := by cases i <;> cases side <;> simp
  · rw [Function.update_self, Function.update_of_ne (Bool.not_ne_self i)]
    exact ⟨ht, hfrom⟩
  · rw [Bool.not_not, Function.update_self, Function.update_of_ne (Bool.not_ne_self side)]
    exact ⟨hpeer, hto⟩

theorem systemInv_open : SystemInv systemOpen := by
  intro side
  obtain ⟨c, hopen⟩ := RxInv.open
  exact ⟨⟨⟨c, hopen⟩, ⟨fun o ho => (by cases ho), fun hne => absurd rfl hne⟩⟩, linked_start⟩

/-- The endpoint acts alone. -/
theorem SystemInv.follow {s : System} (h : SystemInv s) {side : Side} {t : Endpoint}
    (hr : ∃ c, Received t.1.rx t.2 c) (hf : Follows (s side).1 t.1) :
    SystemInv (Function.update s side t) := by
  refine .update ⟨hr, hf.tidy⟩ (h _).1 (hf.sender _ _ (h side).2) (hf.receiver _ _ ?_)
  have hto := (h (!side)).2
  rwa [Bool.not_not] at hto

theorem popped_frames {s : Endpoint} {p : List Byte} {ps : List (List Byte)}
    (h : s.1.line.sent = p :: ps) : s.1.line.frames = p :: (popped s).1.line.frames := by
  show s.1.line.sent ++ _ = p :: (s.1.line.sent.tail ++ _)
  rw [h]
  rfl

theorem Settled.popped {s : Endpoint} (h : Settled s) : Settled (popped s) :=
  ⟨h.received, h.tidy.sending, h.tidy.buffer⟩

theorem Follows.popped {s : Endpoint} (h : Tidy s.1) : Follows s.1 (popped s).1 := by
  refine ⟨⟨h.sending, h.buffer⟩, fun rx acks hlink => ?_, fun tx data hlink => ?_⟩
  all_goals
    cases hsent : s.1.line.sent with
    | nil =>
      have hsame : (Hci.popped s).1.line = s.1.line := by
        show Line.mk _ s.1.line.sent.tail = _
        rw [hsent, List.tail_nil, ← hsent]
      rw [hsame]
      exact hlink
    | cons p ps =>
      have hframes := popped_frames hsent
      first
      | rw [dataOf, hframes] at hlink
        exact hlink.drop_data
      | rw [acksOf, hframes] at hlink
        exact hlink.drop_ack

theorem SystemInv.arrival {s : System} (h : SystemInv s) {side : Side} {p : List Byte} {left : Nat}
    {t : Endpoint} (ht : Settled t)
    (hfrom : Linked (s side).1.tx t.1.rx (dataOf (s side).1.line)
      ((p :: t.1.line.frames).filter ackIntact))
    (hto : Linked t.1.tx (s side).1.rx ((p :: t.1.line.frames).filter isRxPktValid)
      (acksOf (s side).1.line)) :
    SystemInv (Function.update (Function.update s (!side) t) side (arrive left p (s side))) := by
  obtain ⟨c, x, q, hi⟩ := (h side).1.received
  obtain ⟨hreceived, harrival⟩ := @arrive_spec c x q left p (s side) hi
  obtain ⟨htidy, hsend, hreceive⟩ :=
    @Arrival.links t.1.line.frames p left (s side) _ harrival (h side).1.tidy
  refine .update ⟨⟨c, hreceived⟩, htidy⟩ ?_ ?_ ?_
  · rw [Function.update_self]
    exact ht
  · rw [Function.update_self]
    exact hsend _ hfrom
  · rw [Function.update_self]
    exact hreceive _ hto

theorem SystemInv.step {s : System} {e : Event} (h : SystemInv s) (he : Orderly s e) :
    SystemInv (systemStep s e) := by
  have hreceived : ∀ side e, Considerate (s side) e →
      ∃ c, Received (hostStep (s side) e).1.rx (hostStep (s side) e).2 c := by
    intro side e hc
    obtain ⟨c, x, q, hi⟩ := (h side).1.received
    exact hi.step hc
  have hto : ∀ side, Joined (s (!side)) (s side) := fun side => by
    have hto := (h (!side)).2
    rwa [Bool.not_not] at hto
  cases e with
  | host side e =>
    have ht := (h side).1.tidy
    cases e with
    | write payload => exact h.follow (hreceived side (.write payload) trivial) (ht.pktWrite payload)
    | txDone copies => exact h.follow (hreceived side (.txDone copies) trivial) (ht.txDone copies)
    | timeout => exact h.follow (hreceived side .timeout trivial) ht.timeout
    | consume slot =>
      refine h.follow (hreceived side (.consume slot) he) ?_
      exact ⟨⟨ht.sending, ht.buffer⟩, fun _ _ hlink => hlink, fun _ _ hlink => hlink.of_rx rfl rfl⟩
    | arrive p left =>
      have hsame : systemStep s (.host side (.arrive p left)) =
          Function.update (Function.update s (!side) (s (!side))) side (arrive left p (s side)) := by
        rw [Function.update_eq_self]
        rfl
      rw [hsame]
      refine h.arrival (h (!side)).1 ?_ ?_
      · rw [List.filter_cons_of_neg (by rw [he.2]; exact Bool.false_ne_true)]
        exact (h side).2
      · rw [List.filter_cons_of_neg (by rw [he.1]; exact Bool.false_ne_true)]
        exact hto side
  | lose side => exact h.follow (h side).1.received (.popped (h side).1.tidy)
  | deliver side left =>
    rw [systemStep]
    split
    · exact h
    · rename_i p ps hsent
      have hframes := popped_frames hsent
      refine h.arrival (h (!side)).1.popped ?_ ?_
      · rw [← hframes]
        exact (h side).2
      · rw [← hframes]
        exact hto side

theorem Linked.safe (h : Linked tx rx data acks) : rx.got.Sublist tx.written ∧
    ((∀ b ∈ tx.results, b = true) →
      rx.got = tx.written.take rx.got.length ∧ tx.results.length ≤ rx.got.length) := by
  obtain ⟨w, hrun, hc⟩ := h
  have hsafe := (StopAndWait.Inv.of_run (by omega) hrun).safe
  rwa [hc.got, hc.written, hc.results] at hsafe

/-- The packets that one application gets are among those that the other one wrote, in order and
none twice. While no write was given up, they are the first ones, and every write that ended is
among them. -/
theorem protocol_safe {es : List Event} {s : System} (h : Reach systemStep Orderly systemOpen es s)
    (side : Side) :
    (s (!side)).1.rx.got.Sublist (s side).1.tx.written ∧
    ((∀ b ∈ (s side).1.tx.results, b = true) →
      (s (!side)).1.rx.got = (s side).1.tx.written.take (s (!side)).1.rx.got.length ∧
      (s side).1.tx.results.length ≤ (s (!side)).1.rx.got.length) :=
  (h.invariant systemInv_open (fun _ _ => SystemInv.step) side).2.safe

def orderly (s : System) : Event → Bool
  | .host side (.write _) =>
    match (s side).1.line.sending with
    | some (.data _) => false
    | _ => true
  | .host _ (.arrive p _) => !isRxPktValid p && !ackIntact p
  | .host side (.consume slot) => considerate (s side) (.consume slot)
  | _ => true

theorem orderly_iff {s : System} {e : Event} (h : orderly s e = true) : Orderly s e := by
  cases e with
  | deliver side left => trivial
  | lose side => trivial
  | host side e =>
    cases e with
    | txDone copies => trivial
    | timeout => trivial
    | consume slot => exact @considerate_iff (s side) (.consume slot) h
    | arrive p left =>
      obtain ⟨hv, ha⟩ := Bool.and_eq_true_iff.mp h
      rw [Bool.not_eq_true'] at hv ha
      exact ⟨hv, ha⟩
    | write payload =>
      intro p hp
      rw [orderly, hp] at h
      cases h

/-- A packet is lost and sent again, its acknowledgement is lost, the repetition is acknowledged. -/
def lossyRun : List Event :=
  [.host true (.write [1, 2, 3, 4]), .host true (.txDone 0), .lose true,
    .host true .timeout, .host true (.txDone 0), .deliver false 0, .host false (.txDone 0),
    .lose false, .host true .timeout, .host true (.txDone 0), .deliver false 0,
    .host false (.txDone 0), .deliver true 0]

def afterLossyRun : System := lossyRun.foldl systemStep systemOpen

theorem protocol_safe_lossyRun :
    (afterLossyRun false).1.rx.got.Sublist (afterLossyRun true).1.tx.written ∧
    ((∀ b ∈ (afterLossyRun true).1.tx.results, b = true) →
      (afterLossyRun false).1.rx.got =
        (afterLossyRun true).1.tx.written.take (afterLossyRun false).1.rx.got.length ∧
      (afterLossyRun true).1.tx.results.length ≤ (afterLossyRun false).1.rx.got.length) :=
  protocol_safe (.of_allowed orderly (fun _ _ => orderly_iff) (by decide)) true

end OtaFix.Hci

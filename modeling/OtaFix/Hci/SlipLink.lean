import OtaFix.Hci.Slip

/-!
# From the line back to packets

The receiver of `hci_slip.c`, fed by the UART byte by byte or by USB in chunks. The layer above
is a parameter: it gets the events, and registers a buffer when it handles one.

When its buffers are longer than the packets, the layer above gets exactly the packets that the
transmitter of the other end has finished, whatever the back-pressure there and the chunks here
(`slip_link`).
-/

namespace OtaFix.Hci

open Lib

/-- The function that `handle_rx_byte` points to. -/
inductive RxHandler where
  | waitStart
  | plain
  | esc
  deriving DecidableEq, Repr

/-- The statics of the receiver; `β` names the buffers, and `received` is what is stored in the
one that is registered. -/
structure SlipRx (β : Type*) where
  handler : RxHandler := .waitStart
  buffer : Option β := none
  size : Nat := 0
  received : List Byte := []
  deriving DecidableEq, Repr

inductive SlipEvent (β : Type*) where
  | rxRdy (buffer : Option β) (packet : List Byte)
  | rxOverflow (buffer : Option β) (count : Nat)
  deriving DecidableEq, Repr

def hciSlipRxBufferRegister {β : Type*} (buffer : Option β) (size : Nat) : SlipRx β where
  buffer := buffer
  size := size

/-- The event handler of the layer above, whose state is a `υ`. -/
abbrev Upper (υ β : Type*) := SlipEvent β → υ × SlipRx β → υ × SlipRx β

section Receive

variable {υ β : Type*} (up : Upper υ β)

def SlipRx.handle (r : SlipRx β) (h : RxHandler) : SlipRx β := { r with handler := h }

def SlipRx.put (r : SlipRx β) (p : List Byte) : SlipRx β := { r with received := r.received ++ p }

def SlipRx.store (r : SlipRx β) (b : Byte) : SlipRx β := r.put [b]

def SlipRx.taken (r : SlipRx β) : SlipRx β := { r with received := [], buffer := none }

def handleSlipEnd (s : υ × SlipRx β) : υ × SlipRx β :=
  if 0 < s.2.received.length then up (.rxRdy s.2.buffer s.2.received) (s.1, s.2.taken) else s

/-- `handle_rx_byte_wait_start`, `handle_rx_byte_default` and `handle_rx_byte_esc`. -/
def handleRxByte (b : Byte) (s : υ × SlipRx β) : υ × SlipRx β :=
  match s.2.handler with
  | .waitStart => if b = appSlipEnd then (s.1, s.2.handle .plain) else s
  | .plain =>
    if b = appSlipEnd then handleSlipEnd up s
    else if b = appSlipEsc then (s.1, s.2.handle .esc)
    else (s.1, s.2.store b)
  | .esc =>
    let t :=
      if b = appSlipEnd then handleSlipEnd up s
      else if b = appSlipEscEnd then (s.1, s.2.store appSlipEnd)
      else if b = appSlipEscEsc then (s.1, s.2.store appSlipEsc)
      else (s.1, s.2.store b)
    -- also after an event, whose handler has registered a buffer
    (t.1, t.2.handle .plain)

def rxBufferOverflowed (r : SlipRx β) : Bool :=
  r.buffer.isNone || decide (r.size ≤ r.received.length)

def overflow (s : υ × SlipRx β) : υ × SlipRx β :=
  up (.rxOverflow s.2.buffer s.2.received.length) s

/-- `slip_uart_eventhandler`: an overflow drops the byte. -/
def uartData (s : υ × SlipRx β) (b : Byte) : υ × SlipRx β :=
  if rxBufferOverflowed s.2 then overflow up s else handleRxByte up b s

/-- An overflow leaves the byte in the FIFO of the USB port. -/
def hciSlipProcessPendingRx : List Byte → υ × SlipRx β → List Byte × (υ × SlipRx β)
  | [], s => ([], s)
  | b :: fifo, s =>
    if rxBufferOverflowed s.2 then (b :: fifo, overflow up s)
    else hciSlipProcessPendingRx fifo (handleRxByte up b s)

def tudCdcRxCb (s : List Byte × (υ × SlipRx β)) (chunk : List Byte) :
    List Byte × (υ × SlipRx β) :=
  hciSlipProcessPendingRx up (s.1 ++ chunk) s.2

/-! ## Bytes that find room -/

/-- The receiver takes the bytes from `s` to `s'`, with room for each. -/
def Feeds : List Byte → υ × SlipRx β → υ × SlipRx β → Prop
  | [], s, s' => s' = s
  | b :: l, s, s' => rxBufferOverflowed s.2 = false ∧ Feeds l (handleRxByte up b s) s'

variable {up} {s s' : υ × SlipRx β}

theorem feeds_append {a b : List Byte} :
    Feeds up (a ++ b) s s' ↔ ∃ m, Feeds up a s m ∧ Feeds up b m s' := by
  induction a generalizing s with
  | nil =>
    constructor
    · intro h
      exact ⟨s, rfl, h⟩
    · rintro ⟨m, rfl, h⟩
      exact h
  | cons x a ih =>
    constructor
    · rintro ⟨hx, h⟩
      obtain ⟨m, ha, hb⟩ := ih.mp h
      exact ⟨m, ⟨hx, ha⟩, hb⟩
    · rintro ⟨m, ⟨hx, ha⟩, hb⟩
      exact ⟨hx, ih.mpr ⟨m, ha, hb⟩⟩

theorem Feeds.uart {l : List Byte} (h : Feeds up l s s') : l.foldl (uartData up) s = s' := by
  induction l generalizing s with
  | nil => exact h.symm
  | cons b l ih =>
    rw [List.foldl_cons, uartData, h.1, if_neg Bool.false_ne_true]
    exact ih h.2

theorem Feeds.pending {l : List Byte} (h : Feeds up l s s') :
    hciSlipProcessPendingRx up l s = ([], s') := by
  induction l generalizing s with
  | nil => rw [hciSlipProcessPendingRx, h]
  | cons b l ih =>
    rw [hciSlipProcessPendingRx, h.1, if_neg Bool.false_ne_true]
    exact ih h.2

/-- The chunks in which USB hands over the bytes make no difference. -/
theorem Feeds.usb {chunks : List (List Byte)} (h : Feeds up chunks.flatten s s') :
    chunks.foldl (tudCdcRxCb up) ([], s) = ([], s') := by
  induction chunks generalizing s with
  | nil => exact congrArg (Prod.mk []) (Eq.symm h)
  | cons c chunks ih =>
    obtain ⟨m, hc, hrest⟩ := feeds_append.mp h
    rw [List.foldl_cons, tudCdcRxCb, List.nil_append, hc.pending]
    exact ih hrest

theorem handleRxByte_quiet {b : Byte} (hb : b ≠ appSlipEnd) : (handleRxByte up b s).1 = s.1 := by
  unfold handleRxByte
  split
  · rw [if_neg hb]
  · rw [if_neg hb]
    split <;> rfl
  · rw [if_neg hb]
    dsimp only
    split
    · rfl
    · split <;> rfl

/-- Without a delimiter there is no event. -/
theorem Feeds.quiet {l : List Byte} (h : Feeds up l s s') (hl : appSlipEnd ∉ l) : s'.1 = s.1 := by
  induction l generalizing s with
  | nil => exact congrArg Prod.fst h
  | cons b l ih =>
    rw [List.mem_cons, not_or] at hl
    obtain ⟨hb, hl⟩ := hl
    exact (ih h.2 hl).trans (handleRxByte_quiet (Ne.symm hb))

/-! ## Frames -/

theorem not_overflowed {r : SlipRx β} (hb : r.buffer ≠ none) (h : r.received.length < r.size) :
    rxBufferOverflowed r = false := by
  rw [rxBufferOverflowed, Bool.or_eq_false_iff]
  exact ⟨Option.isNone_eq_false_iff.mpr (Option.isSome_iff_ne_none.mpr hb),
    decide_eq_false (Nat.not_le.mpr h)⟩

theorem handleRxByte_esc {u : υ} {r : SlipRx β} (hr : r.handler = .plain) :
    handleRxByte up appSlipEsc (u, r) = (u, r.handle .esc) := by
  rw [handleRxByte, hr]
  rfl

theorem handle_eq {r : SlipRx β} {h : RxHandler} (hr : r.handler = h) : r.handle h = r := by
  rw [SlipRx.handle, ← hr]

/-- The sequence of one byte of a packet. -/
theorem feeds_stuff {u : υ} {r : SlipRx β} (a : Byte) (hr : r.handler = .plain)
    (hb : r.buffer ≠ none) (h : r.received.length < r.size) :
    Feeds up (slip.stuff a) (u, r) (u, r.store a) := by
  have hfree := not_overflowed hb h
  by_cases ha : special a
  · obtain ⟨x, hx, hstuff⟩ := slip_stuff_special ha
    rw [hstuff]
    refine ⟨hfree, ?_⟩
    rw [handleRxByte_esc hr]
    refine ⟨hfree, ?_⟩
    have hplain : (r.store a).handle .plain = r.store a := handle_eq hr
    rw [← hplain]
    obtain rfl | rfl := ha <;> cases hx <;> rfl
  · rw [slip_stuff_plain ha]
    refine ⟨hfree, ?_⟩
    rw [handleRxByte, hr]
    dsimp only
    rw [if_neg fun h => ha (.inl h), if_neg fun h => ha (.inr h)]
    rfl

theorem feeds_body {u : υ} (p : List Byte) : ∀ {r : SlipRx β}, r.handler = .plain →
    r.buffer ≠ none → r.received.length + p.length ≤ r.size →
    Feeds up (slip.body p) (u, r) (u, r.put p) := by
  induction p with
  | nil =>
    intro r _ _ _
    rw [SlipRx.put, List.append_nil]
    rfl
  | cons a p ih =>
    intro r hr hb h
    rw [List.length_cons] at h
    rw [slip.body_cons]
    refine feeds_append.mpr ⟨_, feeds_stuff a hr hb (by omega), ?_⟩
    have hstore : (r.store a).received.length = r.received.length + 1 := List.length_append
    rw [SlipRx.put, List.append_cons]
    exact ih (r := r.store a) hr hb (by rw [hstore]; show _ ≤ r.size; omega)

/-- Nothing of a packet is stored; another delimiter makes no difference. -/
structure Between (r : SlipRx β) : Prop where
  handler : r.handler = .waitStart ∨ r.handler = .plain
  received : r.received = []

theorem Between.start {u : υ} {r : SlipRx β} (h : Between r) :
    handleRxByte up appSlipEnd (u, r) = (u, r.handle .plain) := by
  obtain hw | hp := h.handler
  · rw [handleRxByte, hw]
    rfl
  · rw [handleRxByte, hp]
    dsimp only
    rw [if_pos rfl, handleSlipEnd, h.received, handle_eq hp]
    rfl

/-- The layer above handles an `HCI_SLIP_RX_RDY` event. -/
def deliver (up : Upper υ β) (s : υ × SlipRx β) (p : List Byte) : υ × SlipRx β :=
  up (.rxRdy s.2.buffer p) (s.1, (s.2.handle .plain).taken)

theorem feeds_frame {p : List Byte} (hs : Between s.2) (hb : s.2.buffer ≠ none) (hp : p ≠ [])
    (hn : p.length < s.2.size) : Feeds up (slip.frame p) s (deliver up s p) := by
  obtain ⟨u, r⟩ := s
  have hpos : 0 < p.length := List.length_pos_iff.mpr hp
  refine ⟨not_overflowed hb ?_, ?_⟩
  · rw [hs.received]
    exact Nat.lt_of_le_of_lt (Nat.zero_le _) hn
  show Feeds up (slip.body p ++ [slip.stop]) (handleRxByte up appSlipEnd (u, r)) _
  rw [hs.start]
  have hlen : (r.handle .plain).received.length + p.length < (r.handle .plain).size := by
    show r.received.length + p.length < r.size
    rw [hs.received]
    exact (Nat.zero_add _).symm ▸ hn
  refine feeds_append.mpr ⟨_, feeds_body p rfl hb (Nat.le_of_lt hlen), ?_, ?_⟩
  · refine not_overflowed hb ?_
    show (r.received ++ p).length < r.size
    rw [List.length_append]
    exact hlen
  · have hrec : ((r.handle .plain).put p).received = p := by
      show r.received ++ p = p
      rw [hs.received]
      rfl
    show deliver up (u, r) p = handleSlipEnd up (u, (r.handle .plain).put p)
    rw [handleSlipEnd, hrec, if_pos hpos]
    rfl

/-- A buffer of `n` bytes at least waits for a frame. -/
structure Ready (n : Nat) (r : SlipRx β) : Prop where
  handler : r.handler = .waitStart
  buffer : r.buffer ≠ none
  size : n ≤ r.size
  received : r.received = []

theorem Ready.feeds {n : Nat} {p : List Byte} (hs : Ready n s.2) (hp : p ≠ [])
    (hn : p.length < n) : Feeds up (slip.frame p) s (deliver up s p) :=
  feeds_frame ⟨.inl hs.handler, hs.received⟩ hs.buffer hp (Nat.lt_of_lt_of_le hn hs.size)

/-- Whatever happens, the layer above registers a buffer of `n` bytes at least. -/
def Supplies (up : Upper υ β) (n : Nat) : Prop := ∀ e s, Ready n (up e s).2

theorem feeds_frames {n : Nat} (hup : Supplies up n) (ps : List (List Byte)) :
    ∀ {s : υ × SlipRx β}, Ready n s.2 → (∀ p ∈ ps, p ≠ [] ∧ p.length < n) →
      Feeds up (ps.flatMap onLine) s (ps.foldl (deliver up) s) ∧
      Ready n (ps.foldl (deliver up) s).2 := by
  induction ps with
  | nil => exact fun hs _ => ⟨rfl, hs⟩
  | cons p ps ih =>
    intro s hs hps
    obtain ⟨⟨hp, hn⟩, hps⟩ := List.forall_mem_cons.mp hps
    obtain ⟨hfeeds, hready⟩ := @ih (deliver up s p) (hup _ _) hps
    refine ⟨?_, hready⟩
    rw [List.flatMap_cons, onLine, if_neg hp]
    exact feeds_append.mpr ⟨_, hs.feeds hp hn, hfeeds⟩

/-- A frame that has not ended gives no event. -/
theorem feeds_front {n : Nat} {p front left : List Byte} (hs : Ready n s.2) (hp : p ≠ [])
    (hn : p.length < n) (h : front ++ left = onLine p) (hleft : left ≠ []) :
    ∃ m, Feeds up front s m ∧ m.1 = s.1 := by
  have hframe : Feeds up (slip.frame p) s (deliver up s p) := hs.feeds hp hn
  rw [onLine, if_neg hp] at h
  rw [← h] at hframe
  obtain ⟨m, hm, -⟩ := feeds_append.mp hframe
  refine ⟨m, hm, ?_⟩
  cases front with
  | nil => exact congrArg Prod.fst hm
  | cons b f =>
    obtain ⟨rfl, hf⟩ := List.cons.inj h
    have hstop : appSlipEnd ∉ f := by
      have hbody : f <+: slip.body p := by
        obtain ⟨left, x, rfl⟩ := List.eq_nil_or_concat left |>.resolve_left hleft
        have hf : f ++ left ++ [x] = slip.body p ++ [slip.stop] := by
          rw [List.append_assoc, ← List.concat_eq_append]
          exact hf
        exact ⟨left, (List.append_inj' hf rfl).1⟩
      exact fun hmem => slip.stop_not_mem_body p (hbody.subset hmem)
    refine (hm.2.quiet hstop).trans ?_
    rw [handleRxByte, hs.handler]
    rfl

/-! ## Both ends -/

/-- The layer above a receiver has handled exactly the packets that the transmitter has finished,
one event each, in order. -/
theorem slip_link (es : List TxEvent) {n : Nat} (hup : Supplies up n) (hs : Ready n s.2)
    (hps : ∀ p ∈ (txRun es).accepted, p ≠ [] ∧ p.length < n) :
    ((txRun es).line.foldl (uartData up) s).1 = ((txRun es).done.foldl (deliver up) s).1 ∧
    ∀ chunks : List (List Byte), chunks.flatten = (txRun es).line →
      ∃ r, chunks.foldl (tudCdcRxCb up) ([], s) = ([], r) ∧
        r.1 = ((txRun es).done.foldl (deliver up) s).1 := by
  have hfeeds : ∃ r, Feeds up (txRun es).line s r ∧
      r.1 = ((txRun es).done.foldl (deliver up) s).1 := by
    cases carried_txRun es with
    | idle hstate hline hacc =>
      rw [hline]
      exact ⟨_, (feeds_frames hup _ hs (hacc ▸ hps)).1, rfl⟩
    | busy front hsend hfront hline hacc =>
      rw [hacc] at hps
      obtain ⟨hdone, hready⟩ := @feeds_frames υ β up n hup (txRun es).done s hs fun p hp =>
        hps p (List.mem_append_left _ hp)
      obtain ⟨hp, hn⟩ := hps _ (List.mem_append_right _ List.mem_cons_self)
      obtain ⟨m, hm, hsame⟩ := feeds_front hready hp hn hfront hsend.rest_ne_nil
      rw [hline]
      exact ⟨m, feeds_append.mpr ⟨_, hdone, hm⟩, hsame⟩
  obtain ⟨r, hr, hr1⟩ := hfeeds
  refine ⟨by rw [hr.uart]; exact hr1, fun chunks hc => ⟨r, ?_, hr1⟩⟩
  rw [← hc] at hr
  exact hr.usb

end Receive

/-- A layer that keeps what it gets. -/
def keeping : Upper (List (List Byte)) Unit
  | .rxRdy _ p, s => (s.1 ++ [p], hciSlipRxBufferRegister (some ()) 8)
  | .rxOverflow _ _, s => (s.1, hciSlipRxBufferRegister (some ()) 8)

theorem keeping_supplies : Supplies keeping 8 := by
  intro e s
  cases e <;> exact ⟨rfl, (fun h => by cases h), Nat.le_refl _, rfl⟩

/-- One packet is through, the next one is on its way. -/
def twoWrites : List TxEvent := [.write [appSlipEnd, 7] 9, .write [1, 2, 3] 2]

theorem slip_link_twoWrites :
    ((txRun twoWrites).line.foldl (uartData keeping) ([], hciSlipRxBufferRegister (some ()) 8)).1 =
      ((txRun twoWrites).done.foldl (deliver keeping)
        ([], hciSlipRxBufferRegister (some ()) 8)).1 ∧
    ∀ chunks : List (List Byte), chunks.flatten = (txRun twoWrites).line →
      ∃ r, chunks.foldl (tudCdcRxCb keeping) ([], ([], hciSlipRxBufferRegister (some ()) 8)) =
        ([], r) ∧ r.1 = ((txRun twoWrites).done.foldl (deliver keeping)
          ([], hciSlipRxBufferRegister (some ()) 8)).1 :=
  slip_link (n := 8) twoWrites keeping_supplies ⟨rfl, by decide, by decide, rfl⟩ (by decide)

end OtaFix.Hci

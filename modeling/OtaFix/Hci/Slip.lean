import OtaFix.Lib.Run
import OtaFix.Lib.Stuffing
import OtaFix.Word

/-!
# The SLIP link

`hci_slip.c`. `transmit_buffer` puts the frame of a packet until the serial port takes no more
bytes, and goes on where it stopped when the port has room again. The receiver stores decoded
bytes in the buffer that is registered, and hands a whole packet up by an event.

Back-pressure leaves no trace on the line: in every run the port took the frames of the accepted
packets one after the other, up to a place in the last of them (`slip_tx_exact`).
-/

namespace OtaFix.Hci

open Lib

def appSlipEnd : Byte := 0xC0

def appSlipEsc : Byte := 0xDB

def appSlipEscEnd : Byte := 0xDC

def appSlipEscEsc : Byte := 0xDD

def slip : Stuffing Byte where
  stop := appSlipEnd
  esc := appSlipEsc
  stopCode := appSlipEscEnd
  escCode := appSlipEscEsc
  esc_ne := by decide
  stopCode_ne := by decide
  escCode_ne := by decide
  codes_ne := by decide

/-! ## Transmission -/

inductive SlipState where
  | off
  | ready
  | transmitting
  deriving DecidableEq, Repr

/-- The function that `send_tx_byte` points to. -/
inductive Sender where
  | start
  | plain
  | esc
  | encoded
  deriving DecidableEq, Repr

/-- The statics of the transmitter. `line` are the bytes that the port took, `accepted` the packets
of the writes that succeeded, `done` those of the `HCI_SLIP_TX_DONE` events. -/
structure SlipTx where
  state : SlipState := .ready
  sender : Sender := .plain
  buffer : List Byte := []
  index : Nat := 0
  line : List Byte := []
  accepted : List (List Byte) := []
  done : List (List Byte) := []
  deriving DecidableEq, Repr

/-- What the sender puts for the byte `b` of the buffer; `none` is `NRF_ERROR_NO_MEM`. -/
def Sender.byte (b : Byte) : Sender → Option Byte
  | .start => some appSlipEnd
  | .plain => some b
  | .esc => some appSlipEsc
  | .encoded => if b = appSlipEnd then some appSlipEscEnd
      else if b = appSlipEsc then some appSlipEscEsc else none

/-- `send_tx_byte_end`, `send_tx_byte_default`, `send_tx_byte_esc` and `send_tx_byte_encoded`, when
the port takes the byte `x`. -/
def sent (x : Byte) (s : SlipTx) : SlipTx :=
  match s.sender with
  | .start => if s.index = 0 then { s with line := s.line ++ [x], sender := .plain }
      else { s with line := s.line ++ [x] }
  | .plain => { s with line := s.line ++ [x], index := s.index + 1 }
  | .esc => { s with line := s.line ++ [x], sender := .encoded }
  | .encoded => { s with line := s.line ++ [x], index := s.index + 1, sender := .plain }

def special (b : Byte) : Prop := b = appSlipEnd ∨ b = appSlipEsc

instance (b : Byte) : Decidable (special b) := inferInstanceAs (Decidable (_ ∨ _))

/-- A special byte goes out as an escape sequence. -/
def escaped (b : Byte) (s : SlipTx) : SlipTx :=
  if special b ∧ s.sender = .plain then { s with sender := .esc } else s

def SlipTx.closing (s : SlipTx) : SlipTx := { s with sender := .start }

/-- `HCI_SLIP_TX_DONE`. -/
def SlipTx.finished (s : SlipTx) : SlipTx :=
  { s with state := .ready, done := s.done ++ [s.buffer] }

/-- The port takes `room` bytes and then none. -/
def transmitBuffer (room : Nat) (s : SlipTx) : SlipTx :=
  match s.buffer[s.index]? with
  | some b =>
    match (escaped b s).sender.byte b, room with
    | some x, room + 1 => transmitBuffer room (sent x (escaped b s))
    | _, _ => escaped b s
  | none =>
    match room with
    | 0 => s.closing
    | _ + 1 => (sent appSlipEnd s.closing).finished

def SlipTx.loaded (s : SlipTx) (buffer : List Byte) : SlipTx :=
  { s with index := 0, buffer := buffer, state := .transmitting, sender := .start,
           accepted := s.accepted ++ [buffer] }

def hciSlipWrite (buffer : List Byte) (room : Nat) (s : SlipTx) : Bool × SlipTx :=
  match s.state with
  | .ready => (true, transmitBuffer room (s.loaded buffer))
  | .transmitting => (false, s)
  | .off => (false, s)

/-- `APP_UART_TX_EMPTY`: the port has room for `room` more bytes. -/
def uartTxEmpty (room : Nat) (s : SlipTx) : SlipTx :=
  if s.state = .transmitting then transmitBuffer room s else s

inductive TxEvent where
  | write (buffer : List Byte) (room : Nat)
  | empty (room : Nat)
  deriving DecidableEq, Repr

def txStep (s : SlipTx) : TxEvent → SlipTx
  | .write buffer room => (hciSlipWrite buffer room s).2
  | .empty room => uartTxEmpty room s

/-! ## What is left of a frame -/

/-- The frame of `transmit_buffer`; an empty packet has the closing delimiter only. -/
def onLine (p : List Byte) : List Byte := if p = [] then [appSlipEnd] else slip.frame p

/-- The bytes of the current frame that the port has not taken. -/
def rest (s : SlipTx) : List Byte :=
  match s.sender with
  | .start => if s.index = 0 then onLine s.buffer else [appSlipEnd]
  | .plain => slip.body (s.buffer.drop s.index) ++ [appSlipEnd]
  | .esc => slip.body (s.buffer.drop s.index) ++ [appSlipEnd]
  | .encoded => (slip.body (s.buffer.drop s.index)).tail ++ [appSlipEnd]

/-- The sender fits the place in the buffer. -/
structure Sending (s : SlipTx) : Prop where
  state : s.state = .transmitting
  index : s.index ≤ s.buffer.length
  start : s.sender = .start → s.index = 0 ∨ s.index = s.buffer.length
  coded : s.sender = .esc ∨ s.sender = .encoded → ∃ b, s.buffer[s.index]? = some b ∧ special b

theorem Sending.ofPlain {s : SlipTx} (hstate : s.state = .transmitting)
    (hindex : s.index ≤ s.buffer.length) (hs : s.sender = .plain) : Sending s where
  state := hstate
  index := hindex
  start he := by
    rw [hs] at he
    cases he
  coded he := by
    rw [hs] at he
    obtain he | he := he <;> cases he

theorem Sending.ofCoded {s : SlipTx} {b : Byte} (hstate : s.state = .transmitting)
    (hb : s.buffer[s.index]? = some b) (hspecial : special b) (hs : s.sender ≠ .start) :
    Sending s where
  state := hstate
  index := Nat.le_of_lt (List.getElem?_eq_some_iff.mp hb).1
  start he := absurd he hs
  coded _ := ⟨b, hb, hspecial⟩

theorem onLine_cons (b : Byte) (p : List Byte) : onLine (b :: p) = slip.frame (b :: p) :=
  if_neg (List.cons_ne_nil b p)

theorem slip_stuff_special {b : Byte} (h : special b) : ∃ x, Sender.encoded.byte b = some x ∧
    slip.stuff b = [appSlipEsc, x] := by
  obtain rfl | rfl := h
  · exact ⟨appSlipEscEnd, rfl, slip.stuff_stop⟩
  · exact ⟨appSlipEscEsc, rfl, slip.stuff_esc⟩

theorem slip_stuff_plain {b : Byte} (h : ¬ special b) : slip.stuff b = [b] :=
  slip.stuff_plain (fun hb => h (.inl hb)) fun hb => h (.inr hb)

section Escaped

variable {s : SlipTx} {b : Byte}

@[simp] theorem escaped_buffer : (escaped b s).buffer = s.buffer := by
  unfold escaped
  split <;> rfl

@[simp] theorem escaped_index : (escaped b s).index = s.index := by
  unfold escaped
  split <;> rfl

@[simp] theorem escaped_line : (escaped b s).line = s.line := by
  unfold escaped
  split <;> rfl

@[simp] theorem escaped_done : (escaped b s).done = s.done := by
  unfold escaped
  split <;> rfl

@[simp] theorem escaped_accepted : (escaped b s).accepted = s.accepted := by
  unfold escaped
  split <;> rfl

theorem escaped_rest : rest (escaped b s) = rest s := by
  unfold escaped
  split
  · rename_i h
    rw [rest, rest, h.2]
  · rfl

theorem Sending.escaped (h : Sending s) (hb : s.buffer[s.index]? = some b) :
    Sending (escaped b s) := by
  unfold Hci.escaped
  split
  · rename_i hs
    exact .ofCoded h.state hb hs.1 (fun he => by cases he)
  · exact h

end Escaped

/-- One byte of the frame. -/
theorem Sending.byte {s : SlipTx} {b : Byte} (h : Sending s) (hb : s.buffer[s.index]? = some b)
    (hplain : ¬ (special b ∧ s.sender = .plain)) : ∃ x, s.sender.byte b = some x ∧
      rest s = x :: rest (sent x s) ∧ Sending (sent x s) := by
  obtain ⟨hlt, hget⟩ := List.getElem?_eq_some_iff.mp hb
  have hdrop : s.buffer.drop s.index = b :: s.buffer.drop (s.index + 1) := by
    rw [← hget]
    exact List.drop_eq_getElem_cons hlt
  have hcoded : s.sender = .esc ∨ s.sender = .encoded → special b := by
    intro hs
    obtain ⟨b', hb', hspecial⟩ := h.coded hs
    cases hb.symm.trans hb'
    exact hspecial
  cases hs : s.sender with
  | start =>
    have h0 : s.index = 0 := (h.start hs).resolve_right (Nat.ne_of_lt hlt)
    refine ⟨appSlipEnd, rfl, ?_, ?_⟩
    · rw [h0, List.drop_zero] at hdrop
      simp only [rest, sent, hs, h0, if_true, List.drop_zero]
      rw [hdrop, onLine_cons]
      rfl
    · simp only [sent, hs, h0, if_true]
      exact .ofPlain h.state (Nat.zero_le _) rfl
  | plain =>
    have hb' : ¬ special b := fun hsp => hplain ⟨hsp, hs⟩
    refine ⟨b, rfl, ?_, ?_⟩
    · simp only [rest, sent, hs]
      rw [hdrop, slip.body_cons, slip_stuff_plain hb']
      rfl
    · simp only [sent, hs]
      exact .ofPlain h.state hlt rfl
  | esc =>
    obtain ⟨x, -, hx⟩ := slip_stuff_special (hcoded (.inl hs))
    refine ⟨appSlipEsc, rfl, ?_, ?_⟩
    · simp only [rest, sent, hs]
      rw [hdrop, slip.body_cons, hx]
      rfl
    · simp only [sent, hs]
      exact .ofCoded h.state hb (hcoded (.inl hs)) (fun he => by cases he)
  | encoded =>
    obtain ⟨x, hx, hstuff⟩ := slip_stuff_special (hcoded (.inr hs))
    refine ⟨x, hx, ?_, ?_⟩
    · simp only [rest, sent, hs]
      rw [hdrop, slip.body_cons, hstuff]
      rfl
    · simp only [sent, hs]
      exact .ofPlain h.state hlt rfl

/-- Behind the last byte of the packet the closing delimiter is left. -/
theorem Sending.rest_end {s : SlipTx} (h : Sending s) (hb : s.buffer[s.index]? = none) :
    rest s = [appSlipEnd] := by
  have hlen : s.index = s.buffer.length := Nat.le_antisymm h.index (List.getElem?_eq_none_iff.mp hb)
  have hcoded : ¬ (s.sender = .esc ∨ s.sender = .encoded) := by
    intro hs
    obtain ⟨b, hb', -⟩ := h.coded hs
    rw [hb] at hb'
    cases hb'
  rw [rest]
  cases hs : s.sender with
  | start =>
    dsimp only
    split
    · rename_i h0
      have hnil : s.buffer = [] := List.length_eq_zero_iff.mp (hlen.symm.trans h0)
      rw [hnil]
      rfl
    · rfl
  | plain =>
    dsimp only
    rw [hlen, List.drop_length]
    rfl
  | esc => exact absurd (.inl hs) hcoded
  | encoded => exact absurd (.inr hs) hcoded

/-- What `transmit_buffer` makes of the room that the port has. -/
inductive Sent (s : SlipTx) (room : Nat) (s' : SlipTx) : Prop where
  | part : room < (rest s).length → Sending s' → rest s' = (rest s).drop room →
      s'.line = s.line ++ (rest s).take room → s'.buffer = s.buffer → s'.done = s.done →
      s'.accepted = s.accepted → Sent s room s'
  | whole : (rest s).length ≤ room → s'.state = .ready → s'.line = s.line ++ rest s →
      s'.done = s.done ++ [s.buffer] → s'.accepted = s.accepted → Sent s room s'

theorem sent_same (x : Byte) (s : SlipTx) : (sent x s).line = s.line ++ [x] ∧
    (sent x s).buffer = s.buffer ∧ (sent x s).done = s.done ∧
    (sent x s).accepted = s.accepted := by
  unfold sent
  split
  · split <;> exact ⟨rfl, rfl, rfl, rfl⟩
  · exact ⟨rfl, rfl, rfl, rfl⟩
  · exact ⟨rfl, rfl, rfl, rfl⟩
  · exact ⟨rfl, rfl, rfl, rfl⟩

theorem Sent.cons {s s₁ s' : SlipTx} {x : Byte} {room : Nat} (h : Sent s₁ room s')
    (hrest : rest s = x :: rest s₁) (hline : s₁.line = s.line ++ [x]) (hbuf : s₁.buffer = s.buffer)
    (hdone : s₁.done = s.done) (hacc : s₁.accepted = s.accepted) : Sent s (room + 1) s' := by
  cases h with
  | part hlt hs hr hl hb hd ha =>
    refine .part ?_ hs ?_ ?_ (hb.trans hbuf) (hd.trans hdone) (ha.trans hacc)
    · rw [hrest]
      exact Nat.succ_lt_succ hlt
    · rw [hr, hrest]
      rfl
    · rw [hl, hline, hrest, List.append_assoc]
      rfl
  | whole hle hs hl hd ha =>
    refine .whole ?_ hs ?_ (by rw [hd, hdone, hbuf]) (ha.trans hacc)
    · rw [hrest]
      exact Nat.succ_le_succ hle
    · rw [hl, hline, hrest, List.append_assoc]
      rfl

theorem Sending.closing {s : SlipTx} (h : Sending s) (hb : s.buffer[s.index]? = none) :
    Sending s.closing where
  state := h.state
  index := h.index
  start _ := .inr (Nat.le_antisymm h.index (List.getElem?_eq_none_iff.mp hb))
  coded hs := by
    obtain hs | hs := hs <;> cases hs

theorem escaped_ready (b : Byte) (s : SlipTx) :
    ¬ (special b ∧ (escaped b s).sender = .plain) := by
  unfold escaped
  split
  · exact fun h => by cases h.2
  · assumption

theorem transmitBuffer_sent (room : Nat) : ∀ {s : SlipTx}, Sending s →
    Sent s room (transmitBuffer room s) := by
  induction room with
  | zero =>
    intro s h
    rw [transmitBuffer]
    cases hb : s.buffer[s.index]? with
    | some b =>
      have he := h.escaped hb
      obtain ⟨x, hx, hrest, -⟩ := he.byte (by simpa using hb) (escaped_ready b s)
      dsimp only
      rw [hx]
      dsimp only
      refine .part ?_ he escaped_rest ?_ escaped_buffer escaped_done escaped_accepted
      · rw [← @escaped_rest s b, hrest]
        exact Nat.succ_pos _
      · rw [List.take_zero, List.append_nil, escaped_line]
    | none =>
      have hrest := h.rest_end hb
      refine .part ?_ (h.closing hb) ?_ ?_ rfl rfl rfl
      · rw [hrest]
        exact Nat.one_pos
      · rw [(h.closing hb).rest_end hb, hrest]
        rfl
      · exact (List.append_nil _).symm
  | succ room ih =>
    intro s h
    rw [transmitBuffer]
    cases hb : s.buffer[s.index]? with
    | some b =>
      have he := h.escaped hb
      obtain ⟨x, hx, hrest, hs⟩ := he.byte (by simpa using hb) (escaped_ready b s)
      obtain ⟨hline, hbuf, hdone, hacc⟩ := sent_same x (escaped b s)
      dsimp only
      rw [hx]
      refine (ih hs).cons (escaped_rest.symm.trans hrest) ?_ (hbuf.trans escaped_buffer)
        (hdone.trans escaped_done) (hacc.trans escaped_accepted)
      rw [hline, escaped_line]
    | none =>
      obtain ⟨hline, hbuf, hdone, hacc⟩ := sent_same appSlipEnd s.closing
      have hrest := h.rest_end hb
      refine .whole ?_ rfl ?_ ?_ hacc
      · rw [hrest]
        exact Nat.succ_le_succ (Nat.zero_le _)
      · rw [hrest]
        exact hline
      · show (sent appSlipEnd s.closing).done ++ [(sent appSlipEnd s.closing).buffer] = _
        rw [hdone, hbuf]
        rfl

/-! ## Runs of the transmitter -/

def txRun (es : List TxEvent) : SlipTx := es.foldl txStep {}

/-- The port took the frames of the finished packets, and `front` of the frame in transmission. -/
inductive Carried (s : SlipTx) : Prop where
  | idle : s.state = .ready → s.line = s.done.flatMap onLine → s.accepted = s.done → Carried s
  | busy (front : List Byte) : Sending s → front ++ rest s = onLine s.buffer →
      s.line = s.done.flatMap onLine ++ front → s.accepted = s.done ++ [s.buffer] → Carried s

theorem Sending.rest_ne_nil {s : SlipTx} (h : Sending s) : rest s ≠ [] := by
  cases hb : s.buffer[s.index]? with
  | some b =>
    obtain ⟨x, -, hrest, -⟩ := (h.escaped hb).byte (by simpa using hb) (escaped_ready b s)
    rw [← @escaped_rest s b, hrest]
    exact List.cons_ne_nil _ _
  | none =>
    rw [h.rest_end hb]
    exact List.cons_ne_nil _ _

theorem Sent.carried {s s' : SlipTx} {room : Nat} {front : List Byte} (h : Sent s room s')
    (hfront : front ++ rest s = onLine s.buffer)
    (hline : s.line = s.done.flatMap onLine ++ front) (hacc : s.accepted = s.done ++ [s.buffer]) :
    Carried s' := by
  cases h with
  | part hlt hs hr hl hb hd ha =>
    refine .busy (front ++ (rest s).take room) hs ?_ ?_ (by rw [ha, hd, hb, hacc])
    · rw [hr, hb, List.append_assoc, List.take_append_drop, hfront]
    · rw [hl, hline, hd, List.append_assoc]
  | whole hle hs hl hd ha =>
    refine .idle hs ?_ (by rw [ha, hd, hacc])
    rw [hl, hline, hd, List.append_assoc, hfront, List.flatMap_append, List.flatMap_singleton]

theorem Sending.loaded (s : SlipTx) (buffer : List Byte) : Sending (s.loaded buffer) where
  state := rfl
  index := Nat.zero_le _
  start _ := .inl rfl
  coded hs := by
    obtain hs | hs := hs <;> cases hs

theorem Carried.step {s : SlipTx} (h : Carried s) (e : TxEvent) : Carried (txStep s e) := by
  cases e with
  | write buffer room =>
    rw [txStep, hciSlipWrite]
    cases h with
    | idle hs hl ha =>
      rw [hs]
      refine @Sent.carried _ _ _ [] (transmitBuffer_sent room (.loaded s buffer)) ?_ ?_ ?_
      · rfl
      · exact hl.trans (List.append_nil _).symm
      · exact congrArg (· ++ [buffer]) ha
    | busy front hs hf hl ha =>
      rw [hs.state]
      exact .busy front hs hf hl ha
  | empty room =>
    rw [txStep, uartTxEmpty]
    cases h with
    | idle hs hl ha =>
      rw [hs, if_neg (fun h => by cases h)]
      exact .idle hs hl ha
    | busy front hs hf hl ha =>
      rw [if_pos hs.state]
      exact (transmitBuffer_sent room hs).carried hf hl ha

theorem carried_txRun (es : List TxEvent) : Carried (txRun es) :=
  (Reach.of_foldl txStep {} es).invariant (.idle rfl rfl rfl) fun _ e h _ => h.step e

/-- In every run of writes and of room in the port, the line carries the frames of the finished
packets and a part of the next one, and room for the rest of it finishes every accepted packet. -/
theorem slip_tx_exact (es : List TxEvent) : Carried (txRun es) ∧
    ∀ room, (rest (txRun es)).length ≤ room →
      (uartTxEmpty room (txRun es)).done = (txRun es).accepted ∧
      (uartTxEmpty room (txRun es)).line = (txRun es).accepted.flatMap onLine := by
  have h := carried_txRun es
  refine ⟨h, fun room hroom => ?_⟩
  cases h with
  | idle hs hl ha =>
    rw [uartTxEmpty, if_neg (by rw [hs]; exact fun h => by cases h)]
    exact ⟨ha.symm, by rw [hl, ha]⟩
  | busy front hs hf hl ha =>
    rw [uartTxEmpty, if_pos hs.state]
    cases transmitBuffer_sent room hs with
    | part hlt => exact absurd hlt (Nat.not_lt.mpr hroom)
    | whole _ _ hl' hd' _ =>
      refine ⟨hd'.trans ha.symm, ?_⟩
      rw [hl', hl, ha, List.append_assoc, hf, List.flatMap_append, List.flatMap_singleton]

/-- A packet with both special bytes, through a port that takes three bytes at a time. -/
example : (txRun [.write [appSlipEnd, 1, appSlipEsc] 3, .empty 3, .empty 3]).line =
    [0xC0, 0xDB, 0xDC, 1, 0xDB, 0xDD, 0xC0] := by decide

end OtaFix.Hci

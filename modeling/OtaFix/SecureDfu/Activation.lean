import OtaFix.SecureDfu.Ble

/-!
# Activation waits for the final receipt

What `ble_gatts.h` promises of the SoftDevice is two predicates. `env`: it
reports no more completions than it has notifications of the current
connection. `linkClean`: once `sd_ble_gatts_hvx` has answered a timeout or an
invalid handle, it accepts no notification until the connection is made anew.
On runs that keep both, the transmit counter is the number of unreported
notifications whenever it can lead to an activation (`BleInv`), and
`dfu_image_activate` is called only after the receipt of the final EXECUTE went
out on this connection.
-/

namespace OtaFix.SecureDfu

open Lib

/-! ## The environment -/

def env (b : Ble) : BleEvent → Bool
  | .txComplete count _ _ => count ≤ b.accepted.length - b.reported
  | _ => true

/-- No notification of this flush is accepted on a stale connection. -/
def flushClean (sd : SoftDevice) : Nat → Ble → Bool
  | 0, _ => true
  | fuel + 1, b =>
    if canSend b = true ∧ sd.answer b = .success then !b.stale && flushClean sd fuel (sent b)
    else true

/-- After `NRF_ERROR_TIMEOUT` no procedure runs "without reestablishing the connection"; only a
link that still holds receipts is `stale`. -/
def linkClean (cfg : Platform) (sd : SoftDevice) (b : Ble) (e : BleEvent) : Bool :=
  let r := handleEvent cfg b e
  b.halted || !r.2.2 || flushClean sd r.1.queue.count r.1

/-! ## What must hold when the image is activated -/

/-- A successful EXECUTE of the last data object, on connection `conn`. -/
def Receipt.FinalExecute (r : Receipt) (conn : Nat) : Prop :=
  r.conn = conn ∧ r.handle = .control ∧ r.request = [4] ∧ r.after.selected = some .data ∧
    r.after.completed = true ∧ r.bytes.length = 3 ∧ r.bytes[2]? = some Status.ok.code

instance (r : Receipt) (conn : Nat) : Decidable (r.FinalExecute conn) :=
  inferInstanceAs (Decidable (_ ∧ _))

/-- The session is complete, its final receipt was accepted on this connection
and reported complete, and no receipt is queued. -/
def ActivationDue (b : Ble) : Prop :=
  b.session.completed = true ∧
    (∃ r ∈ b.accepted.take b.reported, r.FinalExecute b.conn) ∧ b.queue.toList = []

instance (b : Ble) : Decidable (ActivationDue b) := inferInstanceAs (Decidable (_ ∧ _))

/-! ## The invariant -/

structure BleInv (sd : SoftDevice) (b : Ble) : Prop where
  reported_le : b.reported ≤ b.accepted.length
  window : b.accepted.length - b.reported ≤ sd.hvnTxQueueSize
  /-- The counter is what the SoftDevice holds. -/
  txPending_eq : b.connectionBlocked = false → b.stale = false →
    b.txPending = b.accepted.length - b.reported
  stale_unsent : b.stale = true → b.finalResponseSent = false
  queued_final : ∀ r ∈ b.queue.toList, r.final = true →
    r.FinalExecute b.conn ∧ b.session.completed = true
  sent_final : b.finalResponseSent = true →
    (∃ r ∈ b.accepted, r.FinalExecute b.conn) ∧ b.session.completed = true

variable {cfg : Platform} {sd : SoftDevice} {b : Ble} {s s' : Session} {calls : List Call}

theorem bleInv_init (sd : SoftDevice) : BleInv sd secureDfuBleInit where
  reported_le := Nat.le_refl _
  window := Nat.zero_le _
  txPending_eq _ _ := rfl
  stale_unsent h := by cases h
  queued_final r hr := by simp [secureDfuBleInit] at hr
  sent_final h := by cases h

/-! ## Sending -/

theorem answer_success (h : sd.answer b = .success) :
    b.accepted.length - b.reported < sd.hvnTxQueueSize := by
  unfold SoftDevice.answer at h
  split at h
  · cases h
  · rename_i hfull
    rw [not_and] at hfull
    have := hfull h
    omega

theorem BleInv.called (hI : BleInv sd b) (n : Nat) (h : Bool) :
    BleInv sd { b with hvxCalls := n, halted := h } where
  __ := hI

theorem BleInv.sent (hI : BleInv sd b) (hsend : canSend b = true)
    (hok : sd.answer b = .success) (hclean : b.stale = false) : BleInv sd (sent b) := by
  have hfull := answer_success hok
  have hsz := sd.hvnTxQueueSize_lt
  have hle := hI.reported_le
  simp only [canSend, Bool.and_eq_true, Bool.not_eq_true', bne_iff_ne, ne_eq] at hsend
  obtain ⟨⟨⟨hblk, hcnt⟩, -⟩, -⟩ := hsend
  have hq : b.queue.toList = b.queue.front :: b.queue.pop.toList :=
    Ring.toList_eq_front_cons (by omega)
  refine ⟨?_, ?_, ?_, ?_, ?_, ?_⟩
  · simp only [SecureDfu.sent, List.length_append, List.length_singleton]
    omega
  · simp only [SecureDfu.sent, List.length_append, List.length_singleton]
    omega
  · intro _ _
    have := hI.txPending_eq hblk hclean
    simp only [SecureDfu.sent, List.length_append, List.length_singleton]
    omega
  · intro h
    rw [show b.stale = true from h] at hclean
    cases hclean
  · intro r hr
    exact hI.queued_final r (by rw [hq]; exact List.mem_cons_of_mem _ hr)
  · intro h
    rcases Bool.or_eq_true _ _ ▸ h with hfront | hold
    · have := hI.queued_final _ (by rw [hq]; exact List.mem_cons_self) hfront
      exact ⟨⟨_, by simp [SecureDfu.sent], this.1⟩, this.2⟩
    · obtain ⟨⟨r, hr, hfin⟩, hc⟩ := hI.sent_final hold
      exact ⟨⟨r, by simp [SecureDfu.sent, hr], hfin⟩, hc⟩

theorem BleInv.lostLink (hI : BleInv sd b) : BleInv sd (lostLink b) where
  reported_le := hI.reported_le
  window := hI.window
  txPending_eq _ hst := by
    -- nothing was held back: the cleared counter is right
    simp only [SecureDfu.lostLink, Bool.or_eq_false_iff, decide_eq_false_iff_not] at hst
    show 0 = b.accepted.length - b.reported
    omega
  stale_unsent _ := rfl
  queued_final r hr := by simp [SecureDfu.lostLink, clearReceipts] at hr
  sent_final h := by cases h

theorem BleInv.flushLoop (fuel : Nat) (hI : BleInv sd b) (hclean : flushClean sd fuel b = true) :
    BleInv sd (flushLoop sd fuel b) := by
  induction fuel generalizing b with
  | zero => exact hI
  | succ fuel ih =>
    unfold SecureDfu.flushLoop
    split
    · rename_i hsend
      split
      · exact hI.called _ b.halted
      · exact hI.called _ b.halted
      · exact hI.called _ b.halted
      · exact hI.called _ b.halted
      · exact hI.lostLink
      · exact hI.lostLink
      · exact hI.called _ true
      · rename_i hok
        rw [flushClean, if_pos ⟨hsend, hok⟩, Bool.and_eq_true, Bool.not_eq_true'] at hclean
        exact ih (hI.sent hsend hok hclean.1) hclean.2
    · exact hI

/-! ## Handling an event -/

/-- Completion is never taken back. -/
theorem Effect.completed (he : Effect cfg s s' calls) (hc : s.completed = true) :
    s'.completed = true := by
  cases he with
  | createCommand _ hc' => rw [hc'] at hc; cases hc
  | finishOk => rfl
  | _ => exact hc

theorem sessionAnswer_acts (cfg : Platform) (h : Hooks) (w : GattWrite) (b : Ble) :
    Acts cfg b.session (sessionAnswer cfg h w b).1 (sessionAnswer cfg h w b).2.2 := by
  unfold sessionAnswer
  split
  · exact secureDfuControl_acts w.data
  · exact secureDfuPacket_acts w.data

theorem receiptOf_final {w : GattWrite} {conn : Nat} {r : Session × List Byte × List Call}
    (h : (receiptOf w conn r).final = true) :
    (receiptOf w conn r).FinalExecute conn ∧ r.1.completed = true := by
  simp only [receiptOf, Bool.and_eq_true, decide_eq_true_eq] at h
  obtain ⟨⟨⟨⟨⟨h1, h2⟩, h3⟩, h4⟩, h5⟩, h6⟩ := h
  exact ⟨⟨rfl, h1, h2, h3, h4, h5, h6⟩, h4⟩

theorem BleInv.consume (hI : BleInv sd b) (h : Hooks) (w : GattWrite) (hq : b.queue.count ≠ 8) :
    BleInv sd (consume cfg h w b) := by
  obtain ⟨c, he, -⟩ := sessionAnswer_acts cfg h w b
  have hroom : b.queue.count < 8 := by
    have := b.queue.count_le
    omega
  refine { hI with
    queued_final := ?_
    sent_final := fun hs => ⟨(hI.sent_final hs).1, he.completed (hI.sent_final hs).2⟩ }
  intro r hr hfin
  simp only [SecureDfu.consume] at hr
  split at hr
  · exact ⟨(hI.queued_final r hr hfin).1, he.completed (hI.queued_final r hr hfin).2⟩
  · rw [Ring.toList_push hroom] at hr
    rcases List.mem_append.mp hr with hr | hr
    · exact ⟨(hI.queued_final r hr hfin).1, he.completed (hI.queued_final r hr hfin).2⟩
    · rw [List.mem_singleton] at hr
      subst hr
      exact receiptOf_final hfin

/-- A report moves the counter and the SoftDevice's window together. -/
theorem BleInv.reportTx (hI : BleInv sd b) {count : Nat}
    (hcount : count ≤ b.accepted.length - b.reported) (hblk : b.connectionBlocked = false) :
    BleInv sd (reportTx b count) := by
  have hle := hI.reported_le
  have hw := hI.window
  refine { hI with
    reported_le := ?_
    window := ?_
    txPending_eq := ?_ }
  · simp only [SecureDfu.reportTx]
    omega
  · simp only [SecureDfu.reportTx]
    omega
  · intro _ hst
    have := hI.txPending_eq hblk hst
    simp only [SecureDfu.reportTx]
    rw [if_pos (by omega)]
    omega

theorem BleInv.onTxComplete (hI : BleInv sd b) {count : Nat} (closeOk activateOk : Bool)
    (hcount : count ≤ b.accepted.length - b.reported) :
    BleInv sd (onTxComplete b count closeOk activateOk).1 := by
  unfold SecureDfu.onTxComplete
  by_cases hblk : b.connectionBlocked = true
  · rw [if_pos hblk]
    refine { hI with
      reported_le := ?_
      window := ?_
      txPending_eq := fun h => absurd hblk (by simpa using h) }
    · have := hI.reported_le
      simp only
      omega
    · have := hI.window
      simp only
      omega
  · rw [if_neg hblk]
    have hrep := hI.reportTx hcount (by simpa using hblk)
    unfold afterReport
    split
    · split
      · exact { hrep with stale_unsent := fun _ => rfl, sent_final := fun h => by cases h }
      · exact { hrep with stale_unsent := fun _ => rfl, sent_final := fun h => by cases h }
    · exact hrep

theorem BleInv.onWrite (hI : BleInv sd b) (w : GattWrite) (h : Hooks) (disconnectOk : Bool) :
    BleInv sd (onWrite cfg b w h disconnectOk).1 := by
  unfold SecureDfu.onWrite
  split
  · exact hI
  split
  · exact { hI with }
  split
  · exact hI
  split
  · exact hI
  split
  · exact hI
  split
  · exact { hI with txPending_eq := fun h => by cases h }
  · rename_i hq
    exact hI.consume h w hq

/-- A link event starts from an empty account. -/
theorem bleInv_cleared (b : Ble) (link blk : Bool) (ses : Session) (conn : Nat) :
    BleInv sd { clearReceipts b with
      linked := link, connectionBlocked := blk, session := ses, conn := conn, accepted := [],
      reported := 0, stale := false } where
  reported_le := Nat.le_refl _
  window := Nat.zero_le _
  txPending_eq _ _ := rfl
  stale_unsent h := by cases h
  queued_final r hr := by simp [clearReceipts] at hr
  sent_final h := by cases h

theorem BleInv.handleEvent (hI : BleInv sd b) {e : BleEvent} (henv : env b e = true) :
    BleInv sd (handleEvent cfg b e).1 := by
  cases e with
  | connected => exact bleInv_cleared b true false _ _
  | disconnected => exact bleInv_cleared b false true b.session b.conn
  | txComplete count closeOk activateOk =>
    exact hI.onTxComplete closeOk activateOk (by simpa [env] using henv)
  | write w h disconnectOk => exact hI.onWrite w h disconnectOk
  | poll due => exact hI

theorem BleInv.step (hI : BleInv sd b) {e : BleEvent} (henv : env b e = true)
    (hclean : linkClean cfg sd b e = true) : BleInv sd (bleStep cfg sd b e).1 := by
  unfold bleStep
  split
  · exact hI
  · rename_i hh
    simp only
    split
    · rename_i hfl
      refine (hI.handleEvent henv).flushLoop _ ?_
      simpa [linkClean, hh, hfl] using hclean
    · exact hI.handleEvent henv

/-! ## Activation -/

theorem onWrite_out (w : GattWrite) (h : Hooks) (disconnectOk : Bool) :
    .activate ∉ (onWrite cfg b w h disconnectOk).2.1 := by
  unfold onWrite
  repeat' split
  all_goals simp

theorem onTxComplete_activate {count : Nat} {closeOk activateOk : Bool}
    (h : .activate ∈ (onTxComplete b count closeOk activateOk).2.1) :
    b.connectionBlocked = false ∧ b.finalResponseSent = true ∧ b.queue.count = 0 ∧
      (reportTx b count).txPending = 0 ∧ onTxComplete b count closeOk activateOk =
        ({ reportTx b count with finalResponseSent := false, halted := !activateOk },
          [.activate], false) := by
  unfold onTxComplete at h ⊢
  split at h
  · cases h
  rename_i hblk
  rw [if_neg hblk]
  unfold afterReport at h ⊢
  split at h
  · rename_i hfin
    split at h
    · rename_i hclose
      refine ⟨by simpa using hblk, hfin.1, hfin.2.1, hfin.2.2, ?_⟩
      rw [if_pos hfin, if_pos hclose]
    · cases h
  · cases h

/-- The only caller of `dfu_image_activate`. -/
theorem activate_inv {e : BleEvent} (h : .activate ∈ (bleStep cfg sd b e).2) :
    ∃ count closeOk activateOk, e = .txComplete count closeOk activateOk ∧
      b.connectionBlocked = false ∧ b.finalResponseSent = true ∧ b.queue.count = 0 ∧
      (reportTx b count).txPending = 0 ∧ (bleStep cfg sd b e).1 =
        { reportTx b count with finalResponseSent := false, halted := !activateOk } := by
  unfold bleStep at h ⊢
  split at h
  · cases h
  rename_i hh
  rw [if_neg hh]
  cases e with
  | connected => cases h
  | disconnected => cases h
  | poll due => cases h
  | write w hk disconnectOk => exact absurd h (onWrite_out w hk disconnectOk)
  | txComplete count closeOk activateOk =>
    obtain ⟨hblk, hfin, hq, htx, heq⟩ := onTxComplete_activate h
    refine ⟨count, closeOk, activateOk, rfl, hblk, hfin, hq, htx, ?_⟩
    simp only [handleEvent, heq]
    rfl

theorem BleInv.activationDue (hI : BleInv sd b) {e : BleEvent} (henv : env b e = true)
    (h : .activate ∈ (bleStep cfg sd b e).2) : ActivationDue (bleStep cfg sd b e).1 := by
  obtain ⟨count, closeOk, activateOk, rfl, hblk, hfin, hq, htx, heq⟩ := activate_inv h
  have hst : b.stale = false := by
    by_contra hst
    rw [hI.stale_unsent (by simpa using hst)] at hfin
    cases hfin
  -- the counter is the SoftDevice's window, so its zero means all was reported
  have hall : b.accepted.length ≤ b.reported + count := by
    have h1 := hI.txPending_eq hblk hst
    simp only [env, decide_eq_true_eq] at henv
    simp only [SecureDfu.reportTx] at htx
    rw [if_pos (by omega)] at htx
    omega
  obtain ⟨⟨r, hr, hfe⟩, hc⟩ := hI.sent_final hfin
  rw [heq]
  refine ⟨hc, ⟨r, ?_, hfe⟩, Ring.toList_eq_nil.mpr hq⟩
  simp only [SecureDfu.reportTx]
  rw [List.take_of_length_le hall]
  exact hr

/-! ## Consumed writes -/

/-- A write the session consumes had room for its response, which is queued if
there is one; any other write leaves the session alone. -/
def Answered (cfg : Platform) (b : Ble) (w : GattWrite) (h : Hooks) (r : Ble × List Out × Bool) :
    Prop :=
  (.session ∈ r.2.1 → b.queue.count < 8 ∧ r.1.session = (sessionAnswer cfg h w b).1 ∧
    ((sessionAnswer cfg h w b).2.1 = [] ∨
      r.1.queue.toList = b.queue.toList ++ [receiptOf w b.conn (sessionAnswer cfg h w b)])) ∧
  (.session ∉ r.2.1 → r.1.session = b.session ∧ r.2.1 = [])

theorem onWrite_answered (w : GattWrite) (h : Hooks) (disconnectOk : Bool) :
    Answered cfg b w h (onWrite cfg b w h disconnectOk) := by
  have idle : ∀ b' fl, b'.session = b.session → Answered cfg b w h (b', [], fl) := by
    intro b' fl hs
    exact ⟨fun hm => absurd hm List.not_mem_nil, fun _ => ⟨hs, rfl⟩⟩
  unfold onWrite
  split
  · exact idle _ _ rfl
  split
  · exact idle _ _ rfl
  split
  · exact idle _ _ rfl
  split
  · exact idle _ _ rfl
  split
  · exact idle _ _ rfl
  split
  · exact idle _ _ rfl
  rename_i hq
  have hroom : b.queue.count < 8 := by
    have := b.queue.count_le
    omega
  refine ⟨fun _ => ⟨hroom, rfl, ?_⟩, fun hm => absurd List.mem_cons_self hm⟩
  by_cases hresp : (sessionAnswer cfg h w b).2.1 = []
  · exact .inl hresp
  · refine .inr ?_
    simp only [consume, hresp, if_false]
    exact Ring.toList_push hroom _

/-! ## Every run -/

def bleNext (cfg : Platform) (sd : SoftDevice) (b : Ble) (e : BleEvent) : Ble :=
  (bleStep cfg sd b e).1

theorem bleInv_reach {es : List BleEvent}
    (hrun : Reach (bleNext cfg sd) (fun b e => env b e = true ∧ linkClean cfg sd b e = true)
      secureDfuBleInit es b) : BleInv sd b :=
  hrun.invariant (bleInv_init sd) fun _ _ hI hok => hI.step hok.1 hok.2

/-- Over any run whose link stays clean, the image is activated only after its
final receipt; and every consumed write has its response queued. -/
theorem secureDfuBle_activate_after_receipt {es : List BleEvent} {e : BleEvent}
    (hrun : Reach (bleNext cfg sd) (fun b e => env b e = true ∧ linkClean cfg sd b e = true)
      secureDfuBleInit es b) (henv : env b e = true) :
    (.activate ∈ (bleStep cfg sd b e).2 → ActivationDue (bleStep cfg sd b e).1) ∧
      ∀ w h disconnectOk, e = .write w h disconnectOk →
        Answered cfg b w h (handleEvent cfg b e) := by
  refine ⟨(bleInv_reach hrun).activationDue henv, ?_⟩
  rintro w h disconnectOk rfl
  exact onWrite_answered w h disconnectOk

/-! ## A run over two connections -/

/-- A build with room for 64 bytes. -/
def smallPlatform : Platform := ⟨64, 0x0100, 52, by decide⟩

/-- The SoftDevice answers `timeout` to call `lost` and accepts all others. -/
def timeoutAt (lost : Nat) : SoftDevice :=
  ⟨fun n => if n = lost then .timeout else .success, 4, by decide⟩

/-- An init packet for eight bytes: version 52, SoftDevice 0x0100, a SHA-256. -/
def smallCommand : List Byte :=
  [10, 49, 8, 1, 18, 45, 0x10, 52, 0x18, 0x80, 0x02, 0x38, 8, 0x42, 36, 8, 3, 0x12, 0x20] ++
    List.replicate 32 0

def allOk : Hooks := ⟨true, true, true⟩

def ctrl (data : List Byte) : BleEvent := .write { handle := .control, data } allOk true

def subscribe : BleEvent := .write { handle := .cccd, data := [1, 0] } allOk true

def pkt (data : List Byte) : BleEvent :=
  .write { handle := .packet, op := .writeCmd, data } allOk true

/-- Connect, send the command object and execute it, create the data object. -/
def openSession : List BleEvent :=
  [.connected, subscribe, ctrl [1, 1, 51, 0, 0, 0], pkt smallCommand, ctrl [4],
    ctrl [1, 2, 8, 0, 0, 0]]

/-- Send the data object and execute it. -/
def sendObject : List BleEvent := [pkt (List.replicate 8 0xFF), ctrl [4]]

/-- The state after a run from power-up. -/
def bleRun (sd : SoftDevice) (es : List BleEvent) : Ble :=
  es.foldl (bleNext smallPlatform sd) secureDfuBleInit

/-- The third receipt meets a timeout; the peer connects again and goes through the session. -/
def reconnectRun : List BleEvent := openSession ++ [.disconnected] ++ openSession ++ sendObject

/-- With all four receipts of the second connection reported, the image is activated. -/
theorem secureDfuBle_activate_reconnectRun :
    .activate ∈ (bleStep smallPlatform (timeoutAt 2) (bleRun (timeoutAt 2) reconnectRun)
        (.txComplete 4 true true)).2 ∧
      ActivationDue (bleStep smallPlatform (timeoutAt 2) (bleRun (timeoutAt 2) reconnectRun)
        (.txComplete 4 true true)).1 := by
  have hact : .activate ∈ (bleStep smallPlatform (timeoutAt 2)
      (bleRun (timeoutAt 2) reconnectRun) (.txComplete 4 true true)).2 := by decide +kernel
  have hrun : Reach (bleNext smallPlatform (timeoutAt 2))
      (fun b e => env b e = true ∧ linkClean smallPlatform (timeoutAt 2) b e = true)
      secureDfuBleInit reconnectRun (bleRun (timeoutAt 2) reconnectRun) :=
    .of_allowed (fun b e => env b e && linkClean smallPlatform (timeoutAt 2) b e)
      (fun _ _ h => Bool.and_eq_true_iff.mp h) (by decide +kernel)
  exact ⟨hact, (secureDfuBle_activate_after_receipt hrun (by decide +kernel)).1 hact⟩

end OtaFix.SecureDfu

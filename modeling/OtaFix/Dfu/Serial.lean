import OtaFix.Dfu.SingleBank

/-!
# What the serial transport commits

The image is written through the page cache into an erased bank. `Receiving` says
that the bytes seen through the cache are those received so far and that the rest
of the bank is blank; the packet that completes the image also flushes it, so a
STOP that commits finds exactly the received bytes in flash.
-/

namespace OtaFix

open Lib

/-! ## Logs -/

/-- The entries from `n` to `n'`, all of them `P`. -/
def Logs (P : Act → Prop) (n n' : Nvm) : Prop := ∃ acts, n'.log = n.log ++ acts ∧ ∀ a ∈ acts, P a

variable {P Q : Act → Prop} {n n' n'' : Nvm}

theorem Logs.refl (P : Act → Prop) {n n' : Nvm} (h : n'.log = n.log) : Logs P n n' :=
  ⟨[], by rw [h, List.append_nil], fun a ha => by cases ha⟩

theorem Logs.trans (h1 : Logs P n n') (h2 : Logs P n' n'') : Logs P n n'' := by
  obtain ⟨a1, e1, p1⟩ := h1
  obtain ⟨a2, e2, p2⟩ := h2
  refine ⟨a1 ++ a2, by rw [e2, e1, List.append_assoc], fun a ha => ?_⟩
  rcases List.mem_append.mp ha with ha | ha
  · exact p1 a ha
  · exact p2 a ha

theorem Logs.imp (h : Logs P n n') (himp : ∀ a, P a → Q a) : Logs Q n n' := by
  obtain ⟨acts, e, p⟩ := h
  exact ⟨acts, e, fun a ha => himp a (p a ha)⟩

/-- An entry that neither commits a record nor copies a bootloader. -/
def Quiet : Act → Prop
  | .committed _ => False
  | .copyBl => False
  | _ => True

theorem Logs.run (n : Nvm) (ops : List FlashOp) (c : FlashCache) :
    Logs Quiet n { n.run ops with cache := c } := by
  refine ⟨ops.map .op, rfl, fun a ha => ?_⟩
  obtain ⟨o, -, rfl⟩ := List.mem_map.mp ha
  trivial

/-- Saving a record commits at most that record. -/
theorem Logs.saveSettings (n : Nvm) (t : Transport) (s : Settings) :
    Logs (fun a => Quiet a ∨ a = .committed t ∧ s.bank0 = bankValidApp) n (n.saveSettings t s) := by
  have hrun := (Logs.run n (bootloaderSettingsSave s) n.cache).imp fun a ha =>
    (Or.inl ha : Quiet a ∨ a = .committed t ∧ s.bank0 = bankValidApp)
  unfold Nvm.saveSettings
  simp only
  split
  · rename_i hv
    exact hrun.trans ⟨[.committed t], rfl, fun a ha => .inr ⟨List.mem_singleton.mp ha, hv⟩⟩
  · exact hrun

theorem saveSettings_mem (n : Nvm) (t : Transport) (s : Settings) :
    (n.saveSettings t s).mem = replay (bootloaderSettingsSave s) n.mem ∧
      (n.saveSettings t s).cache = n.cache := by
  unfold Nvm.saveSettings
  simp only
  split <;> simp

/-! ## Receiving -/

/-- The bank holds the bytes received so far, seen through the cache, and blanks. -/
structure Received (d : Dfu) (n : Nvm) (received : List Byte) : Prop where
  length_le : received.length ≤ d.imageSize
  cache : CacheOk n.cache n.mem
  seen : ∀ x, d.blockId ≤ x → x < d.blockId + d.imageSize →
    view n.cache n.mem x = received.getD (x - d.blockId) 0xFF
  blank : ∀ x, d.blockId + received.length ≤ x → x < d.blockId + d.imageSize → n.mem x = 0xFF
  apart : ∀ x, userFlashEnd ≤ x → view n.cache n.mem x = n.mem x
  marker : (readSettings n.mem).bank0 = bankInvalidApp

/-- A complete image is also flushed. -/
structure Receiving (d : Dfu) (n : Nvm) (received : List Byte) : Prop extends
    Received d n received where
  flushed : received.length = d.imageSize → n.cache.addr = none

theorem Receiving.slice_eq {d : Dfu} {received : List Byte} (h : Receiving d n received)
    (hfull : received.length = d.imageSize) : slice n.mem d.blockId d.imageSize = received := by
  have hc := h.flushed hfull
  refine List.ext_getElem? fun i => ?_
  by_cases hi : i < d.imageSize
  · have hx := h.seen (d.blockId + i) (by omega) (by omega)
    rw [view_none hc, Nat.add_sub_cancel_left] at hx
    rw [slice_getElem? hi, hx, List.getD_eq_getElem?_getD,
      List.getElem?_eq_getElem (by omega), Option.getD_some]
  · rw [List.getElem?_eq_none (by simpa using hi), List.getElem?_eq_none (by omega)]

/-! ## The invariant -/

/-- The bank is erased for the image. -/
def Prepared (cfg : DfuConfig) (s : DfuState) : Prop :=
  s = .rxDataPkt ∨ (cfg.signedFw = false ∧ (s = .rdy ∨ s = .rxInitPkt))

/-- A signed build has taken START and waits for its INIT. -/
def Awaiting (cfg : DfuConfig) (s : DfuState) : Prop :=
  cfg.signedFw = true ∧ (s = .rdy ∨ s = .rxInitPkt)

structure SerialInv (cfg : DfuConfig) (d : Dfu) (n : Nvm) (received : List Byte) : Prop where
  sized : d.state ≠ .idle → dfuStartPacketValidate d.startPacket = .ok d.imageSize ∧
    d.blockId + d.imageSize ≤ userFlashEnd
  early : d.state = .idle ∨ Awaiting cfg d.state → d.dataReceived = 0 ∧ received = []
  awaiting : Awaiting cfg d.state → n.cache.addr = none
  receiving : Prepared cfg d.state → Receiving d n received ∧
    (d.dataReceived = received.length ∨ d.dataReceived = 0xFFFFFFFF)

/-- The boundary is the bank address of `dfu_init`, and one of user flash. -/
def Stable (d : Dfu) (m : Mem) : Prop := dfuBank0RegionStart m = d.blockId ∧ boundaryOk m = true

variable {cfg : DfuConfig} {d : Dfu} {received : List Byte}

/-- The record that marks the bank erased. -/
def erasedSettings (current : Settings) : Settings where
  bank0 := bankInvalidApp
  bank1 := if current.integrityValid then current.bank1 else bankInvalidApp

theorem erasedSettings_fits (s : Settings) : (erasedSettings s).Fits :=
  ⟨Nat.two_pow_pos 32, Nat.two_pow_pos 32, Nat.two_pow_pos 32, Nat.two_pow_pos 32,
    Nat.two_pow_pos 32⟩

theorem saveSettings_below (st : Settings) {x : Nat} (hx : x < userFlashEnd) (m : Mem) :
    replay (bootloaderSettingsSave st) m x = m x := by
  refine replay_spares (bootloaderSettingsSave_spares st ?_) m
  have he : userFlashEnd = 0xEA000 := rfl
  have hs : bootloaderSettingsAddress = 0xFF000 := rfl
  omega

theorem serialPrepare_eq (cfg : DfuConfig) (d : Dfu) (n : Nvm) :
    serialPrepare cfg d n = ({ d with state := if cfg.signedFw then .rxDataPkt else .rdy },
      (n.run (flashNrf5xErase (dfuBank0RegionStart n.mem) d.imageSize)).saveSettings .serial
        (erasedSettings (readSettings
          (n.run (flashNrf5xErase (dfuBank0RegionStart n.mem) d.imageSize)).mem))) := rfl

/-- The prepared bank is blank, its record marked invalid, and nothing is committed. -/
theorem serialPrepare_receiving (cfg : DfuConfig) (hs : Stable d n.mem) (hc : n.cache.addr = none)
    (hend : d.blockId + d.imageSize ≤ userFlashEnd) :
    Receiving (serialPrepare cfg d n).1 (serialPrepare cfg d n).2 [] ∧
      Logs Quiet n (serialPrepare cfg d n).2 := by
  obtain ⟨hbase, hb⟩ := hs
  have hal := boundaryOk_aligned hb
  rw [serialPrepare_eq, hbase]
  rw [hbase] at hal
  generalize hst : erasedSettings (readSettings
    (n.run (flashNrf5xErase d.blockId d.imageSize)).mem) = st
  have hinv : st.bank0 = bankInvalidApp := by rw [← hst]; rfl
  obtain ⟨hmem, hcache⟩ := saveSettings_mem (n.run (flashNrf5xErase d.blockId d.imageSize))
    .serial st
  have hnone : ((n.run (flashNrf5xErase d.blockId d.imageSize)).saveSettings .serial
      st).cache.addr = none := by rw [hcache]; exact hc
  have hblank : ∀ x, d.blockId ≤ x → x < d.blockId + d.imageSize →
      ((n.run (flashNrf5xErase d.blockId d.imageSize)).saveSettings .serial st).mem x = 0xFF := by
    intro x h1 h2
    rw [hmem, saveSettings_below st (by omega)]
    exact replay_flashNrf5xErase hal h1 h2
  refine ⟨⟨⟨Nat.zero_le _, .none hnone, fun x h1 h2 => ?_, fun x h1 h2 => ?_, fun x _ => ?_, ?_⟩,
    fun _ => hnone⟩, ?_⟩
  · rw [view_none hnone]
    exact hblank x h1 h2
  · exact hblank x h1 h2
  · exact view_none hnone x
  · rw [hmem, replay_bootloaderSettingsSave (by rw [← hst]; exact erasedSettings_fits _)]
    exact hinv
  · refine Logs.trans (Logs.run n (flashNrf5xErase d.blockId d.imageSize) n.cache)
      ((Logs.saveSettings _ .serial st).imp ?_)
    rintro a (ha | ⟨-, hv⟩)
    · exact ha
    · rw [hinv] at hv
      exact absurd hv (by decide)

/-! ## START and INIT -/

theorem SerialInv.idle (hstate : d.state = .idle) (hd : d.dataReceived = 0) :
    SerialInv cfg d n [] where
  sized := fun h => absurd hstate h
  early := fun _ => ⟨hd, rfl⟩
  awaiting := by
    rintro ⟨-, h | h⟩ <;> rw [hstate] at h <;> cases h
  receiving := by
    rintro (h | ⟨-, h | h⟩) <;> rw [hstate] at h <;> cases h

/-- START fails and stays in its state, or is admitted from the idle state. -/
theorem dfuStartAdmit_cases (p : StartPacket) (m : Mem) (d : Dfu) :
    ((dfuStartAdmit p m d).1 ≠ .success ∧ (d.state ≠ .idle → (dfuStartAdmit p m d).2 = d) ∧
      (dfuStartAdmit p m d).2.state = d.state ∧
      (dfuStartAdmit p m d).2.dataReceived = d.dataReceived ∧
      (dfuStartAdmit p m d).2.blockId = d.blockId) ∨
    ((dfuStartAdmit p m d).1 = .success ∧ d.state = .idle ∧ ∃ size,
      dfuStartPacketValidate p = .ok size ∧ size ≤ dfuImageMaxSizeFull m ∧
      (dfuStartAdmit p m d).2 = { d with startPacket := p, imageSize := size }) := by
  unfold dfuStartAdmit
  by_cases hstate : d.state = .idle
  · rw [if_neg (not_not.mpr hstate)]
    simp only
    cases hp : dfuStartPacketValidate p with
    | error e =>
      refine .inl ⟨?_, fun h => absurd hstate h, rfl, rfl, rfl⟩
      rintro rfl
      unfold dfuStartPacketValidate at hp
      split_ifs at hp <;> cases hp
    | ok size =>
      simp only
      split_ifs with h1 h2
      · exact .inl ⟨by simp, fun h => absurd hstate h, rfl, rfl, rfl⟩
      · exact .inl ⟨by simp, fun h => absurd hstate h, rfl, rfl, rfl⟩
      · exact .inr ⟨rfl, hstate, size, rfl, Nat.le_of_not_lt h1, rfl⟩
  · rw [if_pos hstate]
    exact .inl ⟨by simp, fun _ => rfl, rfl, rfl, rfl⟩

/-- An admitted size ends inside user flash. -/
theorem Stable.end_le (hs : Stable d n.mem) {size : Nat} (h : size ≤ dfuImageMaxSizeFull n.mem) :
    d.blockId + size ≤ userFlashEnd := by
  obtain ⟨hbase, hb⟩ := hs
  have hle := boundaryOk_le hb
  have he : userFlashEnd = 0xEA000 := rfl
  have hr : bootloaderRegionStart = 0xF4000 := rfl
  have ha : dfuAppDataReserved = 0xA000 := rfl
  unfold dfuImageMaxSizeFull at h
  have hsub : sub32 bootloaderRegionStart (dfuBank0RegionStart n.mem) =
      bootloaderRegionStart - dfuBank0RegionStart n.mem := sub32_eq (by omega) (by omega)
  rw [hsub, sub32_eq (by omega) (by omega)] at h
  omega

theorem serialPrepare_inv (hs : Stable d n.mem) (hc : n.cache.addr = none)
    (hp : dfuStartPacketValidate d.startPacket = .ok d.imageSize)
    (hend : d.blockId + d.imageSize ≤ userFlashEnd) (hd : d.dataReceived = 0) :
    SerialInv cfg (serialPrepare cfg d n).1 (serialPrepare cfg d n).2 [] ∧
      Logs Quiet n (serialPrepare cfg d n).2 := by
  obtain ⟨hrecv, hlogs⟩ := serialPrepare_receiving cfg hs hc hend
  refine ⟨⟨fun _ => ⟨hp, hend⟩, fun _ => ⟨hd, rfl⟩, fun h => ?_, fun _ => ⟨hrecv, .inl hd⟩⟩, hlogs⟩
  rw [serialPrepare_eq] at h
  obtain ⟨hsigned, h⟩ := h
  simp [hsigned] at h

theorem SerialInv.start (hI : SerialInv cfg d n received) (hs : Stable d n.mem)
    (hc : d.state = .idle → n.cache.addr = none) (p : StartPacket) :
    SerialInv cfg (serialStart cfg p d n).1 (serialStart cfg p d n).2 received ∧
      Logs Quiet n (serialStart cfg p d n).2 := by
  unfold serialStart
  rcases dfuStartAdmit_cases p n.mem d with
    ⟨hr, hsame, hstate, hdata, -⟩ | ⟨hr, hidle, size, hp, hle, heq⟩
  · simp only [hr, ne_eq, not_false_eq_true, if_true]
    refine ⟨?_, .refl _ rfl⟩
    by_cases hidle : d.state = .idle
    · obtain ⟨h0, rfl⟩ := hI.early (.inl hidle)
      exact .idle (hstate.trans hidle) (hdata.trans h0)
    · rw [hsame hidle]
      exact hI
  · obtain ⟨h0, rfl⟩ := hI.early (.inl hidle)
    simp only [hr, heq, ne_eq, not_true_eq_false, if_false]
    have hend := hs.end_le hle
    cases hsigned : cfg.signedFw with
    | true =>
      simp only [if_true]
      refine ⟨⟨fun _ => ⟨hp, hend⟩, fun _ => ⟨h0, rfl⟩, fun _ => hc hidle, ?_⟩, .refl _ rfl⟩
      rintro (h | ⟨h, -⟩)
      · cases h
      · rw [hsigned] at h
        cases h
    | false =>
      simp only [Bool.false_eq_true, if_false]
      exact serialPrepare_inv hs (hc hidle) hp hend h0

/-- A packet that changes neither the image nor the phase keeps the invariant. -/
theorem SerialInv.moved (hI : SerialInv cfg d n received) {d' : Dfu}
    (hbank : d'.blockId = d.blockId) (hsize : d'.imageSize = d.imageSize)
    (hpkt : d'.startPacket = d.startPacket) (hdata : d'.dataReceived = d.dataReceived)
    (hidle : d'.state = .idle ↔ d.state = .idle)
    (haw : Awaiting cfg d'.state → Awaiting cfg d.state)
    (hprep : Prepared cfg d'.state → Prepared cfg d.state) : SerialInv cfg d' n received where
  sized := by
    rw [hbank, hsize, hpkt]
    exact fun h => hI.sized fun h' => h (hidle.mpr h')
  early := by
    rw [hdata]
    exact fun h => hI.early (h.imp hidle.mp haw)
  awaiting := fun h => hI.awaiting (haw h)
  receiving := by
    intro h
    obtain ⟨hr, hd⟩ := hI.receiving (hprep h)
    rw [hdata]
    refine ⟨⟨⟨?_, hr.cache, ?_, ?_, hr.apart, hr.marker⟩, ?_⟩, hd⟩ <;> rw [hsize]
    · exact hr.length_le
    · rw [hbank]; exact hr.seen
    · rw [hbank]; exact hr.blank
    · exact hr.flushed

/-- INIT data is refused in place, or refused or stored in the INIT state. -/
theorem dfuInitPktHandle_cases (data : WordData) (d : Dfu) :
    ((dfuInitPktHandle data d).1 ≠ .success ∧ (dfuInitPktHandle data d).2 = d) ∨
    ((d.state = .rdy ∨ d.state = .rxInitPkt) ∧ ∃ packet,
      (dfuInitPktHandle data d).2 = { d with state := .rxInitPkt, initPacket := packet }) := by
  unfold dfuInitPktHandle
  by_cases h : d.state ≠ .rdy ∧ d.state ≠ .rxInitPkt
  · rw [if_pos h]
    exact .inl ⟨by simp, rfl⟩
  · rw [if_neg h]
    rw [not_and_or, not_not, not_not] at h
    refine .inr ⟨h, ?_⟩
    simp only
    split_ifs <;> exact ⟨_, rfl⟩

/-- The check of the INIT packet touches only the packets. -/
theorem dfuInitAdmit_cases (cfg : DfuConfig) (m : Mem) (d : Dfu) :
    ∃ ext packet, (dfuInitAdmit cfg m d).2 = { d with extendedPacket := ext, initPacket := packet } ∧
      ((dfuInitAdmit cfg m d).1 = .success → d.dataReceived = 0) := by
  unfold dfuInitAdmit
  split_ifs with h0 h1
  · exact ⟨_, _, rfl, fun h => by cases h⟩
  · exact ⟨_, _, rfl, fun h => by cases h⟩
  · simp only
    split_ifs with h2
    · exact ⟨_, _, rfl, fun _ => by omega⟩
    · exact ⟨_, _, rfl, fun _ => by omega⟩

theorem SerialInv.init (hI : SerialInv cfg d n received) (hs : Stable d n.mem)
    (data : WordData) :
    SerialInv cfg (serialInit cfg data d n).1 (serialInit cfg data d n).2 received ∧
      Logs Quiet n (serialInit cfg data d n).2 := by
  unfold serialInit
  rcases dfuInitPktHandle_cases data d with ⟨hr, heq⟩ | ⟨hst, packet, heq⟩
  · simp only [hr, heq, ne_eq, not_false_eq_true, if_true]
    exact ⟨hI, .refl _ rfl⟩
  have hne : d.state ≠ .idle := by rcases hst with h | h <;> rw [h] <;> decide
  -- the INIT state counts as the state it came from
  have hphase : ∀ ext packet, SerialInv cfg
      { d with state := .rxInitPkt, extendedPacket := ext, initPacket := packet } n received := by
    intro ext packet
    refine hI.moved rfl rfl rfl rfl ⟨fun h => (by cases h), fun h => absurd h hne⟩ ?_ ?_
    · exact fun h => ⟨h.1, hst⟩
    · rintro (h | ⟨h, -⟩)
      · cases h
      · exact .inr ⟨h, hst⟩
  obtain ⟨ext, packet', hcheck, hzero⟩ :=
    dfuInitAdmit_cases cfg n.mem { d with state := .rxInitPkt, initPacket := packet }
  simp only [heq]
  split_ifs with h1 h2 hsigned
  · exact ⟨hphase _ _, .refl _ rfl⟩
  · rw [hcheck]
    exact ⟨hphase _ _, .refl _ rfl⟩
  · rw [hcheck]
    have haw : Awaiting cfg d.state := ⟨hsigned, hst⟩
    obtain ⟨hp, hend⟩ := hI.sized hne
    obtain ⟨h0, rfl⟩ := hI.early (.inr haw)
    exact serialPrepare_inv hs (hI.awaiting haw) hp hend h0
  · rw [hcheck]
    have hprep : Prepared cfg d.state := .inr ⟨by simpa using hsigned, hst⟩
    refine ⟨hI.moved rfl rfl rfl rfl ⟨fun h => (by cases h), fun h => absurd h hne⟩ ?_
      fun _ => hprep, .refl _ rfl⟩
    rintro ⟨-, h | h⟩ <;> cases h

/-! ## DATA -/

/-- DATA is refused, with the count left or spoilt, or fits the rest of the image. -/
theorem dfuDataAdmit_cases (data : WordData) (d : Dfu) :
    ((dfuDataAdmit data d).1 ≠ .success ∧ ((dfuDataAdmit data d).2 = d ∨
      d.state = .rxDataPkt ∧ (dfuDataAdmit data d).2 = { d with dataReceived := 0xFFFFFFFF })) ∨
    ((dfuDataAdmit data d).1 = .success ∧ (dfuDataAdmit data d).2 = d ∧ d.state = .rxDataPkt ∧
      d.dataReceived + data.bytes.length ≤ d.imageSize) := by
  unfold dfuDataAdmit
  by_cases hst : d.state = .rxDataPkt
  · rw [if_neg (not_not.mpr hst)]
    by_cases hsz : d.imageSize < d.dataReceived ∨
        (d.imageSize - d.dataReceived) / 4 < data.bytes.length / 4
    · rw [if_pos hsz]
      exact .inl ⟨by simp, .inr ⟨hst, rfl⟩⟩
    rw [if_neg hsz]
    by_cases ht : d.timedOut
    · rw [if_pos ht]
      exact .inl ⟨by simp, .inl rfl⟩
    · rw [if_neg ht]
      have hw := data.words
      exact .inr ⟨rfl, rfl, hst, by omega⟩
  · rw [if_pos hst]
    exact .inl ⟨by simp, .inl rfl⟩

/-- A packet written behind the bytes received so far. -/
theorem Received.write {c' : FlashCache} {ops : List FlashOp} {bytes : List Byte}
    (h : Received d n received) (hend : d.blockId + d.imageSize ≤ userFlashEnd)
    (hlen : received.length + bytes.length ≤ d.imageSize)
    (hw : Wrote n.cache n.mem (d.blockId + received.length) bytes c' (replay ops n.mem)) :
    Received d { n.run ops with cache := c' } (received ++ bytes) := by
  -- what is neither written nor in the bank stays
  have hkeep : ∀ x, userFlashEnd ≤ x → replay ops n.mem x = n.mem x := by
    intro x hx
    rcases hw.mem_eq x (.inr (by omega)) with h' | h'
    · exact h'
    · rw [h', h.apart x hx]
  refine ⟨by rw [List.length_append]; exact hlen, hw.ok, fun x h1 h2 => ?_, fun x h1 h2 => ?_,
    fun x hx => ?_, ?_⟩
  · simp only [Nvm.run_mem]
    rw [hw.view_eq]
    by_cases hx : d.blockId + received.length ≤ x ∧ x < d.blockId + received.length + bytes.length
    · rw [if_pos hx, List.getD_eq_getElem?_getD, List.getD_eq_getElem?_getD,
        List.getElem?_append_right (by omega), Nat.sub_add_eq, List.getElem?_eq_getElem (by omega)]
      rfl
    · rw [if_neg hx, h.seen x h1 h2, List.getD_eq_getElem?_getD, List.getD_eq_getElem?_getD]
      by_cases hlow : x < d.blockId + received.length
      · rw [List.getElem?_append_left (by omega)]
      · rw [List.getElem?_eq_none (by omega),
          List.getElem?_eq_none (by rw [List.length_append]; omega)]
  · rw [List.length_append] at h1
    have hblank := h.blank x (by omega) h2
    simp only [Nvm.run_mem]
    rcases hw.mem_eq x (.inr (by omega)) with h' | h'
    · rw [h', hblank]
    · rw [h', h.seen x (by omega) h2, List.getD_eq_getElem?_getD,
        List.getElem?_eq_none (by omega)]
      rfl
  · simp only [Nvm.run_mem]
    rw [hw.view_eq, if_neg (by omega), h.apart x hx, hkeep x hx]
  · rw [← h.marker]
    simp only [Nvm.run_mem, readSettings]
    refine readHalf_congr fun x h1 _ => hkeep x ?_
    have he : userFlashEnd = 0xEA000 := rfl
    have hs : bootloaderSettingsAddress = 0xFF000 := rfl
    omega

theorem Received.flush (h : Received d n received) :
    Received d { n.run (flashNrf5xFlush n.cache n.mem false).2 with
      cache := (flashNrf5xFlush n.cache n.mem false).1 } received ∧
      (flashNrf5xFlush n.cache n.mem false).1.addr = none := by
  have hnone := flush_addr n.cache n.mem false
  have hmem := replay_flush h.cache
  generalize flashNrf5xFlush n.cache n.mem false = f at hnone hmem
  refine ⟨⟨h.length_le, .none hnone, fun x h1 h2 => ?_, fun x h1 h2 => ?_, fun x _ => ?_, ?_⟩,
    hnone⟩
  · simp only [Nvm.run_mem]
    rw [view_none hnone, hmem, h.seen x h1 h2]
  · simp only [Nvm.run_mem]
    rw [hmem, h.seen x (by omega) h2, List.getD_eq_getElem?_getD,
      List.getElem?_eq_none (by omega)]
    rfl
  · exact view_none hnone x
  · rw [← h.marker]
    simp only [Nvm.run_mem, readSettings]
    refine readHalf_congr fun x h1 _ => (hmem x).trans (h.apart x ?_)
    have he : userFlashEnd = 0xEA000 := rfl
    have hs : bootloaderSettingsAddress = 0xFF000 := rfl
    omega

/-- The bytes of an accepted packet. -/
def acceptedBytes (data : WordData) (d : Dfu) : List Byte :=
  if (dfuDataAdmit data d).1 = .success then data.bytes else []

theorem SerialInv.data (hI : SerialInv cfg d n received) (hs : Stable d n.mem) (data : WordData) :
    SerialInv cfg (serialData data d n).1 (serialData data d n).2
        (received ++ acceptedBytes data d) ∧ Logs Quiet n (serialData data d n).2 := by
  unfold serialData acceptedBytes
  rcases dfuDataAdmit_cases data d with ⟨hr, hsame⟩ | ⟨hr, heq, hst, hle⟩
  · simp only [hr, ne_eq, not_false_eq_true, if_true, if_false, List.append_nil]
    refine ⟨?_, .refl _ rfl⟩
    rcases hsame with h | ⟨hst, h⟩
    · rw [h]
      exact hI
    · -- the packet overruns the image: no later count can match
      rw [h]
      obtain ⟨hrecv, -⟩ := hI.receiving (.inl hst)
      refine ⟨hI.sized, ?_, ?_, fun _ => ⟨⟨⟨hrecv.length_le, hrecv.cache, hrecv.seen, hrecv.blank,
        hrecv.apart, hrecv.marker⟩, hrecv.flushed⟩, .inr rfl⟩⟩
      · simp [Awaiting, hst]
      · simp [Awaiting, hst]
  simp only [hr, heq, ne_eq, not_true_eq_false, if_false, if_true]
  obtain ⟨hpkt, hend⟩ := hI.sized (by rw [hst]; decide)
  obtain ⟨hrecv, hcount⟩ := hI.receiving (.inl hst)
  have he : userFlashEnd = 0xEA000 := rfl
  obtain hcount : d.dataReceived = received.length := by omega
  have hw : Wrote n.cache n.mem (d.blockId + received.length) data.bytes
      (flashNrf5xWrite n.cache n.mem (d.blockId + received.length) data.bytes false).1
      (replay (flashNrf5xWrite n.cache n.mem (d.blockId + received.length) data.bytes false).2
        n.mem) := by
    refine flashNrf5xWrite_wrote hrecv.cache fun x h1 h2 => ⟨hrecv.blank x h1 (by omega), ?_⟩
    rw [hrecv.seen x (by omega) (by omega), List.getD_eq_getElem?_getD,
      List.getElem?_eq_none (by omega)]
    rfl
  rw [hs.1, hcount]
  generalize flashNrf5xWrite n.cache n.mem (d.blockId + received.length) data.bytes false = w at hw
  have hwrite := hrecv.toReceived.write hend (by omega) hw
  have hlog := Logs.run n w.2 w.1
  have hsum : add32 d.dataReceived data.bytes.length = (received ++ data.bytes).length := by
    rw [List.length_append, hcount, add32_eq (by omega)]
  have haw : ¬Awaiting cfg d.state := by simp [Awaiting, hst]
  have hinv : ∀ n2, Receiving d n2 (received ++ data.bytes) →
      SerialInv cfg (dfuDataCount data d).2 n2 (received ++ data.bytes) := by
    rintro n2 ⟨⟨r1, r2, r3, r4, r5, r6⟩, r7⟩
    refine ⟨fun _ => ⟨hpkt, hend⟩, ?_, fun h => absurd h haw, fun _ =>
      ⟨⟨⟨r1, r2, r3, r4, r5, r6⟩, r7⟩, .inl hsum⟩⟩
    rintro (h | h)
    · exact absurd (hst.symm.trans h) (by decide)
    · exact absurd h haw
  by_cases hfull : (received ++ data.bytes).length = d.imageSize
  · have hdone : (dfuDataCount data d).1 = .success := by
      simp [dfuDataCount, hsum, hfull]
    simp only [hdone, not_true_eq_false, if_false]
    obtain ⟨hflush, hnone⟩ := hwrite.flush
    exact ⟨hinv _ ⟨hflush, fun _ => hnone⟩, hlog.trans (Logs.run _ _ _)⟩
  · have hmore : (dfuDataCount data d).1 = .invalidLength := by
      simp only [dfuDataCount, hsum, ne_eq, hfull, not_false_eq_true, if_true]
    simp only [hmore, reduceCtorEq, not_false_eq_true, if_true]
    exact ⟨hinv _ ⟨hwrite, fun h => absurd h hfull⟩, hlog⟩

/-! ## STOP -/

/-- VALIDATE leaves its state, fails for good, or accepts the complete image in flash. -/
theorem dfuImageValidate_cases (cfg : DfuConfig) (m : Mem) (d : Dfu) :
    ((dfuImageValidate cfg m d).1 ≠ .success ∧ ((dfuImageValidate cfg m d).2 = d ∨ ∃ crc,
      d.state = .rxDataPkt ∧
        (dfuImageValidate cfg m d).2 = { d with state := .validate, imageCrc := crc })) ∨
    ((dfuImageValidate cfg m d).1 = .success ∧ d.state = .rxDataPkt ∧
      d.dataReceived = d.imageSize ∧ ∃ crc,
        dfuInitPostvalidate cfg (slice m d.blockId d.imageSize) d.extendedPacket = some crc ∧
        (dfuImageValidate cfg m d).2 = { d with state := .wait4Activate, imageCrc := crc }) := by
  unfold dfuImageValidate
  by_cases hst : d.state = .rxDataPkt
  · rw [if_neg (not_not.mpr hst)]
    by_cases hsz : d.dataReceived = d.imageSize
    · rw [if_neg (not_not.mpr hsz)]
      simp only
      by_cases ht : d.timedOut
      · rw [if_pos ht]
        exact .inl ⟨by simp, .inr ⟨_, hst, rfl⟩⟩
      · rw [if_neg ht]
        cases hpost : dfuInitPostvalidate cfg (slice m d.blockId d.imageSize) d.extendedPacket with
        | none => exact .inl ⟨by simp, .inr ⟨_, hst, rfl⟩⟩
        | some crc =>
          simp only
          split_ifs with hpol
          · exact .inl ⟨hpol, .inr ⟨_, hst, rfl⟩⟩
          · exact .inr ⟨rfl, hst, hsz, crc, rfl, rfl⟩
    · rw [if_pos hsz]
      exact .inl ⟨by simp, .inl rfl⟩
  · rw [if_pos hst]
    exact .inl ⟨by simp, .inl rfl⟩

/-- A START packet carries one component, or a SoftDevice with its bootloader. -/
theorem dfuStartPacketValidate_cases {p : StartPacket} {size : Nat}
    (h : dfuStartPacketValidate p = .ok size) :
    p.dfuUpdateMode.testBit 0 = true ∨
      (p.dfuUpdateMode.testBit 0 = false ∧ p.dfuUpdateMode.testBit 1 = true) ∨
      (p.dfuUpdateMode.testBit 0 = false ∧ p.dfuUpdateMode.testBit 1 = false ∧
        p.appImageSize = size) := by
  unfold dfuStartPacketValidate at h
  split at h
  · cases h
  rename_i hmode
  split at h
  · cases h
  obtain rfl := Except.ok.inj h
  simp only [not_or, Nat.not_lt, ne_eq, not_not] at hmode
  obtain ⟨h0, h4, heq, -⟩ := hmode
  rw [heq]
  unfold StartPacket.populatedMode at h0 h4 ⊢
  rw [show dfuUpdateApp = 4 from rfl, show dfuUpdateSd = 1 from rfl,
    show dfuUpdateBl = 2 from rfl] at *
  by_cases hs : p.sdImageSize = 0 <;> by_cases hb : p.blImageSize = 0 <;>
    by_cases ha : p.appImageSize = 0 <;>
    simp [hs, hb, ha, show Nat.testBit 2 1 = true by decide, show Nat.testBit 2 0 = false by decide,
      show Nat.testBit 3 0 = true by decide, show Nat.testBit 4 0 = false by decide,
      show Nat.testBit 4 1 = false by decide] at h0 h4 ⊢

/-- The record of a complete serial application. -/
def serialSettings (d : Dfu) : Settings where
  bank0 := bankValidApp
  bank0Crc := d.imageCrc
  bank1 := bankInvalidApp
  bank0Size := d.imageSize

theorem serialSettings_fits (h : d.imageSize < 2 ^ 32) : (serialSettings d).Fits :=
  ⟨h, Nat.two_pow_pos 32, Nat.two_pow_pos 32, Nat.two_pow_pos 32, Nat.two_pow_pos 32⟩

/-- A committed serial application: the flash from the boundary on holds the bytes that
were received and validated, and the record describes them. -/
structure SerialCommitted (cfg : DfuConfig) (d : Dfu) (n n' : Nvm) (received : List Byte) :
    Prop where
  validated : (dfuImageValidate cfg n.mem d).1 = .success
  image : slice n'.mem (dfuBank0RegionStart n'.mem) received.length = received
  bank0 : (readSettings n'.mem).bank0 = bankValidApp
  size : (readSettings n'.mem).bank0Size = received.length
  crc : (readSettings n'.mem).bank0Crc = crc16 received

theorem SerialInv.ended (hsized : dfuStartPacketValidate d.startPacket = .ok d.imageSize ∧
      d.blockId + d.imageSize ≤ userFlashEnd)
    (hst : d.state = .validate ∨ d.state = .wait4Activate) : SerialInv cfg d n received := by
  refine ⟨fun _ => hsized, ?_, ?_, ?_⟩ <;> rcases hst with h | h <;>
    simp [Awaiting, Prepared, h]

/-- Nothing is committed but an application's record. -/
theorem updateSettings_marker {cur st : Settings} {m : Mem}
    (hp : dfuStartPacketValidate d.startPacket = .ok d.imageSize)
    (hcur : cur.bank0 = bankInvalidApp) (h : updateSettings cur (dfuActivateStatus m d) = some st)
    (hst : st.bank0 = bankValidApp) : st = serialSettings d := by
  unfold dfuActivateStatus at h
  rcases dfuStartPacketValidate_cases hp with h0 | ⟨h0, h1⟩ | ⟨h0, h1, hsize⟩
  · simp only [h0, if_true, updateSettings, Option.some.injEq] at h
    rw [← h] at hst
    exact absurd (show bankValidSd = bankValidApp from hst) (by decide)
  · simp only [h0, h1, Bool.false_eq_true, if_true, if_false, updateSettings,
      Option.some.injEq] at h
    rw [← h] at hst
    simp only at hst
    split at hst
    · rw [hcur] at hst
      exact absurd hst (by decide)
    · exact absurd hst (by decide)
  · simp only [h0, h1, Bool.false_eq_true, if_false, updateSettings, Option.some.injEq] at h
    rw [← h, hsize]
    rfl

theorem SerialInv.stop (hI : SerialInv cfg d n received) (hs : Stable d n.mem) :
    SerialInv cfg (serialStop cfg d n).1 (serialStop cfg d n).2 received ∧
      Logs (fun a => Quiet a ∨ a = .committed .serial ∧
        SerialCommitted cfg d n (serialStop cfg d n).2 received) n (serialStop cfg d n).2 := by
  unfold serialStop
  rcases dfuImageValidate_cases cfg n.mem d with ⟨hr, hsame⟩ | ⟨hr, hst, hcount, crc, hpost, heq⟩
  · simp only [hr, ne_eq, not_false_eq_true, if_true]
    refine ⟨?_, .refl _ rfl⟩
    rcases hsame with h | ⟨crc, hst, h⟩
    · rw [h]
      exact hI
    · rw [h]
      exact .ended (hI.sized (by rw [hst]; decide)) (.inl rfl)
  obtain ⟨hpkt, hend⟩ := hI.sized (by rw [hst]; decide)
  obtain ⟨hrecv, hlen⟩ := hI.receiving (.inl hst)
  have he : userFlashEnd = 0xEA000 := rfl
  have hfull : received.length = d.imageSize := by omega
  have himage := hrecv.slice_eq hfull
  have hcrc : crc = crc16 received := by
    rw [himage] at hpost
    unfold dfuInitPostvalidate at hpost
    split_ifs at hpost <;> exact (Option.some.inj hpost).symm
  simp only [hr, heq, ne_eq, not_true_eq_false, if_false]
  refine ⟨.ended ⟨hpkt, hend⟩ (.inr rfl), ?_⟩
  have hnote : Logs Quiet n (n.note (.validated .serial d.blockId
      (slice n.mem d.blockId d.imageSize))) :=
    ⟨_, rfl, fun a ha => by rw [List.mem_singleton.mp ha]; trivial⟩
  refine (hnote.imp fun a ha => .inl ha).trans ?_
  have hmem1 : (n.note (.validated .serial d.blockId (slice n.mem d.blockId d.imageSize))).mem =
      n.mem := rfl
  generalize n.note (.validated .serial d.blockId (slice n.mem d.blockId d.imageSize)) = n1
    at hmem1
  have hpkt1 : dfuStartPacketValidate
      ({ d with state := .wait4Activate, imageCrc := crc } : Dfu).startPacket =
      .ok ({ d with state := .wait4Activate, imageCrc := crc } : Dfu).imageSize := hpkt
  have hsize1 : ({ d with state := .wait4Activate, imageCrc := crc } : Dfu).imageSize =
      d.imageSize := rfl
  have hcrc1 : ({ d with state := .wait4Activate, imageCrc := crc } : Dfu).imageCrc = crc := rfl
  generalize ({ d with state := .wait4Activate, imageCrc := crc } : Dfu) = d1
    at hpkt1 hsize1 hcrc1
  unfold bootloaderDfuUpdateProcess
  cases hup : updateSettings (readSettings n1.mem) (dfuActivateStatus n1.mem d1) with
  | none => exact .refl _ rfl
  | some st =>
    refine (Logs.saveSettings n1 .serial st).imp ?_
    rintro a (ha | ⟨rfl, hv⟩)
    · exact .inl ha
    have hcur : (readSettings n1.mem).bank0 = bankInvalidApp := by rw [hmem1]; exact hrecv.marker
    obtain rfl := updateSettings_marker hpkt1 hcur hup hv
    have hsave := (saveSettings_mem n1 .serial (serialSettings d1)).1
    have hread := replay_bootloaderSettingsSave (m := n1.mem)
      (serialSettings_fits (d := d1) (by omega))
    rw [← hsave] at hread
    have hbelow : ∀ x, x < userFlashEnd →
        (n1.saveSettings .serial (serialSettings d1)).mem x = n.mem x := by
      intro x hx
      rw [hsave, saveSettings_below _ hx, hmem1]
    refine .inr ⟨rfl, hr, ?_, ?_, ?_, ?_⟩
    · simp only
      rw [(boundary_congr fun x hx => hbelow x (by omega)).2.1, hs.1, hfull]
      exact (slice_congr fun x _ hx => hbelow x (by omega)).trans himage
    · simp only [hread]
      rfl
    · simp only [hread]
      exact hsize1.trans hfull.symm
    · simp only [hread]
      exact hcrc1.trans hcrc

/-! ## Packets -/

/-- The bytes received, after a packet. -/
def SerialPacket.receivedAfter (p : SerialPacket) (d : Dfu) (received : List Byte) : List Byte :=
  match p with
  | .data w => received ++ acceptedBytes w d
  | _ => received

theorem SerialInv.packet (hI : SerialInv cfg d n received) (hs : Stable d n.mem) (p : SerialPacket)
    (hc : ∀ q, p = .start q → d.state = .idle → n.cache.addr = none) :
    SerialInv cfg (processDfuPacket cfg p d n).1 (processDfuPacket cfg p d n).2
        (p.receivedAfter d received) ∧
      Logs (fun a => Quiet a ∨ a = .committed .serial ∧
        SerialCommitted cfg d n (processDfuPacket cfg p d n).2 received) n
        (processDfuPacket cfg p d n).2 := by
  cases p with
  | start p =>
    obtain ⟨h1, h2⟩ := hI.start hs (hc p rfl) p
    exact ⟨h1, h2.imp fun a ha => .inl ha⟩
  | init data =>
    obtain ⟨h1, h2⟩ := hI.init hs data
    exact ⟨h1, h2.imp fun a ha => .inl ha⟩
  | data data =>
    obtain ⟨h1, h2⟩ := hI.data hs data
    exact ⟨h1, h2.imp fun a ha => .inl ha⟩
  | stop => exact hI.stop hs

/-- Only START leaves the idle state, no packet returns to it, and the bank stays. -/
theorem processDfuPacket_frame (cfg : DfuConfig) (p : SerialPacket) (d : Dfu) (n : Nvm) :
    (processDfuPacket cfg p d n).1.blockId = d.blockId ∧
      ((processDfuPacket cfg p d n).1.state = .idle →
        d.state = .idle ∧ (processDfuPacket cfg p d n).2 = n) ∧
      (d.state = .idle → (processDfuPacket cfg p d n).1.state = .idle ∨ ∃ q, p = .start q) := by
  cases p with
  | start p =>
    refine ⟨?_, ?_, fun _ => .inr ⟨p, rfl⟩⟩ <;> simp only [processDfuPacket, serialStart] <;>
      rcases dfuStartAdmit_cases p n.mem d with ⟨hr, -, hst, -, hb⟩ | ⟨hr, hidle, size, -, -, heq⟩
    · simp only [hr, ne_eq, not_false_eq_true, if_true]
      exact hb
    · simp only [hr, heq, ne_eq, not_true_eq_false, if_false]
      split <;> rfl
    · simp only [hr, ne_eq, not_false_eq_true, if_true]
      exact fun h => ⟨hst.symm.trans h, trivial⟩
    · simp only [hr, heq, ne_eq, not_true_eq_false, if_false, serialPrepare]
      cases cfg.signedFw <;> rintro ⟨⟩
  | init data =>
    simp only [processDfuPacket, serialInit]
    rcases dfuInitPktHandle_cases data d with ⟨hr, heq⟩ | ⟨hst, packet, heq⟩
    · simp only [hr, heq, ne_eq, not_false_eq_true, if_true]
      exact ⟨trivial, fun h => ⟨h, trivial⟩, .inl⟩
    · obtain ⟨ext, packet', hcheck, -⟩ :=
        dfuInitAdmit_cases cfg n.mem { d with state := .rxInitPkt, initPacket := packet }
      have hne : d.state ≠ .idle := by rcases hst with h | h <;> rw [h] <;> decide
      simp only [heq]
      refine ⟨?_, ?_, fun h => absurd h hne⟩
      · split_ifs <;> simp only [hcheck, serialPrepare]
      · split_ifs <;> simp only [hcheck, serialPrepare]
        · rintro ⟨⟩
        · rintro ⟨⟩
        · cases cfg.signedFw <;> rintro ⟨⟩
        · rintro ⟨⟩
  | data data =>
    simp only [processDfuPacket, serialData]
    rcases dfuDataAdmit_cases data d with ⟨hr, heq | ⟨hst, heq⟩⟩ | ⟨hr, heq, hst, -⟩
    · simp only [hr, heq, ne_eq, not_false_eq_true, if_true]
      exact ⟨trivial, fun h => ⟨h, trivial⟩, .inl⟩
    · simp only [hr, heq, ne_eq, not_false_eq_true, if_true]
      exact ⟨trivial, fun h => ⟨h, trivial⟩, .inl⟩
    · simp only [hr, heq, ne_eq, not_true_eq_false, if_false, dfuDataCount]
      split_ifs <;> simp [hst]
  | stop =>
    simp only [processDfuPacket, serialStop]
    rcases dfuImageValidate_cases cfg n.mem d with
      ⟨hr, heq | ⟨crc, hst, heq⟩⟩ | ⟨hr, hst, -, crc, -, heq⟩
    · simp only [hr, heq, ne_eq, not_false_eq_true, if_true]
      exact ⟨trivial, fun h => ⟨h, trivial⟩, .inl⟩
    · simp [hr, heq, hst]
    · simp [hr, heq, hst]

end OtaFix

import OtaFix.Dfu.Serial
import OtaFix.Uf2.BootEffect
import OtaFix.Uf2.Interrupted

/-!
# The USB session

Serial DFU and mass storage are live at once on the same flash, page cache and
settings record. As long as neither starts while the other holds a session, and
the boundary stays where `dfu_init` found it, a transport commits only what it
received and validated itself; a START between the UF2 verdict and its deferred
completion shows what happens otherwise.
-/

namespace OtaFix

open Lib Lib.BitMask Uf2

structure UsbConfig where
  dfu : DfuConfig
  msc : MscConfig

structure Usb where
  msc : Msc := {}
  dfu : Dfu
  nvm : Nvm
  /-- The bytes of the accepted DATA packets; nothing reads them. -/
  received : List Byte := []

inductive UsbEvent where
  | msc (e : MscEvent)
  | serial (p : SerialPacket)
  /-- `dfu_timeout_handler`. -/
  | dfuTimeout

/-- One event of either transport, unless the device has faulted. -/
def usbStep (cfg : UsbConfig) (s : Usb) (e : UsbEvent) : Usb :=
  if s.msc.fault then s
  else
    match e with
    | .msc e =>
      let r := mscHandle cfg.msc e s.msc s.nvm
      { s with msc := r.1, nvm := r.2 }
    | .serial p =>
      let r := processDfuPacket cfg.dfu p s.dfu s.nvm
      { s with dfu := r.1, nvm := r.2, received := p.receivedAfter s.dfu s.received }
    | .dfuTimeout => { s with dfu := { s.dfu with timedOut := true } }

/-- The state after `dfu_init`. -/
def usbInit (m₀ : Mem) : Usb where
  dfu := { blockId := dfuBank0RegionStart m₀ }
  nvm := { mem := m₀ }

/-! ## What a commit promises -/

/-- A committed UF2 application: the flash from the boundary on holds, block by block,
what the validated session accepted, and the record describes it. -/
structure Uf2Committed (cfg : Config) (s : Msc) (m : Mem) : Prop where
  validated : s.ws.appValidated = true
  image : ImageOk cfg (dfuBank0RegionStart m) (readSettings m).bank0Size m s.accepted
  one_payload : s.accepted.Pairwise fun b b' => b.targetAddr ≠ b'.targetAddr
  bank0 : (readSettings m).bank0 = bankValidApp
  crc : (readSettings m).bank0Crc =
    crc16 (slice m (dfuBank0RegionStart m) (readSettings m).bank0Size)

/-- What an entry logged from `s` to `s'` promises. -/
def ActOk (cfg : UsbConfig) (s s' : Usb) : Act → Prop
  | .committed .uf2 => Uf2Committed cfg.msc.uf2 s.msc s'.nvm.mem
  | .committed .serial => SerialCommitted cfg.dfu s.dfu s.nvm s'.nvm s.received
  | .copyBl => stagedBootloaderOk cfg.msc.uf2 s'.nvm.mem = true
  | _ => True

/-! ## Sessions apart -/

/-- The boundary is the one of `dfu_init`, and one of user flash. -/
def stableb (d : Dfu) (m : Mem) : Bool := dfuBank0RegionStart m = d.blockId && boundaryOk m

/-- No sector is a block of a known family. -/
def foreignb (cfg : Config) (sectors : List Sector) : Bool :=
  sectors.all fun sec => !isUf2Block sec || (cfg.kindOf sec.block.familyId).isNone

/-- The event starts no session inside the other transport's. -/
def UsbEvent.apartb (cfg : UsbConfig) (s : Usb) : UsbEvent → Bool
  | .serial (.start _) => s.msc.ws.updateKind = .none
  | .msc (.write10 lba _ sectors) =>
    (s.dfu.state = .idle || foreignb cfg.msc.uf2 sectors) &&
      -- every sector of the buffer finds the boundary
      (List.range sectors.length).all fun k =>
        stableb s.dfu (tudMscWrite10 cfg.msc lba (sectors.take k) s.msc s.nvm).2.mem
  | _ => true

def usbApartb (cfg : UsbConfig) (s : Usb) (e : UsbEvent) : Bool :=
  stableb s.dfu s.nvm.mem && e.apartb cfg s

def UsbApart (cfg : UsbConfig) (s : Usb) (e : UsbEvent) : Prop := usbApartb cfg s e = true

/-! ## The invariant -/

/-- A UF2 session exists only while serial DFU is idle, and owns flash there. -/
structure Uf2Inv (cfg : Config) (d : Dfu) (s : Msc) (n : Nvm) : Prop where
  counters : Counters s.ws
  apart : d.state ≠ .idle → s.ws.updateKind = .none
  unlatched : s.ws.updateKind = .none → s.ws.numWritten = 0 ∧ s.ws.appValidated = false
  contents : d.state = .idle → s.ws.updateKind ≠ .bootloader → Contents s.ws n.mem s.accepted
  cache : d.state = .idle → s.ws.updateKind ≠ .bootloader → n.cache.addr = none
  image : s.ws.appValidated = true → s.ws.updateKind = .application ∧ s.ws.appStart = d.blockId ∧
    0 < s.ws.numBlocks ∧ s.ws.numBlocks ≤ s.ws.numWritten ∧
    ImageOk cfg d.blockId s.ws.appSize n.mem s.accepted
  staged : StagedOk cfg s.ws n.mem

structure UsbInv (cfg : UsbConfig) (s : Usb) : Prop where
  uf2 : Uf2Inv cfg.msc.uf2 s.dfu s.msc s.nvm
  serial : SerialInv cfg.dfu s.dfu s.nvm s.received

variable {cfg : Config} {d : Dfu} {s s' : Msc} {n n' : Nvm}

theorem uf2Inv_fresh (hc : d.state = .idle → n.cache.addr = none) (f : Bool) :
    Uf2Inv cfg d { ws := {}, fault := f } n where
  counters := counters_fresh
  apart := fun _ => rfl
  unlatched := fun _ => ⟨rfl, rfl⟩
  contents := fun _ _ => contents_fresh n.mem
  cache := fun h _ => hc h
  image := fun h => by cases h
  staged := fun h => by cases h

/-- The completion flags do not matter. -/
theorem Uf2Inv.congr (hI : Uf2Inv cfg d s n) (hw : s'.ws = s.ws) (ha : s'.accepted = s.accepted) :
    Uf2Inv cfg d s' n := by
  obtain ⟨h1, h2, h3, h4, h5, h6, h7⟩ := hI
  constructor <;> rw [hw]
  · exact h1
  · exact h2
  · exact h3
  · rw [ha]; exact h4
  · exact h5
  · rw [ha]; exact h6
  · exact h7

/-! ## Sectors -/

theorem Uf2Inv.app {b : Block} {ws' : WriteState} {ops : List FlashOp} {committed : Bool}
    (hI : Uf2Inv cfg d s n) (hidle : d.state = .idle) (hs : Stable d n.mem)
    (he : AppEffect cfg b s.ws n.mem ws' ops committed) (hlen : b.payload.length = blockSize)
    (hw : s'.ws = ws') (ha : s'.accepted = if committed then s.accepted ++ [b] else s.accepted)
    (hmem : n'.mem = replay ops n.mem)
    (hc : s.ws.updateKind ≠ .bootloader → n'.cache.addr = none) : Uf2Inv cfg d s' n' := by
  obtain ⟨hbase, hb⟩ := hs
  have hkind : ws'.updateKind ≠ .bootloader → s.ws.updateKind ≠ .bootloader := by
    rcases he.kind with h | ⟨h, -⟩
    · rw [h]
      exact id
    · intro _
      rw [h]
      decide
  have hcont := fun hk => (hI.contents hidle hk).effect he hb hlen
  refine ⟨?_, fun h => absurd hidle h, ?_, ?_, ?_, ?_, ?_⟩ <;> rw [hw]
  · exact hI.counters.effect he
  · intro hk
    cases he with
    | @idle k kind ab hn hlatch hab =>
      rcases hlatch with rfl | ⟨-, rfl⟩
      · exact hI.unlatched hk
      · cases hk
    | invalidate => cases hk
    | erase => cases hk
    | commit =>
      obtain ⟨ab, size, start, v, heq⟩ := finishState_eq cfg
        (commitState s.ws b (dfuBank0RegionStart n.mem) _ _) (dfuBank0RegionStart n.mem)
        (replay ops n.mem)
      rw [heq] at hk
      cases hk
  · intro _ hk
    rw [ha, hmem]
    exact hcont (hkind hk)
  · exact fun _ hk => hc (hkind hk)
  · intro hv
    rw [ha, hmem]
    rcases he.verdict with ⟨h1, h2, h3⟩ | ⟨-, hk, hpos, hdone, stop, hfin, hstart⟩
    · rw [h1] at hv
      obtain ⟨hk, hstart, hpos, hfull, himg⟩ := hI.image hv
      have hne : s.ws.updateKind ≠ .bootloader := by rw [hk]; decide
      obtain ⟨-, kind, ab, hlatch, hws⟩ := he.of_full hI.counters hpos hfull
      rw [h2, h3]
      refine ⟨?_, hstart, ?_, ?_, himg.step (hI.contents hidle hne) he hlen⟩
      · rw [hws]
        rcases hlatch with h | ⟨-, h⟩
        · exact h.trans hk
        · exact h
      · rw [hws]; exact hpos
      · rw [hws]; exact hfull
    · -- the transfer is validated now
      have hne : ws'.updateKind ≠ .bootloader := by rw [hk]; decide
      rw [hstart, hbase]
      rw [hbase] at hfin
      refine ⟨hk, rfl, hpos, hdone, (hcont (hkind hne)).finalized ?_ hfin⟩
      rw [← hbase]
      exact boundaryOk_start hb
  · rw [hmem]
    exact hI.staged.effect hI.counters he

theorem Uf2Inv.boot {ws' : WriteState} {ops : List FlashOp} (hI : Uf2Inv cfg d s n)
    (hidle : d.state = .idle) (hk : ws'.updateKind = .bootloader)
    (he : BootEffect cfg s.ws n.mem ws' ops) (hw : s'.ws = ws')
    (hmem : n'.mem = replay ops n.mem) : Uf2Inv cfg d s' n' := by
  refine ⟨?_, fun h => absurd hidle h, ?_, ?_, ?_, ?_, ?_⟩ <;> rw [hw]
  · exact he.counters
  · intro h
    rw [hk] at h
    cases h
  · exact fun _ h => absurd hk h
  · exact fun _ h => absurd hk h
  · intro hv
    rw [he.validated] at hv
    have hkind := (hI.image hv).1
    rcases he.kind with h | h <;> rw [hkind] at h <;> cases h
  · rw [hmem]
    exact he.staged

/-- What an event of mass storage may log, committing the session of `s`. -/
def MscLog (cfg : Config) (s : Msc) (m : Mem) (a : Act) : Prop :=
  Quiet a ∨ (a = .committed .uf2 ∧ Uf2Committed cfg s m) ∨
    (a = .copyBl ∧ stagedBootloaderOk cfg m = true)

theorem store_quiet (ws : WriteState) (out : Outcome) (n : Nvm) :
    Logs Quiet n (out.store ws n) ∧ (out.store ws n).cache = out.cache := by
  obtain ⟨-, hlog⟩ := store_eq ws out n
  rw [List.append_assoc] at hlog
  refine ⟨⟨_, hlog, fun a ha => ?_⟩, ?_⟩
  · rcases List.mem_append.mp ha with ha | ha
    · obtain ⟨o, -, rfl⟩ := List.mem_map.mp ha
      trivial
    · split at ha
      · rw [List.mem_singleton.mp ha]
        trivial
      · cases ha
  · unfold Outcome.store
    split <;> rfl

theorem Uf2Inv.sector {lba : Nat} {sec : Sector} (hI : Uf2Inv cfg d s n) (hidle : d.state = .idle)
    (hs : Stable d n.mem) :
    ∃ out, writeBlock cfg lba sec s.ws n.cache n.mem = some out ∧
      Uf2Inv cfg d { s with
        ws := out.ws
        accepted := if out.committed then s.accepted ++ [sec.block] else s.accepted }
        (out.store s.ws n) := by
  obtain ⟨out, hout, he⟩ := writeBlock_session lba sec n.cache n.mem hI.counters
    (fun hk => (hI.unlatched hk).1) hI.staged (boundaryOk_le hs.2)
  refine ⟨out, hout, ?_⟩
  have hmem := (store_eq s.ws out n).1
  rcases he with he | ⟨hk, he⟩
  · refine hI.app hidle hs he (payload_length sec) rfl rfl hmem fun hk => ?_
    rw [(store_quiet s.ws out n).2]
    refine writeBlock_cache hI.counters.toDims (hI.cache hidle hk) hout ?_
    rcases he.kind with h | ⟨-, h⟩ <;> rw [h]
    · exact hk
    · decide
  · exact hI.boot hidle hk he rfl hmem

variable {mcfg : MscConfig} {lba : Nat} {sectors : List Sector}

theorem Uf2Inv.write10 (hI : Uf2Inv mcfg.uf2 d s n) (hidle : d.state = .idle)
    (hs : ∀ k, k < sectors.length →
      Stable d (tudMscWrite10 mcfg lba (sectors.take k) s n).2.mem) :
    Uf2Inv mcfg.uf2 d (tudMscWrite10 mcfg lba sectors s n).1 (tudMscWrite10 mcfg lba sectors s n).2 ∧
      Logs Quiet n (tudMscWrite10 mcfg lba sectors s n).2 := by
  induction sectors generalizing lba s n with
  | nil => exact ⟨hI, .refl _ rfl⟩
  | cons sec sectors ih =>
    obtain ⟨out, hout, hI'⟩ := hI.sector hidle (hs 0 (by simp))
    have hlog := (store_quiet s.ws out n).1
    unfold tudMscWrite10
    rw [hout]
    simp only
    split
    · exact ⟨hI', hlog⟩
    · rename_i hgo
      obtain ⟨h1, h2⟩ := ih hI' fun k hk => by
        have hk' := hs (k + 1) (by simpa using hk)
        rw [List.take_succ_cons, tudMscWrite10, hout] at hk'
        simpa only [if_neg hgo] using hk'
      exact ⟨h1, hlog.trans h2⟩

/-- Sectors of no known family change nothing. -/
theorem tudMscWrite10_foreign (h : foreignb mcfg.uf2 sectors = true) :
    tudMscWrite10 mcfg lba sectors s n = (s, n) := by
  induction sectors generalizing lba with
  | nil => rfl
  | cons sec sectors ih =>
    rw [foreignb, List.all_cons, Bool.and_eq_true] at h
    obtain ⟨hsec, hrest⟩ := h
    have hnone : isUf2Block sec = true → mcfg.uf2.kindOf sec.block.familyId = none := by
      intro huf2
      simpa [huf2] using hsec
    obtain ⟨r, hout⟩ := writeBlock_foreign hnone lba s.ws n.cache n.mem
    have hstore : (Outcome.mk r s.ws n.cache [] false).store s.ws n = n := by
      simp [Outcome.store, Nvm.run]
    unfold tudMscWrite10
    simp only [hout, hstore, Bool.false_eq_true, if_false]
    split
    · rfl
    · exact ih hrest

/-! ## Completion -/

/-- A completion commits the image of its own session. -/
theorem Uf2Inv.complete (hI : Uf2Inv cfg d s n) (hs : Stable d n.mem) :
    Uf2Inv cfg d (completeAppUpdate s n).1 (completeAppUpdate s n).2 ∧
      Logs (MscLog cfg s (completeAppUpdate s n).2.mem) n (completeAppUpdate s n).2 := by
  unfold completeAppUpdate
  split
  · refine ⟨⟨{ hI.counters with }, hI.apart, hI.unlatched, fun h1 h2 => ?_, hI.cache, hI.image,
      fun _ h => (by cases h)⟩, .refl _ rfl⟩
    obtain ⟨h1, h2, h3, h4, h5, h6⟩ := hI.contents h1 h2
    exact ⟨h1, h2, h3, h4, h5, h6⟩
  rename_i hgo
  simp only [Bool.or_eq_true, Bool.not_eq_true', decide_eq_true_eq, not_or,
    Bool.not_eq_false] at hgo
  obtain ⟨hv, -⟩ := hgo
  obtain ⟨hk, hstart, hpos, hfull, himg⟩ := hI.image hv
  have hne : s.ws.updateKind ≠ .bootloader := by rw [hk]; decide
  have hidle : d.state = .idle := by
    by_contra h
    have := hI.apart h
    rw [hk] at this
    cases this
  have hcont := hI.contents hidle hne
  have hend := himg.end_le
  have he : userFlashEnd = 0xEA000 := rfl
  simp only
  rw [updateProcess_complete _ himg.size_pos]
  generalize hst : appSettings (sessionImage s.ws n.mem) = st
  have hread : readSettings (replay (bootloaderSettingsSave st) n.mem) = st.sealed := by
    rw [← hst]
    refine replay_bootloaderSettingsSave (appSettings_fits ?_)
    rw [sessionImage, slice_length]
    omega
  have hsize : st.sealed.bank0Size = s.ws.appSize := by
    rw [← hst]
    exact slice_length _ _ _
  have hbelow := fun x hx => saveSettings_below (x := x) st hx n.mem
  have hb := boundary_congr fun x hx => hbelow x (by omega)
  simp only [Nvm.note_mem, Nvm.run_mem]
  refine ⟨⟨hI.counters, hI.apart, hI.unlatched, fun _ _ => hcont.congr hbelow, ?_, fun _ =>
    ⟨hk, hstart, hpos, hfull, himg.congr hbelow⟩, fun h => absurd h hne⟩, ?_⟩
  · simp only [Nvm.note_cache, Nvm.run_cache]
    exact hI.cache
  have hcommit : Uf2Committed cfg s (replay (bootloaderSettingsSave st) n.mem) := by
    refine ⟨hv, ?_, hcont.distinct, ?_, ?_⟩
    · rw [hb.2.1, hs.1, hread, hsize]
      exact himg.congr hbelow
    · rw [hread, ← hst]
      rfl
    · rw [hb.2.1, hs.1, hread, hsize, slice_save hend, ← hst, ← hstart]
      rfl
  refine ⟨[.completing .uf2] ++ (bootloaderSettingsSave st).map .op ++ [.committed .uf2], ?_, ?_⟩
  · simp [Nvm.note, Nvm.run]
  · intro a ha
    simp only [List.mem_append, List.mem_singleton, List.mem_map] at ha
    rcases ha with (rfl | ⟨o, -, rfl⟩) | rfl
    · exact .inl trivial
    · exact .inl trivial
    · exact .inr (.inl ⟨rfl, hcommit⟩)

theorem Uf2Inv.completePending (hI : Uf2Inv cfg d s n) (hs : Stable d n.mem) :
    Uf2Inv cfg d (completePending s n).1 (completePending s n).2 ∧
      Logs (MscLog cfg s (completePending s n).2.mem) n (completePending s n).2 := by
  have htaken : Uf2Inv cfg d (takePendingAppCompletion s).2 n := hI.congr rfl rfl
  unfold Uf2.completePending
  split
  · obtain ⟨h1, h2⟩ := htaken.complete hs
    refine ⟨h1, h2.imp ?_⟩
    rintro a (ha | ⟨rfl, hc⟩ | ha)
    · exact .inl ha
    · exact .inr (.inl ⟨rfl, hc.validated, hc.image, hc.one_payload, hc.bank0, hc.crc⟩)
    · exact .inr (.inr ha)
  · exact ⟨htaken, .refl _ rfl⟩

/-- A reset hands the flash back: the cache is empty. -/
theorem Uf2Inv.reset (hI : Uf2Inv cfg d s n) :
    Uf2Inv cfg d (uf2WriteSessionReset s n).1 (uf2WriteSessionReset s n).2 ∧
      (uf2WriteSessionReset s n).2.mem = n.mem ∧ (uf2WriteSessionReset s n).2.log = n.log := by
  unfold uf2WriteSessionReset
  split
  · exact ⟨uf2Inv_fresh (fun _ => rfl) _, rfl, rfl⟩
  · rename_i hk
    exact ⟨uf2Inv_fresh (fun h => hI.cache h hk) _, rfl, rfl⟩

theorem Logs.congr {P : Act → Prop} {n₀ : Nvm} (h : Logs P n₀ n) (hlog : n'.log = n.log) :
    Logs P n₀ n' := by
  obtain ⟨acts, e, p⟩ := h
  exact ⟨acts, hlog.trans e, p⟩

/-! ## Events -/

/-- Every mass-storage event keeps the invariant and logs only what it may. -/
theorem Uf2Inv.event {ucfg : UsbConfig} {u : Usb} {e : MscEvent}
    (hI : Uf2Inv ucfg.msc.uf2 u.dfu u.msc u.nvm) (hok : UsbApart ucfg u (.msc e)) :
    Uf2Inv ucfg.msc.uf2 u.dfu (mscHandle ucfg.msc e u.msc u.nvm).1
        (mscHandle ucfg.msc e u.msc u.nvm).2 ∧
      Logs (MscLog ucfg.msc.uf2 u.msc (mscHandle ucfg.msc e u.msc u.nvm).2.mem) u.nvm
        (mscHandle ucfg.msc e u.msc u.nvm).2 := by
  unfold UsbApart usbApartb at hok
  rw [Bool.and_eq_true] at hok
  obtain ⟨hst, happ⟩ := hok
  have hs : Stable u.dfu u.nvm.mem := by simpa [stableb, Stable] using hst
  have hquiet : ∀ {P : Act → Prop} {n : Nvm}, Logs Quiet u.nvm n →
      Logs (fun a => Quiet a ∨ P a) u.nvm n := fun h => h.imp fun a ha => .inl ha
  cases e with
  | write10 lba offset sectors =>
    simp only [mscHandle]
    split
    · exact ⟨hI, .refl _ rfl⟩
    simp only [UsbEvent.apartb, Bool.and_eq_true, Bool.or_eq_true, decide_eq_true_eq,
      List.all_eq_true, List.mem_range] at happ
    obtain ⟨hidle | hforeign, hstable⟩ := happ
    · obtain ⟨h1, h2⟩ := hI.write10 hidle fun k hk => by
        simpa [stableb, Stable] using hstable k hk
      exact ⟨h1, hquiet h2⟩
    · rw [tudMscWrite10_foreign hforeign]
      exact ⟨hI, .refl _ rfl⟩
  | write10Complete =>
    simp only [mscHandle, tudMscWrite10Complete]
    split_ifs with hab hfull hk hdiff
    · exact ⟨hI.congr rfl rfl, .refl _ rfl⟩
    · refine ⟨⟨hI.counters, hI.apart, hI.unlatched, hI.contents, hI.cache, hI.image, hI.staged⟩,
        [.copyBl], rfl, fun a ha => ?_⟩
      rw [List.mem_singleton.mp ha]
      exact .inr (.inr ⟨rfl, hI.staged hk (by simpa using hab) hfull.1 hfull.2⟩)
    · exact ⟨hI, .refl _ rfl⟩
    · exact ⟨hI.congr rfl rfl, .refl _ rfl⟩
    · exact ⟨hI, .refl _ rfl⟩
  | scsiComplete cmd =>
    obtain ⟨h1, h2⟩ := hI.completePending hs
    obtain ⟨h3, h4, h5⟩ := h1.reset
    obtain ⟨h6, h7, h8⟩ := hI.reset
    simp only [mscHandle, tudMscScsiComplete]
    split_ifs
    · exact ⟨hI, .refl _ rfl⟩
    · rw [h4]
      exact ⟨h3, h2.congr h5⟩
    · exact ⟨h1, h2⟩
    · exact ⟨h6, .refl _ h8⟩
    · exact ⟨hI, .refl _ rfl⟩
  | startStop start loadEject =>
    simp only [mscHandle, tudMscStartStop]
    split_ifs
    · exact ⟨hI.congr rfl rfl, .refl _ rfl⟩
    · exact ⟨hI.congr rfl rfl, .refl _ rfl⟩
    · exact ⟨hI.reset.1, .refl _ hI.reset.2.2⟩
    · exact ⟨hI, .refl _ rfl⟩
  | commandBegin => exact ⟨hI.congr rfl rfl, .refl _ rfl⟩
  | commandComplete => exact ⟨hI.congr rfl rfl, .refl _ rfl⟩
  | busReset => exact ⟨hI.congr rfl rfl, .refl _ rfl⟩
  | timer idleTicks =>
    simp only [mscHandle, appCompletionTimerHandler]
    split_ifs
    · exact ⟨hI, .refl _ rfl⟩
    · exact ⟨hI, .refl _ rfl⟩
    · exact ⟨hI, .refl _ rfl⟩
    · exact hI.completePending hs
  | mount => exact ⟨hI.reset.1, .refl _ hI.reset.2.2⟩
  | umount =>
    obtain ⟨h1, h2⟩ := hI.completePending hs
    obtain ⟨h3, h4, h5⟩ := h1.reset
    simp only [mscHandle, uf2WriteSessionClose]
    rw [h4]
    exact ⟨h3, h2.congr h5⟩

/-- Without a UF2 session no event touches flash or cache. -/
theorem mscHandle_unlatched (hk : s.ws.updateKind = .none) (hw : s.ws.numWritten = 0)
    (hv : s.ws.appValidated = false) {e : MscEvent}
    (hforeign : ∀ lba offset sectors, e = .write10 lba offset sectors →
      foreignb mcfg.uf2 sectors = true) : (mscHandle mcfg e s n).2 = n := by
  have hpend : (completePending s n).2 = n := by
    unfold Uf2.completePending completeAppUpdate
    split
    · rw [if_pos (by simp [takePendingAppCompletion, hv])]
    · rfl
  have hkind : (completePending s n).1.ws.updateKind = .none := by
    unfold Uf2.completePending completeAppUpdate
    split
    · split <;> exact hk
    · exact hk
  have hreset : ∀ s' : Msc, s'.ws.updateKind = .none → (uf2WriteSessionReset s' n).2 = n := by
    intro s' hk'
    simp [uf2WriteSessionReset, hk']
  cases e with
  | write10 lba offset sectors =>
    simp only [mscHandle]
    split
    · rfl
    · rw [tudMscWrite10_foreign (hforeign lba offset sectors rfl)]
  | write10Complete =>
    simp only [mscHandle, tudMscWrite10Complete]
    split_ifs with hab hfull
    · rfl
    · omega
    · rfl
    · rfl
    · rfl
  | scsiComplete cmd =>
    simp only [mscHandle, tudMscScsiComplete]
    split_ifs
    · rfl
    · rw [hpend]
      exact hreset _ hkind
    · exact hpend
    · exact hreset s hk
    · rfl
  | startStop start loadEject =>
    simp only [mscHandle, tudMscStartStop]
    split_ifs
    · rfl
    · rfl
    · exact hreset s hk
    · rfl
  | commandBegin => rfl
  | commandComplete => rfl
  | busReset => rfl
  | timer idleTicks =>
    simp only [mscHandle, appCompletionTimerHandler]
    split_ifs
    · rfl
    · rfl
    · rfl
    · exact hpend
  | mount => exact hreset s hk
  | umount =>
    simp only [mscHandle, uf2WriteSessionClose]
    rw [hpend]
    exact hreset _ hkind

variable {ucfg : UsbConfig} {u : Usb} {e : UsbEvent}

theorem usbInv_init (ucfg : UsbConfig) (m₀ : Mem) : UsbInv ucfg (usbInit m₀) where
  uf2 := uf2Inv_fresh (fun _ => rfl) false
  serial := .idle rfl rfl

/-- Serial DFU does not notice mass storage. -/
theorem UsbInv.serial_msc {e : MscEvent} (hI : UsbInv ucfg u) (hok : UsbApart ucfg u (.msc e)) :
    SerialInv ucfg.dfu u.dfu (mscHandle ucfg.msc e u.msc u.nvm).2 u.received := by
  by_cases hidle : u.dfu.state = .idle
  · obtain ⟨h0, hr⟩ := hI.serial.early (.inl hidle)
    rw [hr]
    exact .idle hidle h0
  · have hk := hI.uf2.apart hidle
    obtain ⟨hw, hv⟩ := hI.uf2.unlatched hk
    rw [mscHandle_unlatched hk hw hv]
    · exact hI.serial
    · rintro lba offset sectors rfl
      simp only [UsbApart, usbApartb, UsbEvent.apartb, Bool.and_eq_true, Bool.or_eq_true,
        decide_eq_true_eq] at hok
      exact hok.2.1.resolve_left hidle

/-- Nor does a UF2 session notice serial DFU, which starts only without one. -/
theorem UsbInv.uf2_serial {p : SerialPacket} (hI : UsbInv ucfg u)
    (hok : UsbApart ucfg u (.serial p)) :
    Uf2Inv ucfg.msc.uf2 (processDfuPacket ucfg.dfu p u.dfu u.nvm).1 u.msc
      (processDfuPacket ucfg.dfu p u.dfu u.nvm).2 := by
  obtain ⟨hbank, hstay, hleave⟩ := processDfuPacket_frame ucfg.dfu p u.dfu u.nvm
  obtain ⟨h1, h2, h3, h4, h5, h6, h7⟩ := hI.uf2
  by_cases hidle' : (processDfuPacket ucfg.dfu p u.dfu u.nvm).1.state = .idle
  · obtain ⟨hidle, hn⟩ := hstay hidle'
    rw [hn]
    refine ⟨h1, fun h => absurd hidle' h, h3, fun _ => h4 hidle, fun _ => h5 hidle, ?_, h7⟩
    rw [hbank]
    exact h6
  · have hk : u.msc.ws.updateKind = .none := by
      by_cases hidle : u.dfu.state = .idle
      · obtain h | ⟨q, rfl⟩ := hleave hidle
        · exact absurd h hidle'
        · simpa [UsbApart, usbApartb, UsbEvent.apartb] using
            (Bool.and_eq_true_iff.mp hok).2
      · exact h2 hidle
    obtain ⟨hw, hv⟩ := h3 hk
    refine ⟨h1, fun _ => hk, h3, fun h => absurd h hidle', fun h => absurd h hidle',
      fun h => ?_, fun h => ?_⟩
    · rw [hv] at h
      cases h
    · rw [hk] at h
      cases h

theorem UsbApart.stable (hok : UsbApart ucfg u e) : Stable u.dfu u.nvm.mem := by
  simpa [stableb, Stable] using (Bool.and_eq_true_iff.mp hok).1

/-- An event keeps the invariant, and what it logs is as promised. -/
theorem UsbInv.step (hI : UsbInv ucfg u) (hok : UsbApart ucfg u e) :
    UsbInv ucfg (usbStep ucfg u e) ∧
      Logs (ActOk ucfg u (usbStep ucfg u e)) u.nvm (usbStep ucfg u e).nvm := by
  unfold usbStep
  split
  · exact ⟨hI, .refl _ rfl⟩
  cases e with
  | msc e =>
    obtain ⟨h1, h2⟩ := hI.uf2.event hok
    refine ⟨⟨h1, hI.serial_msc hok⟩, h2.imp ?_⟩
    rintro a (ha | ⟨rfl, ha⟩ | ⟨rfl, ha⟩)
    · cases a <;> first | exact trivial | exact absurd ha id
    · exact ha
    · exact ha
  | serial p =>
    have hcache : ∀ q, p = .start q → u.dfu.state = .idle → u.nvm.cache.addr = none := by
      rintro q rfl hidle
      refine hI.uf2.cache hidle ?_
      have hk : u.msc.ws.updateKind = .none := by
        simpa [UsbApart, usbApartb, UsbEvent.apartb] using (Bool.and_eq_true_iff.mp hok).2
      rw [hk]
      decide
    obtain ⟨h1, h2⟩ := hI.serial.packet hok.stable p hcache
    refine ⟨⟨hI.uf2_serial hok, h1⟩, h2.imp ?_⟩
    rintro a (ha | ⟨rfl, ha⟩)
    · cases a <;> first | exact trivial | exact absurd ha id
    · exact ha
  | dfuTimeout =>
    refine ⟨⟨?_, hI.serial.moved rfl rfl rfl rfl Iff.rfl id id⟩, .refl _ rfl⟩
    obtain ⟨h1, h2, h3, h4, h5, h6, h7⟩ := hI.uf2
    exact ⟨h1, h2, h3, h4, h5, h6, h7⟩

/-- In every run in which neither transport starts inside the other's session, every
commit holds what its own transport received and validated, and the staged bootloader
still meets the policy when it is copied. -/
theorem usb_commits_own {m₀ : Mem} {es : List UsbEvent}
    (hrun : Reach (usbStep ucfg) (UsbApart ucfg) (usbInit m₀) es u) (hok : UsbApart ucfg u e) :
    ∀ a ∈ (usbStep ucfg u e).nvm.log.drop u.nvm.log.length,
      ActOk ucfg u (usbStep ucfg u e) a := by
  have hI : UsbInv ucfg u := hrun.invariant (usbInv_init ucfg m₀) fun u e hI hok => (hI.step hok).1
  obtain ⟨acts, hlog, hacts⟩ := (hI.step hok).2
  rw [hlog, List.drop_left]
  exact hacts

/-! ## Two runs -/

def sampleUsbConfig : UsbConfig where
  dfu := ⟨sampleConfig.board, false, sha256, fun _ _ => false⟩
  msc := sampleMscConfig

/-- The one-block image, copied and not yet committed. -/
def copyEvents : List UsbEvent :=
  List.replicate 3 (.msc (.write10 100 0 [imageSector])) ++ [.msc .write10Complete]

/-- A START for an application of one page. -/
def startEvent : UsbEvent := .serial (.start { dfuUpdateMode := dfuUpdateApp, appImageSize := 0x1000 })

/-- The idle second after the copy commits the image, as promised. -/
theorem usb_commits_own_copy :
    let u := copyEvents.foldl (usbStep sampleUsbConfig) (usbInit sdFlash)
    Act.committed .uf2 ∈ (usbStep sampleUsbConfig u (.msc (.timer 40000))).nvm.log.drop
        u.nvm.log.length ∧
      Uf2Committed sampleConfig u.msc
        (usbStep sampleUsbConfig u (.msc (.timer 40000))).nvm.mem := by
  have hrun : Reach (usbStep sampleUsbConfig) (UsbApart sampleUsbConfig) (usbInit sdFlash)
      copyEvents (copyEvents.foldl (usbStep sampleUsbConfig) (usbInit sdFlash)) :=
    .of_allowed (usbApartb sampleUsbConfig) (fun _ _ h => h) (by decide +kernel)
  have hmem : Act.committed .uf2 ∈ (usbStep sampleUsbConfig
      (copyEvents.foldl (usbStep sampleUsbConfig) (usbInit sdFlash))
      (.msc (.timer 40000))).nvm.log.drop
        (copyEvents.foldl (usbStep sampleUsbConfig) (usbInit sdFlash)).nvm.log.length := by
    decide +kernel
  exact ⟨hmem, usb_commits_own hrun (by unfold UsbApart; decide +kernel) _ hmem⟩

/-- A START between the UF2 verdict and the idle second erases the image; the completion
then commits a record for the erased bank. -/
theorem usb_commits_own_startBetween :
    ¬ ∀ (cfg : UsbConfig) (m₀ : Mem) (es : List UsbEvent) (u : Usb) (e : UsbEvent),
      Reach (usbStep cfg) (fun _ _ => True) (usbInit m₀) es u →
        ∀ a ∈ (usbStep cfg u e).nvm.log.drop u.nvm.log.length, ActOk cfg u (usbStep cfg u e) a := by
  intro hall
  have h := hall sampleUsbConfig sdFlash (copyEvents ++ [startEvent]) _ (.msc (.timer 40000))
    (Reach.of_foldl _ _ _) (.committed .uf2) (by decide +kernel)
  have hsp := h.image.sp_ram.2
  revert hsp
  decide +kernel

end OtaFix

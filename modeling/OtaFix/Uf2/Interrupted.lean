import OtaFix.Lib.Run
import OtaFix.Uf2.AppSession
import OtaFix.Uf2.Msc

/-!
# Interrupted copies

The device may reset after any entry of the log. Every such prefix is safe: once
an application page is touched, the boot check fails until a validated image is
being completed. Between the two the settings marker is zero, which no operation
on user flash changes.
-/

namespace OtaFix.Uf2

open Lib Lib.BitMask

/-! ## Histories -/

structure Image where
  start : Nat
  bytes : List Byte
  deriving DecidableEq, Repr

/-- What a prefix of the log amounts to. -/
structure History where
  flash : Mem
  /-- An application page was erased or programmed. -/
  touched : Bool := false
  /-- The image validated last. -/
  image : Option Image := none
  /-- The images whose completion has started. -/
  completing : List Image := []

def History.act (h : History) : Act → History
  | .op o => { h with
      flash := o.apply h.flash
      touched := h.touched || o.start < bootloaderSettingsAddress }
  | .validated _ start bytes => { h with image := some ⟨start, bytes⟩ }
  | .completing _ => { h with completing := h.completing ++ h.image.toList }
  | .committed _ => h
  | .copyBl => h

def history (m₀ : Mem) (log : List Act) : History := log.foldl History.act { flash := m₀ }

/-- The image is in flash. -/
def Image.HeldBy (img : Image) (m : Mem) : Prop := slice m img.start img.bytes.length = img.bytes

/-- A complete record in flash gives the image's size and CRC. -/
def Image.Recorded (img : Image) (m : Mem) : Prop :=
  (readSettings m).bank0 = bankValidApp → (readSettings m).integrityValid = true →
    (readSettings m).bank0Size = img.bytes.length ∧ (readSettings m).bank0Crc = crc16 img.bytes

/-- If this flash boots, nothing was touched or an image being completed is in place. -/
def Safe (chip : Chip) (h : History) : Prop :=
  bootloaderAppIsValid chip h.flash = true → h.touched = false ∨
    ∃ img ∈ h.completing, img.HeldBy h.flash ∧ img.Recorded h.flash

variable {chip : Chip} {m m₀ : Mem} {log acts : List Act} {h : History}

theorem history_append (m₀ : Mem) (log acts : List Act) :
    history m₀ (log ++ acts) = acts.foldl History.act (history m₀ log) := List.foldl_append

theorem foldl_act_ops (h : History) (ops : List FlashOp) :
    ((ops.map Act.op).foldl History.act h).flash = replay ops h.flash ∧
      ((ops.map Act.op).foldl History.act h).image = h.image ∧
      ((ops.map Act.op).foldl History.act h).completing = h.completing := by
  induction ops generalizing h with
  | nil => exact ⟨rfl, rfl, rfl⟩
  | cons o ops ih => exact ih (h.act (.op o))

/-- Every prefix of the log is safe. -/
def SafeLog (chip : Chip) (m₀ : Mem) (log : List Act) : Prop :=
  ∀ k, Safe chip (history m₀ (log.take k))

theorem SafeLog.append (h : SafeLog chip m₀ log)
    (hacts : ∀ j, Safe chip ((acts.take j).foldl History.act (history m₀ log))) :
    SafeLog chip m₀ (log ++ acts) := by
  intro k
  by_cases hk : k ≤ log.length
  · rw [List.take_append_of_le_length hk]
    exact h k
  · rw [List.take_append, List.take_of_length_le (by omega), history_append]
    exact hacts _

theorem SafeLog.last (h : SafeLog chip m₀ log) : Safe chip (history m₀ log) := by
  have := h log.length
  rwa [List.take_length] at this

/-! ## The marker -/

/-- `bank_0` is zero. -/
def MarkerClear (m : Mem) : Prop :=
  m bootloaderSettingsAddress = 0 ∧ m (bootloaderSettingsAddress + 1) = 0

theorem MarkerClear.not_valid (h : MarkerClear m) : bootloaderAppIsValid chip m = false := by
  have hbank : (readSettings m).bank0 = 0 := by
    simp only [readSettings, readHalf, h.1, h.2]
    decide
  simp [bootloaderAppIsValid, hbank, bankValidApp]

theorem MarkerClear.safe (hm : MarkerClear h.flash) : Safe chip h := by
  intro hv
  rw [hm.not_valid] at hv
  cases hv

/-- Operations on user flash leave the marker alone. -/
theorem MarkerClear.replay {ops : List FlashOp} (h : MarkerClear m) (hops : ∀ op ∈ ops, UserOp op) :
    MarkerClear (replay ops m) := by
  have hspare : ∀ x, bootloaderSettingsAddress ≤ x → Spares ops x := by
    intro x hx op hop
    have hstop := (hops op hop).stop_le
    have he : userFlashEnd = 0xEA000 := rfl
    have hs : bootloaderSettingsAddress = 0xFF000 := rfl
    omega
  unfold MarkerClear
  rw [replay_spares (hspare _ (by omega)), replay_spares (hspare _ (by omega))]
  exact h

theorem markerClear_invalidate (m : Mem) : MarkerClear (replay invalidateAppSettings m) := by
  constructor
  · rw [invalidateAppSettings, replay_cons, replay_nil,
      FlashOp.apply_program (Nat.le_refl _) (by simp)]
    simp
  · rw [invalidateAppSettings, replay_cons, replay_nil, FlashOp.apply_program (by omega) (by simp)]
    simp

/-! ## Sectors -/

section

variable {cfg : Config} {b : Block} {ws ws' : WriteState} {ops : List FlashOp} {committed : Bool}

/-- Whatever a sector issues is safe at every cut, if its session cleared the marker. -/
theorem AppEffect.safeLog (he : AppEffect cfg b ws m ws' ops committed)
    (hlen : b.payload.length = blockSize) (hlog : SafeLog chip m₀ log)
    (hm : (history m₀ log).flash = m)
    (hclear : ws.appSettingsInvalidated = true → MarkerClear m) :
    SafeLog chip m₀ (log ++ ops.map .op) := by
  refine hlog.append fun j => ?_
  rw [← List.map_take]
  have hflash := (foldl_act_ops (history m₀ log) (ops.take j)).1
  rw [hm] at hflash
  rcases he.ops_user hlen with ⟨rfl, -, -⟩ | huser
  · cases j with
    | zero => exact hlog.last
    | succ j =>
      apply MarkerClear.safe
      rw [hflash, List.take_of_length_le (by simp [invalidateAppSettings])]
      exact markerClear_invalidate m
  rcases he.invalidated with ⟨-, hops, hq⟩ | ⟨-, hquiet⟩
  · exfalso
    have := (huser _ (by rw [hops]; exact List.mem_singleton_self _)).stop_le
    exact absurd this (by decide)
  cases hs : ws.appSettingsInvalidated with
  | false =>
    rw [hquiet hs, List.take_nil]
    exact hlog.last
  | true =>
    apply MarkerClear.safe
    rw [hflash]
    exact (hclear hs).replay fun op hop => huser op (List.mem_of_mem_take hop)

/-- An open session that has cleared the marker keeps it cleared. -/
theorem AppEffect.markerClear (he : AppEffect cfg b ws m ws' ops committed)
    (hlen : b.payload.length = blockSize)
    (hclear : ws.appSettingsInvalidated = true → MarkerClear m)
    (hs : ws'.appSettingsInvalidated = true) : MarkerClear (replay ops m) := by
  rcases he.ops_user hlen with ⟨rfl, -, -⟩ | huser
  · exact markerClear_invalidate m
  rcases he.invalidated with ⟨-, hops, -⟩ | ⟨heq, -⟩
  · rw [hops]
    exact markerClear_invalidate m
  · rw [heq] at hs
    exact (hclear hs).replay huser

end

/-! ## The invariant -/

/-- A validated session: every block is written and the image is the one noted. -/
structure Full (ws : WriteState) (m : Mem) (image : Option Image) : Prop where
  started : 0 < ws.numBlocks
  complete : ws.numBlocks ≤ ws.numWritten
  end_le : ws.appStart + ws.appSize ≤ userFlashEnd
  image_eq : image = some ⟨ws.appStart, slice m ws.appStart ws.appSize⟩

structure MscInv (chip : Chip) (m₀ : Mem) (s : Msc) (n : Nvm) : Prop where
  mem_eq : (history m₀ n.log).flash = n.mem
  safe : SafeLog chip m₀ n.log
  counters : Counters s.ws
  kind : s.ws.updateKind ≠ .bootloader
  cleared : s.ws.appSettingsInvalidated = true → s.ws.appValidated = false → MarkerClear n.mem
  full : s.ws.appValidated = true → Full s.ws n.mem (history m₀ n.log).image

variable {cfg : MscConfig} {s : Msc} {n : Nvm}

theorem mscInv_init (chip : Chip) (c : FlashCache) (m₀ : Mem) :
    MscInv chip m₀ {} ⟨c, m₀, []⟩ where
  mem_eq := rfl
  safe := fun k => by rw [List.take_nil]; exact fun _ => .inl rfl
  counters := counters_fresh
  kind := by decide
  cleared := fun h => by cases h
  full := fun h => by cases h

/-- Only the session state matters to the invariant. -/
theorem MscInv.congr (hI : MscInv chip m₀ s n) {s' : Msc} {n' : Nvm} (hw : s'.ws = s.ws)
    (hmem : n'.mem = n.mem) (hlog : n'.log = n.log) : MscInv chip m₀ s' n' := by
  obtain ⟨h1, h2, h3, h4, h5, h6⟩ := hI
  constructor
  · rw [hlog, hmem]; exact h1
  · rw [hlog]; exact h2
  · rw [hw]; exact h3
  · rw [hw]; exact h4
  · rw [hw, hmem]; exact h5
  · rw [hw, hmem, hlog]; exact h6

theorem AppEffect.kind_ne {ucfg : Config} {b : Block} {ws ws' : WriteState} {ops : List FlashOp}
    {committed : Bool} (he : AppEffect ucfg b ws m ws' ops committed)
    (hk : ws.updateKind ≠ .bootloader) : ws'.updateKind ≠ .bootloader := by
  rcases he.kind with h | ⟨-, h⟩
  · rw [h]
    exact hk
  · rw [h]
    decide

/-- What the log of a sector amounts to. -/
theorem store_eq (ws : WriteState) (out : Outcome) (n : Nvm) :
    (out.store ws n).mem = replay out.ops n.mem ∧
      (out.store ws n).log = n.log ++ out.ops.map .op ++
        if !ws.appValidated && out.ws.appValidated then
          [.validated .uf2 out.ws.appStart
            (slice (replay out.ops n.mem) out.ws.appStart out.ws.appSize)]
        else [] := by
  unfold Outcome.store
  split
  · exact ⟨rfl, rfl⟩
  · exact ⟨rfl, (List.append_nil _).symm⟩

theorem SafeLog.note {a : Act} (h : SafeLog chip m₀ log)
    (ha : Safe chip ((history m₀ log).act a)) : SafeLog chip m₀ (log ++ [a]) := by
  refine h.append fun j => ?_
  cases j with
  | zero => exact h.last
  | succ j => rw [List.take_of_length_le (by simp)]; exact ha

theorem MscInv.sector {ucfg : Config} {b : Block} {out : Outcome} (hI : MscInv chip m₀ s n)
    (he : AppEffect ucfg b s.ws n.mem out.ws out.ops out.committed)
    (hlen : b.payload.length = blockSize) :
    MscInv chip m₀ { s with ws := out.ws } (out.store s.ws n) := by
  obtain ⟨hmem, hlog⟩ := store_eq s.ws out n
  cases hv : s.ws.appValidated with
  | true =>
    -- nothing is accepted any more
    have hfull := hI.full hv
    obtain ⟨hops, kind, ab, -, hws⟩ := he.of_full hI.counters hfull.started hfull.complete
    rw [hv, hops] at hlog
    rw [hops] at hmem
    have hlog' : (out.store s.ws n).log = n.log := by simpa using hlog
    refine ⟨?_, ?_, hI.counters.effect he, he.kind_ne hI.kind, ?_, ?_⟩
    · rw [hlog', hmem]; exact hI.mem_eq
    · rw [hlog']; exact hI.safe
    · intro _ hnv
      simp [hws, hv] at hnv
    · intro _
      rw [hlog', hmem, hws]
      exact ⟨hfull.started, hfull.complete, hfull.end_le, hfull.image_eq⟩
  | false =>
    have hclear := fun hs => hI.cleared hs hv
    have hsafe := he.safeLog hlen hI.safe hI.mem_eq hclear
    obtain ⟨hflash, himage, -⟩ := foldl_act_ops (history m₀ n.log) out.ops
    rw [← history_append] at hflash himage
    rw [hI.mem_eq] at hflash
    rcases he.verdict with ⟨h1, -, -⟩ | ⟨hval, -, hpos, hdone, stop, hfin, hstart⟩
    · rw [h1, hv] at hlog
      have hlog' : (out.store s.ws n).log = n.log ++ out.ops.map .op := by simpa using hlog
      refine ⟨?_, ?_, hI.counters.effect he, he.kind_ne hI.kind, ?_, ?_⟩
      · rw [hlog', hmem]; exact hflash
      · rw [hlog']; exact hsafe
      · intro hs _
        rw [hmem]
        exact he.markerClear hlen hclear hs
      · intro hval
        rw [h1, hv] at hval
        cases hval
    · rw [hv, hval] at hlog
      refine ⟨?_, ?_, hI.counters.effect he, he.kind_ne hI.kind, ?_, ?_⟩
      · rw [hlog, hmem, history_append]; exact hflash
      · rw [hlog]
        exact hsafe.note hsafe.last
      · intro _ hnv
        rw [hval] at hnv
        cases hnv
      · intro _
        refine ⟨hpos, hdone, ?_, ?_⟩
        · rw [hstart]
          exact (applicationFinalize_end hfin).1
        · rw [hlog, hmem, history_append]
          rfl

/-! ## Completion -/

theorem appCrcLoop_eq {start size fuel offset : Nat} {crc : BitVec 16} (hle : offset ≤ size)
    (hfuel : size - offset ≤ fuel) (hpos : 0 < size)
    (hcrc : 0 < offset → crc = crc16 (slice m start offset)) :
    appCrcLoop m start size fuel offset crc = crc16 (slice m start size) := by
  induction fuel generalizing offset crc with
  | zero =>
    obtain rfl : offset = size := by omega
    exact hcrc hpos
  | succ fuel ih =>
    unfold appCrcLoop
    by_cases hdone : size ≤ offset
    · obtain rfl : offset = size := by omega
      rw [if_pos hdone]
      exact hcrc hpos
    rw [if_neg hdone]
    have hchunk : 0 < min (size - offset) codePageSize :=
      Nat.lt_min.mpr ⟨by omega, by decide⟩
    have hmin := Nat.min_le_left (size - offset) codePageSize
    refine ih (by omega) (by omega) fun _ => ?_
    by_cases h0 : offset = 0
    · subst h0
      simp only [if_true, Nat.add_zero, Nat.zero_add]
      rfl
    · rw [if_neg h0, slice_add, crc16_append, hcrc (by omega)]

/-- The record of a complete application. -/
def appSettings (img : Image) : Settings where
  bank0 := bankValidApp
  bank0Crc := crc16 img.bytes
  bank1 := bankInvalidApp
  bank0Size := img.bytes.length

/-- The image a validated session has in flash. -/
def sessionImage (ws : WriteState) (m : Mem) : Image :=
  ⟨ws.appStart, slice m ws.appStart ws.appSize⟩

theorem updateProcess_complete (n : Nvm) {ws : WriteState} (hpos : 0 < ws.appSize) :
    bootloaderDfuUpdateProcess n .uf2 (appUpdateStatus ws m) =
      (n.run (bootloaderSettingsSave (appSettings (sessionImage ws m)))).note
        (.committed .uf2) := by
  have hcrc : appCrcLoop m ws.appStart ws.appSize ws.appSize 0 0 =
      crc16 (slice m ws.appStart ws.appSize) :=
    appCrcLoop_eq (Nat.zero_le _) (by omega) hpos (by omega)
  unfold appUpdateStatus
  rw [hcrc]
  simp [bootloaderDfuUpdateProcess, updateSettings, Nvm.saveSettings, appSettings, sessionImage]

theorem appSettings_fits {img : Image} (h : img.bytes.length < 2 ^ 32) : (appSettings img).Fits where
  bank0Size := h
  sdImageSize := Nat.two_pow_pos 32
  blImageSize := Nat.two_pow_pos 32
  appImageSize := Nat.two_pow_pos 32
  sdImageStart := Nat.two_pow_pos 32

/-- Every cut of the save leaves a record that is not complete or describes the image. -/
theorem Image.recorded_cut (img : Image) (hfit : img.bytes.length < 2 ^ 32) (m : Mem) {k : Nat}
    (hk : 0 < k) :
    img.Recorded (replay ((bootloaderSettingsSave (appSettings img)).take k) m) := by
  intro hbank hint
  rcases bootloaderSettingsSave_cut (appSettings_fits hfit) m k with h | h | h | h
  · omega
  · rw [h] at hbank
    exact absurd hbank (by decide)
  · rw [h] at hint
    cases hint
  · rw [h]
    exact ⟨rfl, rfl⟩

/-- A cut save leaves the bytes below the settings page. -/
theorem Image.heldBy_cut {img : Image} {st : Settings} (h : img.HeldBy m)
    (hend : img.start + img.bytes.length ≤ userFlashEnd) (k : Nat) :
    img.HeldBy (replay ((bootloaderSettingsSave st).take k) m) := by
  unfold HeldBy
  rw [slice_congr, h]
  intro x _ hx
  refine replay_spares ((bootloaderSettingsSave_spares st ?_).take k) m
  have he : userFlashEnd = 0xEA000 := rfl
  have hs : bootloaderSettingsAddress = 0xFF000 := rfl
  omega

theorem Safe.completing {h₀ : History} (h : Safe chip h₀) (t : Transport) :
    Safe chip (h₀.act (.completing t)) := by
  intro hv
  rcases h hv with hq | ⟨img, himg, hheld⟩
  · exact .inl hq
  · exact .inr ⟨img, List.mem_append_left _ himg, hheld⟩

theorem MscInv.aborts (hI : MscInv chip m₀ s n) :
    MscInv chip m₀ { s with ws := { s.ws with aborted := true } } n where
  mem_eq := hI.mem_eq
  safe := hI.safe
  counters := { hI.counters with }
  kind := hI.kind
  cleared := hI.cleared
  full := fun hv => ⟨(hI.full hv).1, (hI.full hv).2, (hI.full hv).3, (hI.full hv).4⟩

/-- The log of a completion, cut anywhere. -/
theorem MscInv.safe_complete (hI : MscInv chip m₀ s n) (hv : s.ws.appValidated = true) :
    SafeLog chip m₀ (n.log ++ [.completing .uf2] ++
      (bootloaderSettingsSave (appSettings (sessionImage s.ws n.mem))).map .op) := by
  have hfull := hI.full hv
  have hstart : SafeLog chip m₀ (n.log ++ [.completing .uf2]) :=
    hI.safe.note (hI.safe.last.completing .uf2)
  refine hstart.append fun j => ?_
  rw [← List.map_take]
  set h := history m₀ (n.log ++ [.completing .uf2]) with hh
  have hmem : h.flash = n.mem := by
    rw [hh, history_append]
    exact hI.mem_eq
  have himg : sessionImage s.ws n.mem ∈ h.completing := by
    rw [hh, history_append]
    refine List.mem_append_right _ ?_
    rw [hfull.image_eq]
    exact List.mem_singleton_self _
  have hend := hfull.end_le
  have hlen : (sessionImage s.ws n.mem).bytes.length = s.ws.appSize := slice_length _ _ _
  obtain ⟨hflash, -, hcomp⟩ := foldl_act_ops h ((bootloaderSettingsSave
    (appSettings (sessionImage s.ws n.mem))).take j)
  rcases Nat.eq_zero_or_pos j with rfl | hj
  · exact hstart.last
  intro _
  refine .inr ⟨_, hcomp ▸ himg, ?_, ?_⟩
  · rw [hflash, hmem]
    refine Image.heldBy_cut ?_ (by rw [hlen]; exact hend) j
    simp [Image.HeldBy, sessionImage]
  · rw [hflash, hmem]
    refine Image.recorded_cut _ ?_ n.mem hj
    have he : userFlashEnd = 0xEA000 := rfl
    omega

/-- A completion keeps the application's bytes. -/
theorem slice_save {st : Settings} {start size : Nat} (hend : start + size ≤ userFlashEnd) :
    slice (replay (bootloaderSettingsSave st) m) start size = slice m start size := by
  refine slice_congr fun x _ hx => replay_spares (bootloaderSettingsSave_spares _ ?_) _
  have he : userFlashEnd = 0xEA000 := rfl
  have hs : bootloaderSettingsAddress = 0xFF000 := rfl
  omega

theorem MscInv.complete (hI : MscInv chip m₀ s n) :
    MscInv chip m₀ (completeAppUpdate s n).1 (completeAppUpdate s n).2 := by
  unfold completeAppUpdate
  split
  · exact hI.aborts
  rename_i hgo
  simp only [Bool.or_eq_true, Bool.not_eq_true', decide_eq_true_eq, not_or,
    Bool.not_eq_false] at hgo
  obtain ⟨hv, hsize⟩ := hgo
  have hfull := hI.full hv
  have hsafe := hI.safe_complete hv
  obtain ⟨hflash, himage, -⟩ := foldl_act_ops (history m₀ (n.log ++ [.completing .uf2]))
    (bootloaderSettingsSave (appSettings (sessionImage s.ws n.mem)))
  rw [← history_append] at hflash himage
  have hmem : (history m₀ (n.log ++ [.completing .uf2])).flash = n.mem := by
    rw [history_append]
    exact hI.mem_eq
  rw [updateProcess_complete _ (Nat.pos_of_ne_zero hsize)]
  refine ⟨?_, hsafe.note hsafe.last, hI.counters, hI.kind, ?_, fun _ => ?_⟩
  · simp only [Nvm.note, Nvm.run]
    rw [history_append]
    exact hflash.trans (by rw [hmem])
  · intro _ hnv
    rw [hv] at hnv
    cases hnv
  · simp only [Nvm.note, Nvm.run]
    refine ⟨hfull.started, hfull.complete, hfull.end_le, ?_⟩
    rw [slice_save hfull.end_le, history_append]
    refine himage.trans ?_
    rw [history_append]
    exact hfull.image_eq

theorem MscInv.completePending (hI : MscInv chip m₀ s n) :
    MscInv chip m₀ (completePending s n).1 (completePending s n).2 := by
  have htaken : MscInv chip m₀ (takePendingAppCompletion s).2 n := hI.congr rfl rfl rfl
  unfold Uf2.completePending
  split
  · exact htaken.complete
  · exact htaken

theorem MscInv.reset (hI : MscInv chip m₀ s n) :
    MscInv chip m₀ (uf2WriteSessionReset s n).1 (uf2WriteSessionReset s n).2 := by
  unfold uf2WriteSessionReset
  rw [if_neg hI.kind]
  exact {
    mem_eq := hI.mem_eq
    safe := hI.safe
    counters := counters_fresh
    kind := fun h => by cases h
    cleared := fun h => by cases h
    full := fun h => by cases h }

/-! ## Events -/

/-- No sector of the event is a block of the bootloader family. -/
def MscEvent.noBootloader (cfg : MscConfig) : MscEvent → Bool
  | .write10 _ _ sectors => sectors.all fun sec =>
      !isUf2Block sec || cfg.uf2.kindOf sec.block.familyId != some .bootloader
  | _ => true

theorem kindOf_ne_of_noBootloader {sectors : List Sector}
    (h : (sectors.all fun sec => !isUf2Block sec ||
      cfg.uf2.kindOf sec.block.familyId != some .bootloader) = true) {sec : Sector}
    (hsec : sec ∈ sectors) (huf2 : isUf2Block sec = true) :
    cfg.uf2.kindOf sec.block.familyId ≠ some .bootloader := by
  have := List.all_eq_true.mp h sec hsec
  simpa [huf2] using this

theorem MscInv.write10 {sectors : List Sector} (hI : MscInv chip m₀ s n)
    (hok : ∀ sec ∈ sectors, isUf2Block sec = true →
      cfg.uf2.kindOf sec.block.familyId ≠ some .bootloader) (lba : Nat) :
    MscInv chip m₀ (tudMscWrite10 cfg lba sectors s n).1 (tudMscWrite10 cfg lba sectors s n).2 := by
  induction sectors generalizing lba s n with
  | nil => exact hI
  | cons sec sectors ih =>
    unfold tudMscWrite10
    rcases writeBlock_effect cfg.uf2 lba sec n.cache n.mem hI.counters.toDims with
      ⟨out, hout, ⟨huf2, hboot, -⟩ | he⟩ | ⟨hout, -⟩
    · exact absurd hboot (hok sec List.mem_cons_self huf2)
    · rw [hout]
      have hI' : MscInv chip m₀ { s with
          ws := out.ws
          accepted := if out.committed then s.accepted ++ [sec.block] else s.accepted }
          (out.store s.ws n) := (hI.sector he (payload_length sec)).congr rfl rfl rfl
      simp only
      split
      · exact hI'
      · exact ih hI' (fun sec hsec => hok sec (List.mem_cons_of_mem _ hsec)) (lba + 1)
    · rw [hout]
      exact hI.congr rfl rfl rfl

theorem MscInv.step {s : Msc × Nvm} {e : MscEvent} (hI : MscInv chip m₀ s.1 s.2)
    (hok : e.noBootloader cfg = true) : MscInv chip m₀ (mscStep cfg s e).1 (mscStep cfg s e).2 := by
  unfold mscStep
  split
  · exact hI
  cases e with
  | write10 lba offset sectors =>
    simp only [mscHandle]
    split
    · exact hI
    · exact hI.write10 (fun sec => kindOf_ne_of_noBootloader hok) lba
  | write10Complete =>
    simp only [mscHandle, tudMscWrite10Complete]
    split_ifs with _ _ hk
    · exact hI.congr rfl rfl rfl
    · exact absurd hk hI.kind
    · exact absurd hk hI.kind
    · exact hI.congr rfl rfl rfl
    · exact hI
  | scsiComplete cmd =>
    simp only [mscHandle, tudMscScsiComplete]
    split_ifs
    · exact hI
    · exact hI.completePending.reset
    · exact hI.completePending
    · exact hI.reset
    · exact hI
  | startStop start loadEject =>
    simp only [mscHandle, tudMscStartStop]
    split_ifs
    · exact hI.congr rfl rfl rfl
    · exact hI.congr rfl rfl rfl
    · exact hI.reset
    · exact hI
  | commandBegin => exact hI.congr rfl rfl rfl
  | commandComplete => exact hI.congr rfl rfl rfl
  | busReset => exact hI.congr rfl rfl rfl
  | timer idleTicks =>
    simp only [mscHandle, appCompletionTimerHandler]
    split_ifs
    · exact hI
    · exact hI
    · exact hI
    · exact hI.completePending
  | mount => exact hI.reset
  | umount => exact hI.completePending.reset

/-- A reset anywhere in a session finds flash that does not boot, an untouched
application, or a validated image whose completion has started. -/
theorem msc_interrupted_safe {c : FlashCache} {es : List MscEvent} {s : Msc × Nvm}
    (hrun : Reach (mscStep cfg) (fun _ e => e.noBootloader cfg = true) ({}, ⟨c, m₀, []⟩) es s) (k : Nat) :
    Safe chip (history m₀ (s.2.log.take k)) := by
  have hI : MscInv chip m₀ s.1 s.2 := hrun.invariant (I := fun s => MscInv chip m₀ s.1 s.2)
    (mscInv_init chip c m₀) fun s e hI hok => MscInv.step hI hok
  exact hI.safe k

def sampleMscConfig : MscConfig where
  uf2 := sampleConfig
  exitOnEject := false
  completionIdleTicks := 32768
  timerMinTimeoutTicks := 5

/-- The one-block image, copied, then an idle second. -/
def copyRun : List MscEvent :=
  List.replicate 3 (.write10 100 0 [imageSector]) ++ [.write10Complete, .timer 40000]

/-- The copied image boots, and with it what the session guarantees. -/
theorem msc_interrupted_copyRun :
    let s := copyRun.foldl (mscStep sampleMscConfig) ({}, ⟨{}, sdFlash, []⟩)
    bootloaderAppIsValid sampleConfig.chip (history sdFlash (s.2.log.take 100)).flash = true ∧
      Safe sampleConfig.chip (history sdFlash (s.2.log.take 100)) := by
  have hrun : Reach (mscStep sampleMscConfig) (fun _ e => e.noBootloader sampleMscConfig = true)
      ({}, ⟨{}, sdFlash, []⟩) copyRun
      (copyRun.foldl (mscStep sampleMscConfig) ({}, ⟨{}, sdFlash, []⟩)) :=
    .of_allowed (fun _ e => e.noBootloader sampleMscConfig) (fun _ _ h => h) (by decide +kernel)
  exact ⟨by decide +kernel, msc_interrupted_safe hrun 100⟩

end OtaFix.Uf2

import OtaFix.Pointer
import OtaFix.SettingsSeal

/-!
# The bound of the live application

`ota_delta_live_app_fits_below` as it reads flash, a byte at a time. The scan for the trailer ends
and stays below the limit. An application that fits has its lowest trailer, the body that hashes
to it and the bytes under the CRC of the next boot all below the limit.
-/

namespace OtaFix

open Lib Prog

/-! ## The reads -/

/-- `APP_BASE`. -/
def appBaseAt : Prog LoadRes Nat := do
  let magic ← readLe32At sdMagicAddr
  if magic = sdMagicNumber then readLe32At sdSizeAddr else pure mbrSize

/-- The marker and the length behind it. -/
def endfAt (base off : Nat) : Prog LoadRes Bool := do
  let e ← loadSlice (add32 base off) 8
  pure (e.take 4 = endf && wordAt e 4 = off)

/-- The loop of `find_body_len`; `none` if it has not ended after the given turns. -/
def findBodyLenLoop (base appLimit : Nat) : Nat → Nat → Prog LoadRes (Option (Option Nat))
  | 0, _ => pure none
  | turns + 1, off =>
    if add32 off endfLen ≤ sub32 appLimit base then do
      if ← endfAt base off then pure (some (some off))
      else findBodyLenLoop base appLimit turns (add32 off 1)
    else pure (some none)

/-- `find_body_len`. -/
def findBodyLenAt (base appLimit turns : Nat) : Prog LoadRes (Option (Option Nat)) :=
  if appLimit ≤ base then pure (some none) else findBodyLenLoop base appLimit turns 0

/-- From the found trailer on. -/
def trailerFitsAt (base limit bodyLen : Nat) : Prog LoadRes Bool :=
  if bodyLen = 0 ∨ sub32 (sub32 limit base) endfLen < bodyLen then pure false
  else do
    let expected ← loadSlice (add32 (add32 base bodyLen) 8) 8
    let body ← loadSlice base bodyLen
    if (sha256 body).take 8 ≠ expected then pure false
    else do
      let record ← loadSlice bootloaderSettingsAddress 32
      let s := Settings.ofBytes record
      let crcBound := s.integrityValid && s.bank0 = bankValidApp && s.bank0Size ≠ 0
      pure (!crcBound ||
        (add32 bodyLen endfLen ≤ s.bank0Size && s.bank0Size ≤ sub32 limit base))

/-- `ota_delta_live_app_fits_below`. -/
def liveAppFitsBelowAt (limit turns : Nat) : Prog LoadRes (Option Bool) := do
  let base ← appBaseAt
  if limit ≤ add32 base endfLen then pure (some false)
  else do
    match ← findBodyLenAt base limit turns with
    | none => pure none
    | some none => pure (some false)
    | some (some bodyLen) => do
      let fits ← trailerFitsAt base limit bodyLen
      pure (some fits)

/-! ## Their values -/

section Values

variable {f : Mem} {P : Nat → Prop} {base limit : Nat}

/-- The bytes of the SoftDevice's information that give the boundary. -/
def InSdInfo (a : Nat) : Prop := sdMagicAddr ≤ a ∧ a < sdSizeAddr + 4

/-- The flash between the application's start and the limit. -/
def BelowLimit (base limit a : Nat) : Prop := base ≤ a ∧ a < limit

def InRecord (a : Nat) : Prop := bootloaderSettingsAddress ≤ a ∧ a < bootloaderSettingsAddress + 32

theorem loads_readLe32 {a : Nat} (h : ∀ x, a ≤ x → x < a + 4 → P x) :
    Loads f P (readLe32At a) (readWord f a) := by
  unfold readWord readLe32At
  apply Loads.load (h _ (by omega) (by omega))
  apply Loads.load (h _ (by omega) (by omega))
  apply Loads.load (h _ (by omega) (by omega))
  apply Loads.load (h _ (by omega) (by omega))
  exact .ret _

theorem loads_appBase : Loads f InSdInfo appBaseAt (dfuBank0RegionStart f) := by
  have hmagic : sdMagicAddr = 0x3004 := rfl
  have hsize : sdSizeAddr = 0x3008 := rfl
  unfold appBaseAt dfuBank0RegionStart isSdExisted
  apply Loads.bind (loads_readLe32 fun x h1 h2 => by unfold InSdInfo; omega)
  apply Loads.ite_iff decide_eq_true_iff.symm
  · intro _
    exact loads_readLe32 fun x h1 h2 => by unfold InSdInfo; omega
  · intro _
    exact .ret _

/-- What a turn of the scan sees. -/
def endfHere (f : Mem) (base off : Nat) : Bool :=
  slice f (add32 base off) 4 = endf && readWord f (add32 base off + 4) = off

theorem loads_endf {off : Nat} (h : ∀ x, add32 base off ≤ x → x < add32 base off + 8 → P x) :
    Loads f P (endfAt base off) (endfHere f base off) := by
  unfold endfAt endfHere
  apply Loads.bind (loads_slice h)
  rw [slice_take (by omega), wordAt_slice (by omega)]
  exact .ret _

/-- The scan on the flash it reads. -/
def bodyScan (f : Mem) (base limit : Nat) : Nat → Nat → Option (Option Nat)
  | 0, _ => none
  | turns + 1, off =>
    if add32 off endfLen ≤ sub32 limit base then
      if endfHere f base off then some (some off) else bodyScan f base limit turns (add32 off 1)
    else some none

/-- `I` is what is known of the counter. -/
theorem loads_bodyScan {I : Nat → Prop} {turns off : Nat} (hoff : I off)
    (h : ∀ off, I off → add32 off endfLen ≤ sub32 limit base →
      (∀ x, add32 base off ≤ x → x < add32 base off + 8 → P x) ∧ I (add32 off 1)) :
    Loads f P (findBodyLenLoop base limit turns off) (bodyScan f base limit turns off) := by
  induction turns generalizing off with
  | zero => exact .ret _
  | succ turns ih =>
    unfold findBodyLenLoop bodyScan
    apply Loads.ite
    · intro hin
      apply Loads.bind (loads_endf (h off hoff hin).1)
      exact Loads.ite (fun _ => .ret _) fun _ => ih (h off hoff hin).2
    · exact fun _ => .ret _

/-- What follows the scan, on the flash it reads. -/
def trailerFits (f : Mem) (base limit bodyLen : Nat) : Bool :=
  if bodyLen = 0 ∨ limit - base - endfLen < bodyLen then false
  else if (sha256 (slice f base bodyLen)).take 8 ≠ slice f (base + bodyLen + 8) 8 then false
  else
    let s := readSettings f
    let crcBound := s.integrityValid && s.bank0 = bankValidApp && s.bank0Size ≠ 0
    !crcBound || (bodyLen + endfLen ≤ s.bank0Size && s.bank0Size ≤ limit - base)

theorem loads_trailerFits {bodyLen : Nat} (hlimit : limit < 2 ^ 32) (hroom : base + endfLen ≤ limit)
    (hbelow : ∀ x, BelowLimit base limit x → P x) (hrecord : ∀ x, InRecord x → P x) :
    Loads f P (trailerFitsAt base limit bodyLen) (trailerFits f base limit bodyLen) := by
  have hendf : endfLen = 56 := rfl
  have hsub : sub32 limit base = limit - base := sub32_eq hlimit (by omega)
  have hsub' : sub32 (limit - base) endfLen = limit - base - endfLen :=
    sub32_eq (by omega) (by omega)
  unfold trailerFitsAt trailerFits
  rw [hsub, hsub']
  apply Loads.ite (fun _ => .ret _)
  intro hbody
  rw [not_or, Nat.not_lt] at hbody
  rw [add32_eq (by omega : base + bodyLen < 2 ^ 32), add32_eq (by omega : base + bodyLen + 8 < _),
    add32_eq (by omega : bodyLen + endfLen < 2 ^ 32)]
  apply Loads.bind
  · exact loads_slice fun x h1 h2 => hbelow x (by unfold BelowLimit; omega)
  apply Loads.bind
  · exact loads_slice fun x h1 h2 => hbelow x (by unfold BelowLimit; omega)
  apply Loads.ite (fun _ => .ret _)
  intro _
  apply Loads.bind
  · exact loads_slice fun x h1 h2 => hrecord x ⟨h1, h2⟩
  simp only
  rw [← readSettings_ofBytes]
  exact .ret _

/-! ## The scan -/

variable {turns off r : Nat}

/-- A trailer that the scan returns describes itself, no place before it does, and the first turn
had room for a trailer. -/
theorem bodyScan_found (hoff : off < 2 ^ 32) (h : bodyScan f base limit turns off = some (some r)) :
    endfHere f base r = true ∧ (off ≤ r → ∀ x, off ≤ x → x < r → endfHere f base x = false) ∧
      add32 off endfLen ≤ sub32 limit base := by
  induction turns generalizing off with
  | zero => cases h
  | succ turns ih =>
    unfold bodyScan at h
    by_cases hin : add32 off endfLen ≤ sub32 limit base
    · rw [if_pos hin] at h
      by_cases hhere : endfHere f base off = true
      · rw [if_pos hhere] at h
        obtain rfl := Option.some.inj (Option.some.inj h)
        exact ⟨hhere, fun _ x h1 h2 => absurd h1 (by omega), hin⟩
      · rw [if_neg hhere] at h
        have hnext : add32 off 1 < 2 ^ 32 := Nat.mod_lt _ (by omega)
        obtain ⟨hfound, hlow, -⟩ := ih hnext h
        refine ⟨hfound, fun hle x h1 h2 => ?_, hin⟩
        have hne : off ≠ r := by
          rintro rfl
          exact hhere hfound
        -- beyond `off` the counter has not wrapped
        have hsucc : add32 off 1 = off + 1 ∨ r < off := by
          by_cases hlast : off + 1 < 2 ^ 32
          · exact .inl (add32_eq hlast)
          · right
            have hr : r < 2 ^ 32 := by
              have hword := (Bool.and_eq_true _ _ ▸ hfound).2
              rw [← of_decide_eq_true hword]
              exact readWord_lt _ _
            omega
        rcases hsucc with hsucc | hback
        · rw [hsucc] at hlow
          rcases Nat.eq_or_lt_of_le h1 with rfl | hlt
          · exact Bool.eq_false_iff.2 hhere
          · exact hlow (by omega) x hlt h2
        · omega
    · rw [if_neg hin] at h
      cases h

/-- The scan as a search of the places with room for a trailer. -/
theorem bodyScan_exact (hbase : base ≤ limit) (hlimit : limit < 2 ^ 32)
    (hspan : limit - base < 2 ^ 32 - 1) (hroom : off + endfLen ≤ limit - base + 1 ∨ off = 0)
    (hturns : limit - base < turns + off) :
    bodyScan f base limit turns off =
      some ((List.range' off (limit - base + 1 - endfLen - off)).find? fun off =>
        slice f (base + off) 4 = endf && readWord f (base + off + 4) = off) := by
  have hendf : endfLen = 56 := rfl
  have hsub : sub32 limit base = limit - base := sub32_eq hlimit hbase
  induction turns generalizing off with
  | zero => omega
  | succ turns ih =>
    have hnowrap : add32 off endfLen = off + endfLen := add32_eq (by omega)
    unfold bodyScan
    rw [hsub, hnowrap]
    by_cases hin : off + endfLen ≤ limit - base
    · have hnext : add32 off 1 = off + 1 := add32_eq (by omega)
      have hplace : add32 base off = base + off := add32_eq (by omega)
      have hcount : limit - base + 1 - endfLen - off =
          limit - base + 1 - endfLen - (off + 1) + 1 := by omega
      rw [if_pos hin, hcount, List.range'_succ, List.find?_cons, hnext]
      unfold endfHere
      rw [hplace]
      cases decide (slice f (base + off) 4 = endf) && decide (readWord f (base + off + 4) = off) with
      | true => rfl
      | false => exact ih (by omega) (by omega)
    · have hcount : limit - base + 1 - endfLen - off = 0 := by omega
      rw [if_neg hin, hcount]
      rfl

/-! ## The whole check -/

/-- The check on the flash it reads; `none` if its scan has not ended. -/
def fitsValue (f : Mem) (limit turns : Nat) : Option Bool :=
  let base := dfuBank0RegionStart f
  if limit ≤ add32 base endfLen then some false
  else
    match if limit ≤ base then some none else bodyScan f base limit turns 0 with
    | none => none
    | some none => some false
    | some (some bodyLen) => some (trailerFits f base limit bodyLen)

theorem room_of_found (hlimit : limit < 2 ^ 32) (hbase : ¬ limit ≤ base)
    (h : bodyScan f base limit turns 0 = some (some r)) : base + endfLen ≤ limit := by
  have hroom := (bodyScan_found (by omega) h).2.2
  rw [sub32_eq hlimit (by omega), add32_eq (by decide)] at hroom
  omega

theorem loads_findBodyLen {I : Nat → Prop} (hzero : ¬ limit ≤ base → I 0)
    (h : ¬ limit ≤ base → ∀ off, I off → add32 off endfLen ≤ sub32 limit base →
      (∀ x, add32 base off ≤ x → x < add32 base off + 8 → P x) ∧ I (add32 off 1)) :
    Loads f P (findBodyLenAt base limit turns)
      (if limit ≤ base then some none else bodyScan f base limit turns 0) := by
  unfold findBodyLenAt
  exact Loads.ite (fun _ => .ret _) fun hbase => loads_bodyScan (hzero hbase) (h hbase)

theorem loads_liveAppFitsBelow (hlimit : limit < 2 ^ 32) (hsd : ∀ x, InSdInfo x → P x)
    (hscan : Loads f P (findBodyLenAt (dfuBank0RegionStart f) limit turns)
      (if limit ≤ dfuBank0RegionStart f then some none
        else bodyScan f (dfuBank0RegionStart f) limit turns 0))
    (hbelow : ∀ x, BelowLimit (dfuBank0RegionStart f) limit x → P x)
    (hrecord : ∀ x, InRecord x → P x) :
    Loads f P (liveAppFitsBelowAt limit turns) (fitsValue f limit turns) := by
  unfold liveAppFitsBelowAt fitsValue
  apply Loads.bind (loads_appBase.mono hsd)
  apply Loads.ite (fun _ => .ret _)
  intro _
  apply Loads.bind hscan
  by_cases hempty : limit ≤ dfuBank0RegionStart f
  · rw [if_pos hempty]
    exact .ret _
  · rw [if_neg hempty]
    cases hfound : bodyScan f (dfuBank0RegionStart f) limit turns 0 with
    | none => exact .ret _
    | some found =>
      cases found with
      | none => exact .ret _
      | some bodyLen =>
        have hroom := room_of_found hlimit hempty hfound
        exact Loads.bind (loads_trailerFits hlimit hroom hbelow hrecord) (.ret _)

/-- The places that the check may read. -/
def Readable (f : Mem) (limit a : Nat) : Prop :=
  InSdInfo a ∨ BelowLimit (dfuBank0RegionStart f) limit a ∨ InRecord a

/-- A scan over less than the whole address space stays below the limit. -/
theorem loads_findBodyLen_below (f : Mem) (turns : Nat) (hlimit : limit < 2 ^ 32)
    (hspan : limit - base < 2 ^ 32 - 1) :
    Loads f (BelowLimit base limit) (findBodyLenAt base limit turns)
      (if limit ≤ base then some none else bodyScan f base limit turns 0) := by
  have hendf : endfLen = 56 := rfl
  apply loads_findBodyLen (I := fun off => off + endfLen < 2 ^ 32)
  · intro _
    decide
  · intro hbase off hoff hin
    rw [sub32_eq hlimit (by omega), add32_eq hoff] at hin
    rw [add32_eq (by omega : base + off < 2 ^ 32), add32_eq (by omega : off + 1 < 2 ^ 32)]
    refine ⟨fun x h1 h2 => ?_, by omega⟩
    unfold BelowLimit
    omega

/-- With a turn for each place the scan ends as the search does. -/
theorem findBodyLen_eq (hlimit : limit < 2 ^ 32)
    (hspan : limit - dfuBank0RegionStart f < 2 ^ 32 - 1)
    (hturns : limit - dfuBank0RegionStart f < turns) :
    (if limit ≤ dfuBank0RegionStart f then some none
      else bodyScan f (dfuBank0RegionStart f) limit turns 0) = some (findBodyLen f limit) := by
  unfold findBodyLen
  simp only
  by_cases hbase : limit ≤ dfuBank0RegionStart f
  · rw [if_pos hbase, if_pos hbase]
  · rw [if_neg hbase, if_neg hbase,
      bodyScan_exact (by omega) hlimit hspan (.inr rfl) hturns, List.range_eq_range']
    rfl

theorem fitsValue_eq (hlimit : limit < 2 ^ 32)
    (hspan : limit - dfuBank0RegionStart f < 2 ^ 32 - 1)
    (hturns : limit - dfuBank0RegionStart f < turns) :
    fitsValue f limit turns = some (otaDeltaLiveAppFitsBelow f limit) := by
  unfold fitsValue otaDeltaLiveAppFitsBelow
  simp only
  rw [findBodyLen_eq hlimit hspan hturns]
  by_cases hshort : limit ≤ add32 (dfuBank0RegionStart f) endfLen
  · rw [if_pos hshort]
    cases findBodyLen f limit with
    | none => rfl
    | some bodyLen =>
      simp only
      rw [if_pos (.inl hshort)]
  · rw [if_neg hshort]
    cases findBodyLen f limit with
    | none => rfl
    | some bodyLen =>
      simp only [hshort, false_or]
      rfl

/-- Whenever the check has ended with a yes, the search finds the same trailer. -/
theorem fits_of_value (hlimit : limit < 2 ^ 32) (h : fitsValue f limit turns = some true) :
    ∃ bodyLen, (if limit ≤ dfuBank0RegionStart f then some none
        else bodyScan f (dfuBank0RegionStart f) limit turns 0) = some (some bodyLen) ∧
      findBodyLen f limit = some bodyLen ∧ otaDeltaLiveAppFitsBelow f limit = true := by
  have hendf : endfLen = 56 := rfl
  unfold fitsValue at h
  simp only at h
  by_cases hshort : limit ≤ add32 (dfuBank0RegionStart f) endfLen
  · rw [if_pos hshort] at h
    cases h
  rw [if_neg hshort] at h
  by_cases hbase : limit ≤ dfuBank0RegionStart f
  · rw [if_pos hbase] at h
    cases h
  rw [if_neg hbase] at h
  cases hscan : bodyScan f (dfuBank0RegionStart f) limit turns 0 with
  | none =>
    rw [hscan] at h
    cases h
  | some found =>
    rw [hscan] at h
    cases found with
    | none => cases h
    | some bodyLen =>
      have hfits := Option.some.inj h
      obtain ⟨hhere, hlow, -⟩ := bodyScan_found (by omega) hscan
      have hroom := room_of_found hlimit hbase hscan
      have hbody : bodyLen ≤ limit - dfuBank0RegionStart f - endfLen := by
        by_contra hout
        unfold trailerFits at hfits
        rw [if_pos (.inr (by omega))] at hfits
        cases hfits
      have hplace : ∀ x ≤ bodyLen, endfHere f (dfuBank0RegionStart f) x =
          (slice f (dfuBank0RegionStart f + x) 4 = endf &&
            readWord f (dfuBank0RegionStart f + x + 4) = x) := by
        intro x hx
        unfold endfHere
        rw [add32_eq (by omega)]
      have hfind : findBodyLen f limit = some bodyLen := by
        unfold findBodyLen
        simp only
        rw [if_neg hbase, List.find?_range_eq_some]
        refine ⟨(hplace _ (Nat.le_refl _)).symm.trans hhere, List.mem_range.2 (by omega), ?_⟩
        intro x hx
        rw [← hplace x (by omega), hlow (by omega) x (by omega) hx]
        rfl
      refine ⟨bodyLen, if_neg hbase, hfind, ?_⟩
      unfold otaDeltaLiveAppFitsBelow
      rw [hfind]
      simp only [hshort, false_or]
      exact hfits

end Values

/-! ## The next boot -/

/-- The bytes from the application's start that `bootloader_app_is_valid` runs its CRC over. -/
def bootCrcSize (chip : Chip) (m : Mem) : Option Nat :=
  let appAddr := dfuBank0RegionStart m
  let s := readSettings m
  let reset := readWord m (appAddr + 4)
  let legacyWithoutCrc := s.isLegacy && s.bank0Crc = 0 && s.bank0Size = 0
  if vectorValid chip m appAddr && s.bank0 = bankValidApp && s.integrityValid &&
      !legacyWithoutCrc && s.bank0Size ≠ 0 &&
      s.bank0Size ≤ sub32 bootloaderRegionStart appAddr &&
      reset - reset % 2 < add32 appAddr s.bank0Size then some s.bank0Size
  else none

/-- The CRC decides where it is run. -/
theorem bootloaderAppIsValid_crc {chip : Chip} {m : Mem} {n : Nat}
    (h : bootCrcSize chip m = some n) : bootloaderAppIsValid chip m =
      decide (crc16 (slice m (dfuBank0RegionStart m) n) = (readSettings m).bank0Crc) := by
  unfold bootCrcSize at h
  simp only at h
  split at h
  · rename_i hok
    obtain rfl := Option.some.inj h
    simp only [Bool.and_eq_true, decide_eq_true_eq] at hok
    obtain ⟨⟨⟨⟨⟨⟨hvectors, hbank⟩, hvalid⟩, -⟩, hsize⟩, hmax⟩, hreset⟩ := hok
    unfold bootloaderAppIsValid recordMatches
    simp only [hvectors, hbank, hvalid, Bool.not_true, Bool.false_eq_true, if_false, if_true,
      decide_eq_false hsize, decide_eq_false (Nat.not_lt.2 hmax),
      decide_eq_false (Nat.not_le.2 hreset), Bool.or_false, Bool.and_false]
  · cases h

/-- Elsewhere only the vectors and the record matter. -/
theorem bootloaderAppIsValid_without_crc {chip : Chip} {m : Mem} (h : bootCrcSize chip m = none) :
    bootloaderAppIsValid chip m = (vectorValid chip m (dfuBank0RegionStart m) &&
      ((readSettings m).bank0 = 0xFFFF || ((readSettings m).bank0 = bankValidApp &&
        (readSettings m).isLegacy && (readSettings m).bank0Crc = 0 &&
        (readSettings m).bank0Size = 0))) := by
  unfold bootCrcSize at h
  unfold bootloaderAppIsValid recordMatches
  simp only at h ⊢
  generalize readSettings m = s at h ⊢
  cases hvectors : vectorValid chip m (dfuBank0RegionStart m) with
  | false => rfl
  | true =>
    by_cases hbank : s.bank0 = bankValidApp
    · have hvalid : s.isLegacy = true → s.integrityValid = true := by
        intro hlegacy
        rw [Settings.integrityValid, hlegacy, Bool.true_or]
      rw [hbank, if_pos rfl]
      by_cases hsentinel : (s.isLegacy && s.bank0Crc = 0 && s.bank0Size = 0) = true
      · have hcrc := hsentinel
        simp only [Bool.and_eq_true, decide_eq_true_eq] at hcrc
        simp only [hsentinel, hvalid hcrc.1.1, Bool.not_true, Bool.false_and, Bool.false_eq_true,
          if_false, if_true, decide_true, Bool.true_and, Bool.or_true]
        exact decide_eq_true hcrc.1.2.symm
      · rw [Bool.not_eq_true] at hsentinel
        rw [hvectors, hbank, hsentinel] at h
        simp only [hsentinel, decide_true, Bool.true_and, Bool.not_false, Bool.not_true,
          Bool.false_eq_true, if_false]
        by_cases hintegrity : s.integrityValid = true
        · rw [hintegrity] at h ⊢
          by_cases hbad : s.bank0Size = 0 ∨
              sub32 bootloaderRegionStart (dfuBank0RegionStart m) < s.bank0Size ∨
              add32 (dfuBank0RegionStart m) s.bank0Size ≤
                readWord m (dfuBank0RegionStart m + 4) - readWord m (dfuBank0RegionStart m + 4) % 2
          · rw [if_neg (by decide), if_pos (by simpa [or_assoc] using hbad)]
            rfl
          · rw [not_or, not_or, Nat.not_lt, Nat.not_le] at hbad
            rw [if_pos] at h
            · cases h
            · simp [hbad.1, hbad.2.1, hbad.2.2]
        · rw [Bool.not_eq_true] at hintegrity
          rw [hintegrity]
          rfl
    · rw [if_neg hbank, decide_eq_false hbank]
      simp

theorem bootCrcSize_some {chip : Chip} {m : Mem} {n : Nat} (h : bootCrcSize chip m = some n) :
    (readSettings m).integrityValid = true ∧ (readSettings m).bank0 = bankValidApp ∧
      (readSettings m).bank0Size ≠ 0 ∧ (readSettings m).bank0Size = n := by
  unfold bootCrcSize at h
  simp only at h
  split at h
  · rename_i hok
    simp only [Bool.and_eq_true, decide_eq_true_eq] at hok
    obtain ⟨⟨⟨⟨⟨⟨-, hbank⟩, hvalid⟩, -⟩, hsize⟩, -⟩, -⟩ := hok
    exact ⟨hvalid, hbank, hsize, Option.some.inj h⟩
  · cases h

/-! ## An application that fits -/

/-- A trailer at `off` that gives its own offset. -/
def EndfAt (f : Mem) (off : Nat) : Prop :=
  slice f (dfuBank0RegionStart f + off) 4 = endf ∧
    readWord f (dfuBank0RegionStart f + off + 4) = off

/-- The image of `bodyLen` bytes and its trailer, the recorded bank and the bytes under the next
boot's CRC end at or below the limit. -/
structure LiveAppBelow (f : Mem) (limit bodyLen : Nat) : Prop where
  trailer : EndfAt f bodyLen
  lowest : ∀ x < bodyLen, ¬ EndfAt f x
  hash : (sha256 (slice f (dfuBank0RegionStart f) bodyLen)).take 8 =
    slice f (dfuBank0RegionStart f + bodyLen + 8) 8
  image : ∀ x, dfuBank0RegionStart f ≤ x → x < dfuBank0RegionStart f + bodyLen + endfLen → x < limit
  recorded : (readSettings f).integrityValid = true → (readSettings f).bank0 = bankValidApp →
    (readSettings f).bank0Size ≠ 0 → bodyLen + endfLen ≤ (readSettings f).bank0Size ∧
      dfuBank0RegionStart f + (readSettings f).bank0Size ≤ limit
  boot : ∀ chip n, bootCrcSize chip f = some n →
    ∀ x, dfuBank0RegionStart f ≤ x → x < dfuBank0RegionStart f + n → x < limit

theorem findBodyLen_some {f : Mem} {limit bodyLen : Nat} (h : findBodyLen f limit = some bodyLen) :
    EndfAt f bodyLen ∧ (∀ x < bodyLen, ¬ EndfAt f x) ∧
      dfuBank0RegionStart f + bodyLen + endfLen ≤ limit := by
  have hendf : endfLen = 56 := rfl
  unfold findBodyLen at h
  simp only at h
  split at h
  · cases h
  · rename_i hbase
    rw [List.find?_range_eq_some, List.mem_range] at h
    obtain ⟨hhere, hroom, hlow⟩ := h
    rw [Bool.and_eq_true, decide_eq_true_eq, decide_eq_true_eq] at hhere
    refine ⟨hhere, fun x hx hat => ?_, by omega⟩
    have hnot := hlow x hx
    rw [decide_eq_true hat.1, decide_eq_true hat.2] at hnot
    cases hnot

theorem liveAppBelow_of_fits {f : Mem} {limit : Nat}
    (h : otaDeltaLiveAppFitsBelow f limit = true) :
    ∃ bodyLen, findBodyLen f limit = some bodyLen ∧ LiveAppBelow f limit bodyLen := by
  have hendf : endfLen = 56 := rfl
  unfold otaDeltaLiveAppFitsBelow at h
  simp only at h
  cases hfind : findBodyLen f limit with
  | none =>
    rw [hfind] at h
    cases h
  | some bodyLen =>
    rw [hfind] at h
    simp only at h
    obtain ⟨htrailer, hlowest, hroom⟩ := findBodyLen_some hfind
    split at h
    · cases h
    split at h
    · cases h
    rename_i hhash
    rw [not_not] at hhash
    have hrecorded : (readSettings f).integrityValid = true →
        (readSettings f).bank0 = bankValidApp → (readSettings f).bank0Size ≠ 0 →
        bodyLen + endfLen ≤ (readSettings f).bank0Size ∧
          dfuBank0RegionStart f + (readSettings f).bank0Size ≤ limit := by
      intro hvalid hbank hsize
      rw [hvalid, decide_eq_true hbank, decide_eq_true hsize] at h
      simp only [Bool.and_self, Bool.not_true, Bool.false_or, Bool.and_eq_true,
        decide_eq_true_eq] at h
      omega
    refine ⟨bodyLen, rfl, htrailer, hlowest, hhash, fun x _ hx => by omega, hrecorded, ?_⟩
    intro chip n hboot x _ hx
    obtain ⟨hvalid, hbank, hsize, rfl⟩ := bootCrcSize_some hboot
    have := (hrecorded hvalid hbank hsize).2
    omega

/-- A yes is sound after any number of turns. The scan ends, unless it is over the whole address
space, which no application's start and limit span; it and the check read as allowed. -/
theorem live_app_fits_below_sound (f : Mem) {limit : Nat} (hlimit : limit < 2 ^ 32) :
    (∀ turns, ((liveAppFitsBelowAt limit turns).run (memLoads f) ()).1 = some true →
      ∃ bodyLen, ((findBodyLenAt (dfuBank0RegionStart f) limit turns).run (memLoads f) ()).1 =
        some (some bodyLen) ∧ LiveAppBelow f limit bodyLen) ∧
    (limit - dfuBank0RegionStart f < 2 ^ 32 - 1 →
      ∀ turns, limit - dfuBank0RegionStart f < turns →
        Loads f (BelowLimit (dfuBank0RegionStart f) limit)
          (findBodyLenAt (dfuBank0RegionStart f) limit turns) (some (findBodyLen f limit)) ∧
        Loads f (Readable f limit) (liveAppFitsBelowAt limit turns)
          (some (otaDeltaLiveAppFitsBelow f limit))) := by
  constructor
  · intro turns hyes
    have hscan : Loads f (fun _ => True) (findBodyLenAt (dfuBank0RegionStart f) limit turns)
        (if limit ≤ dfuBank0RegionStart f then some none
          else bodyScan f (dfuBank0RegionStart f) limit turns 0) :=
      loads_findBodyLen (I := fun _ => True) (fun _ => trivial)
        fun _ _ _ _ => ⟨fun _ _ _ => trivial, trivial⟩
    have hvalue := (loads_liveAppFitsBelow hlimit (fun _ _ => trivial) hscan (fun _ _ => trivial)
      fun _ _ => trivial).result
    rw [hyes] at hvalue
    obtain ⟨bodyLen, hfound, hfind, hfits⟩ := fits_of_value hlimit hvalue.symm
    obtain ⟨bodyLen', hfind', hbelow⟩ := liveAppBelow_of_fits hfits
    rw [hfind] at hfind'
    obtain rfl := Option.some.inj hfind'
    exact ⟨bodyLen, hscan.result.trans hfound, hbelow⟩
  · intro hspan turns hturns
    have hscan := loads_findBodyLen_below f turns hlimit hspan
    rw [← fitsValue_eq hlimit hspan hturns]
    constructor
    · rw [← findBodyLen_eq hlimit hspan hturns]
      exact hscan
    · exact loads_liveAppFitsBelow hlimit (fun _ => .inl) (hscan.mono fun _ hx => .inr (.inl hx))
        (fun _ hx => .inr (.inl hx)) fun _ hx => .inr (.inr hx)

/-! ## A small application -/

/-- The record of an application of two vectors and their trailer. -/
def smallRecord : Settings :=
  Settings.sealed { bank0 := bankValidApp, bank1 := bankInvalidApp, bank0Size := 64 }

/-- That application at 0x1000, without a SoftDevice, and its record; the rest is erased. -/
def smallApp : Mem := fun x =>
  if x < 0x1000 then 0xFF
  else if x < bootloaderSettingsAddress then
    (put32 0x20001000 ++ put32 0xDF009 ++ endf ++ put32 8 ++
      [0x53, 0x38, 0xB5, 0x0D, 0xEA, 0xA5, 0xF3, 0x8C]).getD (x - 0x1000) 0xFF
  else smallRecord.bytes.getD (x - bootloaderSettingsAddress) 0xFF

theorem live_app_fits_below_sound_small :
    (readSettings smallApp).integrityValid = true ∧ (readSettings smallApp).bank0Size = 64 ∧
      ∃ bodyLen, ((findBodyLenAt (dfuBank0RegionStart smallApp) 0x1040 1024).run
        (memLoads smallApp) ()).1 = some (some bodyLen) ∧ LiveAppBelow smallApp 0x1040 bodyLen := by
  have hspan : 0x1040 - dfuBank0RegionStart smallApp < 2 ^ 32 - 1 := by omega
  have hturns : 0x1040 - dfuBank0RegionStart smallApp < 1024 := by decide
  have hfits : otaDeltaLiveAppFitsBelow smallApp 0x1040 = true := by decide +kernel
  have hsound := live_app_fits_below_sound smallApp (show 0x1040 < 2 ^ 32 by omega)
  refine ⟨by decide +kernel, by decide, hsound.1 1024 ?_⟩
  rw [(hsound.2 hspan 1024 hturns).2.result, hfits]

end OtaFix

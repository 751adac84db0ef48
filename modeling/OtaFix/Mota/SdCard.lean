import OtaFix.Mota.Source

/-!
# The SD card driver

The block reads of `ota_sd_spi.c`: a sector is read with up to three attempts, in place
into the one sector buffer, and the buffer is tagged with its number when the read
succeeds. How an attempt goes is the environment's choice (`Attempt`); a timeout of
the SPI is final until the next `ota_sd_init`.

A read that breaks off leaves the buffer overwritten under its old tag, so that a later
read of the tagged sector returns what the card does not hold. Short of that, of an
offset that wraps and of the sector that stands for no tag, every byte returned is the
card's. Under a valid authorization no sector outside its extent is asked for.
-/

namespace OtaFix.Mota

open Lib Prog

/-! ## The driver -/

/-- `UINT32_MAX` as a tag: the buffer holds no sector. -/
def noSector : Nat := 2 ^ 32 - 1

/-- How one attempt to read a sector goes. -/
inductive Attempt where
  /-- The command is refused, or no data token comes. -/
  | refused
  /-- The SPI times out before the data. -/
  | stalled
  /-- The SPI times out after `d` has gone to the buffer. -/
  | broken (d : List Byte)
  /-- The sector arrives. -/
  | data
  deriving DecidableEq, Repr

structure SdState where
  /-- `g_sector`. -/
  sector : List Byte
  /-- `g_sector_lba`. -/
  lba : Nat := noSector
  ioOk : Bool := true
  blockAddressing : Bool := true
  /-- The attempts so far. -/
  tick : Nat := 0
  /-- The sectors that `ota_sd_read_bytes` has asked for. -/
  requests : List Nat := []
  deriving DecidableEq, Repr

variable (card : Mem) (fault : Nat → Attempt)

/-- The attempts of `ota_sd_read_sector`. Once the SPI has timed out every exchange answers
`0xFF`, and the attempts left change nothing. -/
def sectorAttempts (arg : Nat) : Nat → SdState → Bool × SdState
  | 0, s => (false, s)
  | n + 1, s =>
    if s.ioOk = false then (false, s)
    else
      let next := { s with tick := s.tick + 1 }
      match fault s.tick with
      | .refused => sectorAttempts arg n next
      | .stalled => sectorAttempts arg n { next with ioOk := false }
      | .broken d =>
        sectorAttempts arg n { next with ioOk := false, sector := memcpy s.sector 0 (d.take 512) }
      | .data => (true, { next with
          sector := slice card (if s.blockAddressing then arg * 512 else arg) 512 })

def otaSdReadSector (sector : Nat) (s : SdState) : Bool × SdState :=
  if s.ioOk = false ∨ s.blockAddressing = false ∧ (2 ^ 32 - 1) / 512 < sector then (false, s)
  else
    let arg := if s.blockAddressing then sector else sector * 512 % 2 ^ 32
    sectorAttempts card fault arg 3 s

/-- The buffer holds `lba`: it is tagged so, or is read and tagged. -/
def useSector (lba : Nat) (s : SdState) : Bool × SdState :=
  if lba ≠ s.lba then
    let r := otaSdReadSector card fault lba s
    if r.1 then (true, { r.2 with lba := lba }) else (false, r.2)
  else (true, s)

/-- The loop of `ota_sd_read_bytes`; every round takes a byte. -/
def readBytesLoop (firstSector : Nat) :
    Nat → Nat → Nat → List Byte → SdState → Option (List Byte) × SdState
  | 0, _, _, dst, s => (some dst, s)
  | fuel + 1, offset, len, dst, s =>
    if len = 0 then (some dst, s)
    else
      let sectorOff := offset % 512
      let n := min (512 - sectorOff) len
      let lba := add32 firstSector (offset / 512)
      if lba < firstSector then (none, s)
      else
        let r := useSector card fault lba { s with requests := s.requests ++ [lba] }
        if r.1 then
          readBytesLoop firstSector fuel (add32 offset n) (len - n)
            (dst ++ (r.2.sector.drop sectorOff).take n) r.2
        else (none, r.2)

/-- `ota_sd_read_bytes`. -/
def sdReadBytes (firstSector offset len : Nat) (s : SdState) : Option (List Byte) × SdState :=
  readBytesLoop card fault firstSector len offset len [] s

/-! ## The sector buffer -/

variable {card : Mem} {fault : Nat → Attempt} {s : SdState}

/-- No attempt from `a` up to `b` breaks off in its data. -/
def Unbroken (fault : Nat → Attempt) (a b : Nat) : Prop :=
  ∀ t, a ≤ t → t < b → ∀ d, fault t ≠ .broken d

theorem Unbroken.mono {a b a' b' : Nat} (h : Unbroken fault a b) (ha : a ≤ a') (hb : b' ≤ b) :
    Unbroken fault a' b' :=
  fun t h1 h2 => h t (Nat.le_trans ha h1) (Nat.lt_of_lt_of_le h2 hb)

/-- What the attempts leave behind; a failure keeps the buffer unless one breaks off. -/
structure Attempted (card : Mem) (fault : Nat → Attempt) (addr : Nat) (s : SdState)
    (r : Bool × SdState) : Prop where
  tick : s.tick ≤ r.2.tick
  lba : r.2.lba = s.lba
  requests : r.2.requests = s.requests
  read : r.1 = true → r.2.sector = slice card addr 512
  kept : r.1 = false → Unbroken fault s.tick r.2.tick → r.2.sector = s.sector

theorem sectorAttempts_attempted (arg n : Nat) (s : SdState) :
    Attempted card fault (if s.blockAddressing then arg * 512 else arg) s
      (sectorAttempts card fault arg n s) := by
  induction n generalizing s with
  | zero => exact ⟨Nat.le_refl _, rfl, rfl, nofun, fun _ _ => rfl⟩
  | succ n ih =>
    unfold sectorAttempts
    by_cases hio : s.ioOk = false
    · rw [if_pos hio]
      exact ⟨Nat.le_refl _, rfl, rfl, nofun, fun _ _ => rfl⟩
    rw [if_neg hio]
    simp only
    cases hf : fault s.tick with
    | refused =>
      have h := ih { s with tick := s.tick + 1 }
      refine ⟨Nat.le_of_succ_le h.tick, h.lba, h.requests, h.read, fun hr hu => ?_⟩
      exact h.kept hr (hu.mono (Nat.le_succ _) (Nat.le_refl _))
    | stalled =>
      have h := ih { s with tick := s.tick + 1, ioOk := false }
      refine ⟨Nat.le_of_succ_le h.tick, h.lba, h.requests, h.read, fun hr hu => ?_⟩
      exact h.kept hr (hu.mono (Nat.le_succ _) (Nat.le_refl _))
    | broken d =>
      have h := ih { s with
        tick := s.tick + 1, ioOk := false, sector := memcpy s.sector 0 (d.take 512) }
      refine ⟨Nat.le_of_succ_le h.tick, h.lba, h.requests, h.read, fun hr hu => ?_⟩
      exact absurd hf (hu s.tick (Nat.le_refl _) (Nat.lt_of_succ_le h.tick) d)
    | data =>
      refine ⟨Nat.le_succ _, rfl, rfl, fun _ => ?_, nofun⟩
      dsimp only

theorem otaSdReadSector_attempted {sector : Nat} (h : sector < 2 ^ 32) (s : SdState) :
    Attempted card fault (sector * 512) s (otaSdReadSector card fault sector s) := by
  unfold otaSdReadSector
  by_cases hno : s.ioOk = false ∨ s.blockAddressing = false ∧ (2 ^ 32 - 1) / 512 < sector
  · rw [if_pos hno]
    exact ⟨Nat.le_refl _, rfl, rfl, nofun, fun _ _ => rfl⟩
  rw [if_neg hno]
  simp only
  have hspec : Attempted card fault _ s _ := sectorAttempts_attempted
    (if s.blockAddressing then sector else sector * 512 % 2 ^ 32) 3 s
  cases hb : s.blockAddressing with
  | true =>
    rw [hb] at hspec
    exact hspec
  | false =>
    rw [hb, if_neg Bool.false_ne_true, if_neg Bool.false_ne_true] at hspec
    simp only [hb, not_or, not_and, true_implies] at hno
    have hle := hno.2
    rw [if_neg Bool.false_ne_true]
    rwa [Nat.mod_eq_of_lt (by omega)] at hspec ⊢

/-- The buffer holds the sector it is tagged with, if it is tagged. -/
def Tagged (card : Mem) (s : SdState) : Prop :=
  s.lba = noSector ∨ s.sector = slice card (s.lba * 512) 512

/-- What `useSector` leaves behind. -/
structure Used (card : Mem) (fault : Nat → Attempt) (lba : Nat) (s : SdState)
    (r : Bool × SdState) : Prop where
  tick : s.tick ≤ r.2.tick
  requests : r.2.requests = s.requests
  tag : r.1 = true → r.2.lba = lba
  /-- A sector read is the card's; a buffer that is tagged so must hold it. -/
  read : r.1 = true → (lba = s.lba → s.sector = slice card (lba * 512) 512) →
    r.2.sector = slice card (lba * 512) 512
  tagged : Tagged card s → Unbroken fault s.tick r.2.tick → Tagged card r.2

theorem useSector_used {lba : Nat} (h : lba < 2 ^ 32) (s : SdState) :
    Used card fault lba s (useSector card fault lba s) := by
  unfold useSector
  by_cases hhit : lba ≠ s.lba
  · rw [if_pos hhit]
    simp only
    have hspec : Attempted card fault _ s _ := otaSdReadSector_attempted h s
    generalize otaSdReadSector card fault lba s = r at hspec
    obtain ⟨ok, s'⟩ := r
    cases ok with
    | true =>
      exact ⟨hspec.tick, hspec.requests, fun _ => rfl, fun _ _ => hspec.read rfl,
        fun _ _ => .inr (hspec.read rfl)⟩
    | false =>
      refine ⟨hspec.tick, hspec.requests, nofun, nofun, fun ht hu => ?_⟩
      rcases ht with hno | hsec
      · exact .inl (hspec.lba.trans hno)
      · refine .inr ?_
        change s'.sector = slice card (s'.lba * 512) 512
        rw [hspec.kept rfl hu, hspec.lba]
        exact hsec
  · rw [if_neg hhit]
    rw [not_not] at hhit
    exact ⟨Nat.le_refl _, rfl, fun _ => hhit.symm, fun _ hsec => hsec hhit, fun ht _ => ht⟩

/-! ## The bytes returned -/

theorem readBytesLoop_zero (firstSector fuel offset : Nat) (dst : List Byte) (s : SdState) :
    readBytesLoop card fault firstSector fuel offset 0 dst s = (some dst, s) := by
  cases fuel <;> rfl

theorem add32_lt_iff {a b : Nat} (ha : a < 2 ^ 32) (hb : b < 2 ^ 32) :
    add32 a b < a ↔ 2 ^ 32 ≤ a + b := by
  unfold add32
  omega

theorem add32_succ_ne (a b : Nat) : add32 a (b + 1) ≠ a + b := by
  unfold add32
  omega

/-- A sector buffer that holds the sector of the next round, or is not tagged with it. -/
def HoldsNext (card : Mem) (lba : Nat) (s : SdState) : Prop :=
  lba = s.lba → s.sector = slice card (lba * 512) 512

/-- What the loop returns is the card's, and no sector number has wrapped. -/
theorem readBytesLoop_read {firstSector : Nat} (hfirst : firstSector < 2 ^ 32) (fuel : Nat)
    {offset len : Nat} {dst d : List Byte} {s : SdState} (hoff : offset < 2 ^ 32)
    (hfuel : len ≤ fuel) (hwrap : offset + len ≤ 2 ^ 32 ∨ 2 ^ 32 ≤ firstSector + (2 ^ 23 - 1))
    (hready : HoldsNext card (add32 firstSector (offset / 512)) s)
    (h : (readBytesLoop card fault firstSector fuel offset len dst s).1 = some d) :
    d = dst ++ slice card (firstSector * 512 + offset) len ∧
      (0 < len → firstSector + (offset + len - 1) / 512 < 2 ^ 32) := by
  induction fuel generalizing offset len dst s with
  | zero =>
    obtain rfl : len = 0 := by omega
    obtain rfl := Option.some.inj h
    exact ⟨(List.append_nil _).symm, nofun⟩
  | succ fuel ih =>
    unfold readBytesLoop at h
    by_cases h0 : len = 0
    · rw [if_pos h0] at h
      obtain rfl := Option.some.inj h
      subst h0
      exact ⟨(List.append_nil _).symm, nofun⟩
    rw [if_neg h0] at h
    simp only at h
    set n := min (512 - offset % 512) len with hn
    by_cases hlba : add32 firstSector (offset / 512) < firstSector
    · rw [if_pos hlba] at h
      cases h
    rw [if_neg hlba] at h
    rw [add32_lt_iff hfirst (by omega)] at hlba
    have hsum : add32 firstSector (offset / 512) = firstSector + offset / 512 :=
      add32_eq (by omega)
    rw [hsum] at h hready
    have hused : Used card fault _ _ _ := useSector_used
      (show firstSector + offset / 512 < 2 ^ 32 by omega)
      { s with requests := s.requests ++ [firstSector + offset / 512] }
    generalize useSector card fault (firstSector + offset / 512)
      { s with requests := s.requests ++ [firstSector + offset / 512] } = r at h hused
    obtain ⟨ok, s'⟩ := r
    cases ok with
    | false => cases h
    | true =>
      have hsec := hused.read rfl hready
      have htag := hused.tag rfl
      simp only [if_true] at hsec htag h
      rw [hsec, slice_drop (by omega), slice_take (by omega),
        show (firstSector + offset / 512) * 512 + offset % 512 = firstSector * 512 + offset by omega]
        at h
      by_cases hlast : len - n = 0
      · -- the last round
        rw [hlast, readBytesLoop_zero] at h
        obtain rfl := Option.some.inj h
        rw [show n = len by omega]
        exact ⟨rfl, fun _ => by omega⟩
      · have hnext : add32 offset n = offset + n := add32_eq (by omega)
        rw [hnext] at h
        have hdiv : (offset + n) / 512 = offset / 512 + 1 := by omega
        -- the next sector is another one
        have hready' : HoldsNext card (add32 firstSector ((offset + n) / 512)) s' := by
          intro heq
          rw [hdiv, htag] at heq
          exact absurd heq (add32_succ_ne _ _)
        obtain ⟨hd, hlt⟩ := ih (by omega) (by omega) (by omega) hready' h
        refine ⟨?_, fun _ => ?_⟩
        · rw [hd, List.append_assoc, ← Nat.add_assoc, ← slice_add, Nat.add_sub_cancel' (by omega)]
        · have := hlt (by omega)
          rwa [show offset + n + (len - n) - 1 = offset + len - 1 by omega] at this

/-- Whatever the loop is asked for, a tagged buffer stays so unless a read breaks off. -/
theorem readBytesLoop_tagged (firstSector fuel offset len : Nat) (dst : List Byte) (s : SdState) :
    s.tick ≤ (readBytesLoop card fault firstSector fuel offset len dst s).2.tick ∧
    (Tagged card s →
      Unbroken fault s.tick (readBytesLoop card fault firstSector fuel offset len dst s).2.tick →
      Tagged card (readBytesLoop card fault firstSector fuel offset len dst s).2) := by
  induction fuel generalizing offset len dst s with
  | zero => exact ⟨Nat.le_refl _, fun h _ => h⟩
  | succ fuel ih =>
    unfold readBytesLoop
    by_cases h0 : len = 0
    · rw [if_pos h0]
      exact ⟨Nat.le_refl _, fun h _ => h⟩
    rw [if_neg h0]
    simp only
    by_cases hlba : add32 firstSector (offset / 512) < firstSector
    · rw [if_pos hlba]
      exact ⟨Nat.le_refl _, fun h _ => h⟩
    rw [if_neg hlba]
    have hused : Used card fault _ _ _ :=
      useSector_used (show add32 firstSector (offset / 512) < 2 ^ 32 from Nat.mod_lt _ (by decide))
        { s with requests := s.requests ++ [add32 firstSector (offset / 512)] }
    generalize useSector card fault (add32 firstSector (offset / 512))
      { s with requests := s.requests ++ [add32 firstSector (offset / 512)] } = r at hused
    obtain ⟨ok, s'⟩ := r
    have htick : s.tick ≤ s'.tick := hused.tick
    cases ok with
    | false => exact ⟨htick, fun h hu => hused.tagged h hu⟩
    | true =>
      rw [if_pos rfl]
      obtain ⟨ht, hrest⟩ := ih (add32 offset (min (512 - offset % 512) len))
        (len - min (512 - offset % 512) len)
        (dst ++ (s'.sector.drop (offset % 512)).take (min (512 - offset % 512) len)) s'
      refine ⟨Nat.le_trans htick ht, fun h hu => hrest ?_ ?_⟩
      · exact hused.tagged h (hu.mono (Nat.le_refl _) ht)
      · exact hu.mono htick (Nat.le_refl _)

/-- A call of `ota_sd_read_bytes`. -/
structure SdCall where
  firstSector : Nat
  offset : Nat
  len : Nat
  firstSector_lt : firstSector < 2 ^ 32 := by decide
  offset_lt : offset < 2 ^ 32 := by decide

/-- The state behind a sequence of calls. -/
def sdRun (card : Mem) (fault : Nat → Attempt) (calls : List SdCall) (s : SdState) : SdState :=
  calls.foldl (fun s c => (sdReadBytes card fault c.firstSector c.offset c.len s).2) s

theorem sdRun_tagged (calls : List SdCall) (s : SdState) :
    s.tick ≤ (sdRun card fault calls s).tick ∧
    (Tagged card s → Unbroken fault s.tick (sdRun card fault calls s).tick →
      Tagged card (sdRun card fault calls s)) := by
  induction calls generalizing s with
  | nil => exact ⟨Nat.le_refl _, fun h _ => h⟩
  | cons c calls ih =>
    have hcall : s.tick ≤ (sdReadBytes card fault c.firstSector c.offset c.len s).2.tick ∧ _ :=
      readBytesLoop_tagged c.firstSector c.len c.offset c.len [] s
    obtain ⟨htick, hstep⟩ := hcall
    obtain ⟨htick', hrest⟩ := ih (sdReadBytes card fault c.firstSector c.offset c.len s).2
    refine ⟨Nat.le_trans htick htick', fun h hu => hrest ?_ ?_⟩
    · exact hstep h (hu.mono (Nat.le_refl _) htick')
    · exact hu.mono htick (Nat.le_refl _)

/-- The call returns the card's bytes or fails, and fails where a sector number would wrap. -/
def ReadsCard (card : Mem) (fault : Nat → Attempt) (s : SdState) (c : SdCall) : Prop :=
  (∀ d, (sdReadBytes card fault c.firstSector c.offset c.len s).1 = some d →
    d = slice card (c.firstSector * 512 + c.offset) c.len) ∧
  ((∃ x, c.offset ≤ x ∧ x < c.offset + c.len ∧ 2 ^ 32 ≤ c.firstSector + x / 512) →
    (sdReadBytes card fault c.firstSector c.offset c.len s).1 = none)

/-- The range starts in another sector than the one that stands for no tag, and its offset
does not wrap before a sector number does. -/
structure SdCall.InReach (c : SdCall) : Prop where
  start : c.firstSector + c.offset / 512 ≠ noSector
  stop : c.offset + c.len ≤ 2 ^ 32 ∨ 2 ^ 32 ≤ c.firstSector + (2 ^ 23 - 1)

/-- In any sequence of calls after `ota_sd_init`, a call reads the card if no attempt before it
has broken off in its data. -/
theorem ota_sd_reads_card {card : Mem} {fault : Nat → Attempt} {init : SdState}
    {pre : List SdCall} {c : SdCall} (hinit : init.lba = noSector)
    (hpre : Unbroken fault init.tick (sdRun card fault pre init).tick) (hc : c.InReach) :
    ReadsCard card fault (sdRun card fault pre init) c := by
  have htag : Tagged card (sdRun card fault pre init) :=
    (sdRun_tagged pre init).2 (.inl hinit) hpre
  generalize sdRun card fault pre init = s at htag
  have hno : noSector = 2 ^ 32 - 1 := rfl
  have hfirst := c.firstSector_lt
  have hoff := c.offset_lt
  have hready : HoldsNext card (add32 c.firstSector (c.offset / 512)) s := by
    intro heq
    rcases htag with hnone | hsec
    · have hstart := hc.start
      rw [hnone] at heq
      unfold add32 at heq
      omega
    · rw [heq]
      exact hsec
  have hread : ∀ d, (sdReadBytes card fault c.firstSector c.offset c.len s).1 = some d → _ :=
    fun d hd => readBytesLoop_read hfirst c.len hoff (Nat.le_refl _) hc.stop hready hd
  refine ⟨fun d hd => (hread d hd).1, fun ⟨x, hx1, hx2, hx⟩ => ?_⟩
  cases hr : (sdReadBytes card fault c.firstSector c.offset c.len s).1 with
  | none => rfl
  | some d =>
    have hlt := (hread d hr).2 (by omega)
    have hdiv : x / 512 ≤ (c.offset + c.len - 1) / 512 := Nat.div_le_div_right (by omega)
    omega

/-- Sector 1 of `0xAA`, the others of `0x55`. -/
def sampleSectors : Mem := fun x => if 512 ≤ x ∧ x < 1024 then 0xAA else 0x55

/-- The SPI times out three bytes into the second sector read. -/
def sampleFault : Nat → Attempt
  | 0 => .data
  | _ => .broken (List.replicate 3 0x55 ++ List.replicate 509 0xFF)

/-- A refused attempt, then a read across two sectors. -/
theorem ota_sd_reads_straddle :
    ReadsCard sampleSectors (fun t => if t = 0 then .refused else .data)
      (sdRun sampleSectors (fun t => if t = 0 then .refused else .data) [⟨1, 0, 4, by decide, by decide⟩]
        { sector := List.replicate 512 0 }) ⟨1, 510, 4, by decide, by decide⟩ :=
  ota_sd_reads_card rfl (fun t _ _ d => by split_ifs <;> exact nofun) ⟨by decide, by decide⟩

/-- Sector 1, sector 2 broken off, sector 1 again: the buffer no longer holds it. -/
theorem ota_sd_reads_stale : ¬ ReadsCard sampleSectors sampleFault
    (sdRun sampleSectors sampleFault [⟨1, 0, 4, by decide, by decide⟩, ⟨2, 0, 4, by decide, by decide⟩]
      { sector := List.replicate 512 0 }) ⟨1, 0, 4, by decide, by decide⟩ := by
  intro h
  exact absurd (h.1 [0x55, 0x55, 0x55, 0xFF] (by decide +kernel)) (by decide +kernel)

/-! ## The authorized extent -/

/-- The loop asks for the sectors of the range only. -/
theorem readBytesLoop_requests {firstSector : Nat} (fuel : Nat) {offset len : Nat}
    {dst : List Byte} {s : SdState} (hoff : offset + len < 2 ^ 32)
    (hlba : firstSector + (offset + len - 1) / 512 < 2 ^ 32) {l : Nat}
    (hl : l ∈ (readBytesLoop card fault firstSector fuel offset len dst s).2.requests) :
    l ∈ s.requests ∨
      firstSector + offset / 512 ≤ l ∧ l ≤ firstSector + (offset + len - 1) / 512 := by
  induction fuel generalizing offset len dst s with
  | zero => exact .inl hl
  | succ fuel ih =>
    unfold readBytesLoop at hl
    by_cases h0 : len = 0
    · rw [if_pos h0] at hl
      exact .inl hl
    rw [if_neg h0] at hl
    simp only at hl
    set n := min (512 - offset % 512) len with hn
    have hsum : add32 firstSector (offset / 512) = firstSector + offset / 512 :=
      add32_eq (by omega)
    rw [hsum, if_neg (by omega), add32_eq (a := offset) (by omega)] at hl
    have hused : Used card fault _ _ _ := useSector_used
      (show firstSector + offset / 512 < 2 ^ 32 by omega)
      { s with requests := s.requests ++ [firstSector + offset / 512] }
    generalize useSector card fault (firstSector + offset / 512)
      { s with requests := s.requests ++ [firstSector + offset / 512] } = r at hl hused
    obtain ⟨ok, s'⟩ := r
    -- the sector of this round, or one asked for before it
    have hround : l ∈ s'.requests → l ∈ s.requests ∨ l = firstSector + offset / 512 := by
      intro hmem
      rw [hused.requests] at hmem
      rcases List.mem_append.mp hmem with h | h
      · exact .inl h
      · exact .inr (List.mem_singleton.mp h)
    have hfirst : l ∈ s'.requests → l ∈ s.requests ∨
        firstSector + offset / 512 ≤ l ∧ l ≤ firstSector + (offset + len - 1) / 512 := by
      intro hmem
      rcases hround hmem with h | rfl
      · exact .inl h
      · exact .inr ⟨Nat.le_refl _, by omega⟩
    cases ok with
    | false => exact hfirst hl
    | true =>
      simp only [if_true] at hl
      have hlast : offset + n + (len - n) - 1 = offset + len - 1 := by omega
      rcases ih (by omega) (by rw [hlast]; exact hlba) hl with h | h
      · exact hfirst h
      · rw [hlast] at h
        exact .inr ⟨by omega, h.2⟩

/-- What a valid authorization says of its extent. -/
theorem motaSdAuthValid_extent {r : List Byte} {purpose formatVer : Byte}
    (h : motaSdAuthValid r purpose formatVer = true) :
    1 ≤ wordAt r 16 ∧ wordAt r 16 + wordAt r 20 ≤ wordAt r 28 ∧ wordAt r 28 < 2 ^ 32 ∧
      0 < wordAt r 24 ∧ wordAt r 24 < 2 ^ 32 ∧ wordAt r 20 = (wordAt r 24 - 1) / 512 + 1 := by
  unfold motaSdAuthValid at h
  simp only [Bool.and_eq_true, decide_eq_true_eq, ne_eq] at h
  obtain ⟨⟨⟨⟨⟨⟨⟨⟨-, hfirst⟩, hcount⟩, htotal⟩, hcard⟩, hlt⟩, hle⟩, heq⟩, -⟩ := h
  have hcardlt : wordAt r 28 < 2 ^ 32 := get32_lt _ _ _ _
  have htotallt : wordAt r 24 < 2 ^ 32 := get32_lt _ _ _ _
  exact ⟨by omega, by omega, hcardlt, by omega, htotallt, heq⟩

/-- A read of the card that `staged_read` makes lies in the container. -/
theorem stagedRead_sd {env : Env} {cfg : Profile} {s : Device}
    (hsd : cfg.sdSelected s.statics = true) (a n : Nat) :
    (stagedRead cfg a n).Sat (handler env)
      (fun o _ => ∀ first offset len, o = .sdRead first offset len →
        first = s.statics.sdAuth.firstSector ∧ offset + len ≤ s.statics.sdAuth.containerTotal)
      (fun _ _ => True) s := by
  refine sat_get.mpr ⟨nofun, ?_⟩
  rw [if_pos hsd]
  split_ifs with hout
  · trivial
  · refine ⟨fun first offset len heq => ?_, trivial⟩
    cases heq
    exact ⟨rfl, by omega⟩

/-- A range that `staged_read` accepts is read from the card. -/
theorem stagedRead_sd_mem {env : Env} {cfg : Profile} {s : Device}
    (hsd : cfg.sdSelected s.statics = true) {a n : Nat}
    (h : ¬ (s.statics.sdAuth.containerTotal < a ∨ s.statics.sdAuth.containerTotal - a < n)) :
    (Op.sdRead s.statics.sdAuth.firstSector a n, after env .get s) ∈
      (stagedRead cfg a n).trace (handler env) s := by
  have hrun : (stagedRead cfg a n).trace (handler env) s = (Op.get, s) ::
      trace (handler env) (if cfg.sdSelected s.statics then
        if s.statics.sdAuth.containerTotal < a ∨ s.statics.sdAuth.containerTotal - a < n then
          ret none
        else otaSdReadBytes s.statics.sdAuth.firstSector a n
      else _) (after env .get s) := rfl
  rw [hrun, if_pos hsd, if_neg h]
  exact List.mem_cons_of_mem _ (List.mem_singleton_self _)

/-- Under a valid authorization the driver asks for sectors of the authorized extent only, and
the extent lies on the card behind its first sector. No sum or shift on the way wraps. -/
theorem sd_reads_authorized {env : Env} {cfg : Profile} {s : Device} {r : List Byte}
    {purpose formatVer : Byte} (hr : motaSdAuthValid r purpose formatVer = true)
    (hsd : cfg.sdSelected s.statics = true) (hauth : s.statics.sdAuth = sdAuthOf r) (a n : Nat) :
    (1 ≤ wordAt r 16 ∧ wordAt r 16 + wordAt r 20 ≤ wordAt r 28 ∧ wordAt r 28 < 2 ^ 32) ∧
    ∀ x ∈ (stagedRead cfg a n).trace (handler env) s, ∀ first offset len,
      x.1 = .sdRead first offset len →
      first = wordAt r 16 ∧ offset + len < 2 ^ 32 ∧
      (∀ y, offset ≤ y → y < offset + len → first + y / 512 < 2 ^ 32) ∧
      ∀ card fault (d : SdState), ∀ l ∈ (sdReadBytes card fault first offset len d).2.requests,
        l ∈ d.requests ∨ wordAt r 16 ≤ l ∧ l < wordAt r 16 + wordAt r 20 := by
  obtain ⟨hfirst, hcard, hlt, hpos, htotal, hcount⟩ := motaSdAuthValid_extent hr
  refine ⟨⟨hfirst, hcard, hlt⟩, fun x hx first offset len heq => ?_⟩
  obtain ⟨hf, hend⟩ := (stagedRead_sd hsd a n).trace x hx first offset len heq
  rw [hauth] at hf hend
  have hfield : (sdAuthOf r).firstSector = wordAt r 16 := rfl
  have hsize : (sdAuthOf r).containerTotal = wordAt r 24 := rfl
  rw [hfield] at hf
  rw [hsize] at hend
  subst hf
  have hlast : 0 < len → (offset + len - 1) / 512 < wordAt r 20 := by
    intro hlen
    have : (offset + len - 1) / 512 ≤ (wordAt r 24 - 1) / 512 := Nat.div_le_div_right (by omega)
    omega
  refine ⟨rfl, by omega, fun y hy1 hy2 => ?_, fun card fault d l hl => ?_⟩
  · have : y / 512 ≤ (offset + len - 1) / 512 := Nat.div_le_div_right (by omega)
    have := hlast (by omega)
    omega
  · rcases Nat.eq_zero_or_pos len with h0 | hlen
    · subst h0
      exact .inl hl
    · have hin := hlast hlen
      rcases readBytesLoop_requests len (by omega) (by omega) hl with h | h
      · exact .inl h
      · exact .inr ⟨by omega, by omega⟩

/-- The sample record: 223 bytes at the second sector of a card of 64. -/
theorem sd_reads_sampleRecord : wordAt sdRecord 16 + wordAt sdRecord 20 ≤ wordAt sdRecord 28 ∧
    ∀ l ∈ (sdReadBytes sampleSectors (fun _ => .data) 1 200 16
      { sector := List.replicate 512 0 }).2.requests, 1 ≤ l ∧ l < 1 + 1 := by
  have hvalid : motaSdAuthValid sdRecord sdAuthPurposeApp 2 = true := by decide +kernel
  have hfirst : wordAt sdRecord 16 = 1 := by decide +kernel
  have hcount : wordAt sdRecord 20 = 1 := by decide +kernel
  have hroom : ¬ ((sdAuthOf sdRecord).containerTotal < 200 ∨
      (sdAuthOf sdRecord).containerTotal - 200 < 16) := by decide +kernel
  let s : Device := { sampleDevice sampleSdProfile otaApply stageSd sdRecord with
    statics := { sdAuth := sdAuthOf sdRecord, sdSource := true } }
  have hauth : s.statics.sdAuth = sdAuthOf sdRecord := rfl
  have hsd : sampleSdProfile.sdSelected s.statics = true := rfl
  have hread : (Op.sdRead _ 200 16, after sampleCard .get s) ∈ _ := stagedRead_sd_mem hsd hroom
  obtain ⟨⟨-, hcard, -⟩, hreads⟩ := sd_reads_authorized hvalid hsd hauth 200 16
  refine ⟨hcard, fun l hl => ?_⟩
  obtain ⟨-, -, -, hreq⟩ := hreads _ hread _ _ _ rfl
  rw [hfirst, hcount] at hreq
  rcases hreq _ _ _ l hl with h | h
  · exact absurd h (List.not_mem_nil)
  · exact h

end OtaFix.Mota

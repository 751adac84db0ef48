import OtaFix.Nvm

/-!
# Torn settings records

Two writers replace the settings record: `bootloader_settings_save`, through the
storage queue or directly, and `otah_settings_commit`. Both erase the page, then
program the geometry with its seal, and the two marker words last, each in its
own order. A record cut in between is never acted on: its seal does not hold, or
its markers ask for nothing.
-/

namespace OtaFix

open Lib

/-- `bootloader_update_settings_valid`: the record asks for a SoftDevice or bootloader swap. -/
def bootloaderUpdateSettingsValid (m : Mem) (s : Settings) : Bool :=
  if !s.integrityValid then false
  else if s.bank0 = bankValidSd then
    if s.sdImageSize = 0 ∨ s.appImageSize ≠ 0 ∨ dfuBlImageMaxSize < s.blImageSize ∨
        s.bank1 ≠ bankInvalidApp ∨ s.sdImageStart ≠ dfuBank0RegionStart m ∨
        2 ^ 32 - 1 - s.blImageSize < s.sdImageSize then false
    else
      let total := s.sdImageSize + s.blImageSize
      s.bank0Size = total && total ≤ sub32 bootloaderRegionStart s.sdImageStart
  else s.bank1 = bankValidBoot && s.sdImageSize = 0 && s.appImageSize = 0 && s.blImageSize ≠ 0 &&
    s.blImageSize ≤ dfuBlImageMaxSize

/-- The record of `otah_settings_commit`. -/
def otahSettings (bank0 crc : BitVec 16) (size : Nat) : Settings where
  bank0 := bank0
  bank0Crc := crc
  bank0Size := size
  bank1 := bankInvalidApp

/-- The writes of `otah_settings_commit`: the second marker word before the first. -/
def otahSettingsCommit (s : Settings) : List FlashOp :=
  .erase bootloaderSettingsAddress codePageSize ::
    (wordsWrite (bootloaderSettingsAddress + 8) (s.sealed.bytes.drop 8) ++
      (wordsWrite (bootloaderSettingsAddress + 4) ((s.sealed.bytes.drop 4).take 4) ++
        wordsWrite bootloaderSettingsAddress (s.sealed.bytes.take 4)))

/-- Who writes a record: `bootloader_dfu_update_process`, or an mOTA commit. -/
inductive SettingsWriter where
  | update (st : UpdateStatus)
  | commit (bank0 crc : BitVec 16) (size : Nat)

namespace SettingsWriter

/-- The record written over the one in `m`. -/
def record (m : Mem) : SettingsWriter → Option Settings
  | .update st => updateSettings (readSettings m) st
  | .commit bank0 crc size => some (otahSettings bank0 crc size)

/-- Its flash operations. The queue runs the clear and the two stores of a save in
their order, so both forms of a save are one sequence. -/
def ops (s : Settings) : SettingsWriter → List FlashOp
  | .update _ => bootloaderSettingsSave s
  | .commit _ _ _ => otahSettingsCommit s

/-- The sizes are 32-bit values. -/
def Fits : SettingsWriter → Prop
  | .update (.appComplete _ size) => size < 2 ^ 32
  | .update (.sdComplete _ sd bl app start) =>
    sd < 2 ^ 32 ∧ bl < 2 ^ 32 ∧ app < 2 ^ 32 ∧ start < 2 ^ 32
  | .update (.bootComplete sd bl app) => sd < 2 ^ 32 ∧ bl < 2 ^ 32 ∧ app < 2 ^ 32
  | .update _ => True
  | .commit _ _ size => size < 2 ^ 32

end SettingsWriter

/-! ## Stages of a write -/

variable {s : Settings} {m m' : Mem}

/-- The markers are still erased. -/
def MarkersErased (m : Mem) : Prop :=
  ∀ i, i < 8 → m (bootloaderSettingsAddress + i) = 0xFF

/-- The geometry and its seal are in place. -/
def GeometryHeld (s : Settings) (m : Mem) : Prop :=
  ∀ i, 8 ≤ i → i < 32 → m (bootloaderSettingsAddress + i) = s.sealed.bytes.getD i 0

theorem MarkersErased.fields (h : MarkersErased m) :
    (readSettings m).bank0 = 0xFFFF ∧ (readSettings m).bank1 = 0xFFFF := by
  have hhalf : ∀ i, i + 1 < 8 → readHalf m (bootloaderSettingsAddress + i) = 0xFFFF := by
    intro i hi
    unfold readHalf
    rw [Nat.add_assoc, h i (by omega), h (i + 1) hi]
    decide
  exact ⟨hhalf 0 (by omega), hhalf 4 (by omega)⟩

/-- A page no one acts on: no update, no valid application, no legacy record that asks
for one. -/
structure Inert (m : Mem) : Prop where
  no_update : bootloaderUpdateSettingsValid m (readSettings m) = false
  no_app : (readSettings m).bank0 = bankValidApp → (readSettings m).integrityValid = false
  no_legacy : (readSettings m).isLegacy = true → (readSettings m).bank0 ≠ bankValidApp ∧
    (readSettings m).bank0 ≠ bankValidSd ∧ (readSettings m).bank1 ≠ bankValidBoot

theorem Inert.of_markers (h0 : (readSettings m).bank0 = 0xFFFF)
    (h1 : (readSettings m).bank1 ≠ bankValidBoot) : Inert m where
  no_update := by
    have hsd : (readSettings m).bank0 ≠ bankValidSd := by rw [h0]; decide
    simp [bootloaderUpdateSettingsValid, hsd, h1]
  no_app := by
    rw [h0]
    exact fun h => absurd h (by decide)
  no_legacy := fun _ => ⟨by rw [h0]; decide, by rw [h0]; decide, h1⟩

theorem Inert.of_unsealed (h : (readSettings m).integrityValid = false) : Inert m where
  no_update := by simp [bootloaderUpdateSettingsValid, h]
  no_app := fun _ => h
  no_legacy := by
    intro hl
    simp [Settings.integrityValid, hl] at h

/-- Up to the end of the geometry nobody acts on the page. -/
theorem Inert.geometry (s : Settings) (m : Mem) (j : Nat) :
    Inert (replay ((geometryOps s).take j)
      ((FlashOp.erase bootloaderSettingsAddress codePageSize).apply m)) := by
  have herased : MarkersErased (replay ((geometryOps s).take j)
      ((FlashOp.erase bootloaderSettingsAddress codePageSize).apply m)) :=
    fun i hi => replay_geometryOps_low j (by omega) (by omega)
  refine .of_markers herased.fields.1 ?_
  rw [herased.fields.2]
  decide

/-! ## `bootloader_settings_save` -/

theorem bootloaderSettingsSave_length (s : Settings) : (bootloaderSettingsSave s).length = 9 := by
  rw [show bootloaderSettingsSave s = .erase bootloaderSettingsAddress codePageSize ::
    (geometryOps s ++ markerOps s) from rfl, List.length_cons, List.length_append,
    geometryOps_length, markerOps_length]

theorem bootloaderSettingsSave_inert (s : Settings) (m : Mem) {k : Nat} (h0 : 0 < k) (h9 : k < 9) :
    Inert (replay ((bootloaderSettingsSave s).take k) m) := by
  obtain ⟨j, rfl⟩ : ∃ j, k = j + 1 := ⟨k - 1, by omega⟩
  rw [bootloaderSettingsSave_take]
  split_ifs with h6 h7
  · exact .geometry s m j
  · exact .of_unsealed (bootloaderSettingsSave_half s m)
  · omega

/-! ## `otah_settings_commit` -/

/-- The marker words of a commit, second word first. -/
def commitMarkerOps (s : Settings) : List FlashOp :=
  wordsWrite (bootloaderSettingsAddress + 4) ((s.sealed.bytes.drop 4).take 4) ++
    wordsWrite bootloaderSettingsAddress (s.sealed.bytes.take 4)

theorem commitMarkerOps_eq (s : Settings) : commitMarkerOps s =
    [.program (bootloaderSettingsAddress + 4) ((s.sealed.bytes.drop 4).take 4),
      .program bootloaderSettingsAddress (s.sealed.bytes.take 4)] := by
  rw [commitMarkerOps, Settings.bytes_eq]
  rfl

theorem otahSettingsCommit_length (s : Settings) : (otahSettingsCommit s).length = 9 := by
  rw [show otahSettingsCommit s = .erase bootloaderSettingsAddress codePageSize ::
    (geometryOps s ++ commitMarkerOps s) from rfl, List.length_cons, List.length_append,
    geometryOps_length, commitMarkerOps_eq]
  rfl

/-- A commit stays on the settings page. -/
theorem otahSettingsCommit_spares (s : Settings) {x : Nat} (hx : x < bootloaderSettingsAddress) :
    Spares (otahSettingsCommit s) x := by
  intro op hop
  left
  rcases List.mem_cons.mp hop with rfl | hop
  · exact hx
  rcases List.mem_append.mp hop with hop | hop
  · have := mem_wordsWrite hop
    omega
  rcases List.mem_append.mp hop with hop | hop
  · have := mem_wordsWrite hop
    omega
  · have := mem_wordsWrite hop
    omega

theorem getD_take_drop (d : List Byte) (a n i : Nat) (hi : i < n) :
    ((d.drop a).take n).getD i 0 = d.getD (a + i) 0 := by
  rw [List.getD_eq_getElem?_getD, List.getElem?_take, if_pos hi, List.getElem?_drop,
    List.getD_eq_getElem?_getD]

/-- One marker word programmed over the erased page. -/
theorem replay_commitMarker (s : Settings) {m : Mem} (h : MarkersErased m) {a i : Nat}
    (ha : a ≤ i) (hi : i < a + 4) (h8 : i < 8) :
    (FlashOp.program (bootloaderSettingsAddress + a) ((s.sealed.bytes.drop a).take 4)).apply m
      (bootloaderSettingsAddress + i) = s.sealed.bytes.getD i 0 := by
  have hlen : ((s.sealed.bytes.drop a).take 4).length = 4 := by
    rw [List.length_take, List.length_drop, Settings.bytes_length]
    omega
  rw [FlashOp.apply_program (by omega) (by rw [hlen]; omega), h i h8,
    getD_take_drop _ _ _ _ (by omega),
    show a + (bootloaderSettingsAddress + i - (bootloaderSettingsAddress + a)) = i by omega]
  exact BitVec.allOnes_and

section Commit

variable (s : Settings) (m : Mem)

/-- The page with its geometry. -/
def geometryPage : Mem :=
  replay (geometryOps s) ((FlashOp.erase bootloaderSettingsAddress codePageSize).apply m)

/-- The page with its geometry and its second marker word. -/
def halfCommit : Mem :=
  (FlashOp.program (bootloaderSettingsAddress + 4) ((s.sealed.bytes.drop 4).take 4)).apply
    (geometryPage s m)

theorem geometryPage_erased : MarkersErased (geometryPage s m) := by
  intro i hi
  have h := replay_geometryOps_low (s := s) (m := m) (x := bootloaderSettingsAddress + i) 6
    (by omega) (by omega)
  rwa [List.take_of_length_le (Nat.le_of_eq geometryOps_length)] at h

theorem geometryPage_held : GeometryHeld s (geometryPage s m) :=
  fun _ h8 h32 => replay_geometryOps_high h8 h32

/-- The bytes of the half-committed page. -/
theorem halfCommit_byte {i : Nat} (hi : i < 32) :
    halfCommit s m (bootloaderSettingsAddress + i) =
      if i < 4 then 0xFF else s.sealed.bytes.getD i 0 := by
  have hlen : ((s.sealed.bytes.drop 4).take 4).length = 4 := by simp
  unfold halfCommit
  by_cases h8 : 4 ≤ i ∧ i < 8
  · rw [if_neg (by omega)]
    exact replay_commitMarker s (geometryPage_erased s m) h8.1 (by omega) h8.2
  · rw [FlashOp.apply_outside (by simp only [FlashOp.start, FlashOp.stop, hlen]; omega)]
    by_cases h4 : i < 4
    · rw [if_pos h4]
      exact geometryPage_erased s m i (by omega)
    · rw [if_neg h4]
      exact geometryPage_held s m i (by omega) hi

/-- With only its second marker word, a commit asks for nothing. -/
theorem halfCommit_inert (hb : s.bank1 ≠ bankValidBoot) : Inert (halfCommit s m) := by
  refine .of_markers ?_ ?_
  · have h0 := halfCommit_byte s m (i := 0) (by omega)
    have h1 := halfCommit_byte s m (i := 1) (by omega)
    rw [if_pos (by omega)] at h0 h1
    rw [Nat.add_zero] at h0
    simp only [readSettings, readHalf, h0, h1]
    decide
  · have h4 := halfCommit_byte s m (i := 4) (by omega)
    have h5 := halfCommit_byte s m (i := 4 + 1) (by omega)
    rw [if_neg (by omega), Settings.bytes_eq] at h4 h5
    have hbank : (readSettings (halfCommit s m)).bank1 = s.bank1 := by
      simp only [readSettings, readHalf, Nat.add_assoc, h4, h5]
      exact half_append _
    rw [hbank]
    exact hb

theorem otahSettingsCommit_take (j : Nat) :
    replay ((otahSettingsCommit s).take (j + 1)) m =
      if j ≤ 6 then replay ((geometryOps s).take j)
        ((FlashOp.erase bootloaderSettingsAddress codePageSize).apply m)
      else if j = 7 then halfCommit s m else replay (otahSettingsCommit s) m := by
  have hops : otahSettingsCommit s = .erase bootloaderSettingsAddress codePageSize ::
      (geometryOps s ++ commitMarkerOps s) := rfl
  split_ifs with h6 h7
  · rw [hops, List.take_succ_cons, replay_cons,
      List.take_append_of_le_length (by rw [geometryOps_length]; exact h6)]
  · rw [hops, h7, List.take_succ_cons, replay_cons, List.take_append, geometryOps_length,
      List.take_of_length_le (by rw [geometryOps_length]; omega), replay_append,
      commitMarkerOps_eq]
    rfl
  · rw [List.take_of_length_le (by rw [otahSettingsCommit_length]; omega)]

theorem otahSettingsCommit_inert (hb : s.bank1 ≠ bankValidBoot) {k : Nat} (h0 : 0 < k)
    (h9 : k < 9) : Inert (replay ((otahSettingsCommit s).take k) m) := by
  obtain ⟨j, rfl⟩ : ∃ j, k = j + 1 := ⟨k - 1, by omega⟩
  rw [otahSettingsCommit_take]
  split_ifs with h6 h7
  · exact .geometry s m j
  · exact halfCommit_inert s m hb
  · omega

/-- The completed commit holds the sealed record. -/
theorem replay_otahSettingsCommit (hs : s.Fits) :
    readSettings (replay (otahSettingsCommit s) m) = s.sealed := by
  have hops : replay (otahSettingsCommit s) m = (FlashOp.program bootloaderSettingsAddress
      (s.sealed.bytes.take 4)).apply (halfCommit s m) := by
    rw [show otahSettingsCommit s = .erase bootloaderSettingsAddress codePageSize ::
      (geometryOps s ++ commitMarkerOps s) from rfl, replay_cons, replay_append,
      commitMarkerOps_eq]
    rfl
  have hlen : (s.sealed.bytes.take 4).length = 4 := by simp
  rw [hops]
  refine readSettings_eq hs.sealed fun i hi => ?_
  have hbyte := halfCommit_byte s m hi
  by_cases h4 : i < 4
  · rw [if_pos h4] at hbyte
    rw [FlashOp.apply_program (by omega) (by rw [hlen]; omega), hbyte, Nat.add_sub_cancel_left,
      List.getD_eq_getElem?_getD, List.getElem?_take, if_pos h4, ← List.getD_eq_getElem?_getD]
    exact BitVec.allOnes_and
  · rw [if_neg h4] at hbyte
    rw [FlashOp.apply_outside (by simp only [FlashOp.start, FlashOp.stop, hlen]; omega), hbyte]

end Commit

/-! ## Every writer -/

theorem readSettings_congr (h : ∀ x, bootloaderSettingsAddress ≤ x → m' x = m x) :
    readSettings m' = readSettings m := by
  have h0 : m' bootloaderSettingsAddress = m bootloaderSettingsAddress := h _ (Nat.le_refl _)
  have hi : ∀ i, m' (bootloaderSettingsAddress + i) = m (bootloaderSettingsAddress + i) :=
    fun i => h _ (Nat.le_add_right _ i)
  simp only [readSettings, readHalf, readWord, Nat.add_assoc, h0, hi]

theorem readSettings_fits (m : Mem) : (readSettings m).Fits :=
  ⟨readWord_lt _ _, readWord_lt _ _, readWord_lt _ _, readWord_lt _ _, readWord_lt _ _⟩

/-- The records of both writers fit their words. -/
theorem SettingsWriter.record_fits {w : SettingsWriter} (hw : w.Fits)
    (h : w.record m = some s) : s.Fits := by
  have hpos : 0 < 2 ^ 32 := Nat.two_pow_pos 32
  have hcur := (readSettings_fits m).bank0Size
  cases w with
  | commit bank0 crc size =>
    obtain rfl := Option.some.inj h
    exact ⟨hw, hpos, hpos, hpos, hpos⟩
  | update st =>
    cases st with
    | appComplete crc size =>
      obtain rfl := Option.some.inj h
      exact ⟨hw, hpos, hpos, hpos, hpos⟩
    | sdComplete crc sd bl app start =>
      obtain rfl := Option.some.inj h
      obtain ⟨h1, h2, h3, h4⟩ := hw
      exact ⟨Nat.mod_lt _ hpos, h1, h2, h3, h4⟩
    | bootComplete sd bl app =>
      obtain rfl := Option.some.inj h
      obtain ⟨h1, h2, h3⟩ := hw
      refine ⟨?_, h1, h2, h3, ?_⟩ <;> simp only <;> split
      · exact hcur
      · exact hpos
      · exact hpos
      · exact hpos
    | sdSwapped =>
      obtain rfl := Option.some.inj h
      refine ⟨?_, ?_, ?_, ?_, ?_⟩ <;> simp only <;> split_ifs <;> first | exact hpos | exact hcur
    | bank0Erased =>
      obtain rfl := Option.some.inj h
      exact ⟨hpos, hpos, hpos, hpos, hpos⟩
    | timeout => cases h
    | reset => cases h

/-- The flash after the first `k` operations of a write is the old one, the complete
new record, or one that nobody acts on. -/
structure CutOk (w : SettingsWriter) (s : Settings) (m m' : Mem) : Prop where
  update : bootloaderUpdateSettingsValid m' (readSettings m') = true →
    m' = m ∨ (m' = replay (w.ops s) m ∧ readSettings m' = s.sealed)
  app : (readSettings m').bank0 = bankValidApp → (readSettings m').integrityValid = true →
    m' = m ∨ (m' = replay (w.ops s) m ∧ readSettings m' = s.sealed)
  legacy : (readSettings m').isLegacy = true →
    (readSettings m').bank0 = bankValidApp ∨ (readSettings m').bank0 = bankValidSd ∨
      (readSettings m').bank1 = bankValidBoot →
    m' = m ∨ (m' = replay (w.ops s) m ∧ readSettings m' = s.sealed)

/-- Every cut of every record that either writer builds over any page. -/
theorem settings_cut_ok {w : SettingsWriter} (hw : w.Fits) (hs : w.record m = some s) (k : Nat) :
    CutOk w s m (replay ((w.ops s).take k) m) := by
  have hfits := SettingsWriter.record_fits hw hs
  have hlen : (w.ops s).length = 9 := by
    cases w with
    | update => exact bootloaderSettingsSave_length s
    | commit => exact otahSettingsCommit_length s
  rcases Nat.eq_zero_or_pos k with rfl | h0
  · exact ⟨fun _ => .inl rfl, fun _ _ => .inl rfl, fun _ _ => .inl rfl⟩
  by_cases h9 : k < 9
  · have hinert : Inert (replay ((w.ops s).take k) m) := by
      cases w with
      | update => exact bootloaderSettingsSave_inert s m h0 h9
      | commit bank0 crc size =>
        refine otahSettingsCommit_inert s m ?_ h0 h9
        obtain rfl := Option.some.inj hs
        exact (by decide : bankInvalidApp ≠ bankValidBoot)
    refine ⟨fun h => ?_, fun h1 h2 => ?_, fun h1 h2 => ?_⟩
    · rw [hinert.no_update] at h
      cases h
    · rw [hinert.no_app h1] at h2
      cases h2
    · obtain ⟨h3, h4, h5⟩ := hinert.no_legacy h1
      rcases h2 with h | h | h
      · exact absurd h h3
      · exact absurd h h4
      · exact absurd h h5
  · have hfull : (w.ops s).take k = w.ops s := List.take_of_length_le (by omega)
    have hread : readSettings (replay (w.ops s) m) = s.sealed := by
      cases w with
      | update => exact replay_bootloaderSettingsSave hfits
      | commit => exact replay_otahSettingsCommit s m hfits
    rw [hfull]
    exact ⟨fun _ => .inr ⟨rfl, hread⟩, fun _ _ => .inr ⟨rfl, hread⟩,
      fun _ _ => .inr ⟨rfl, hread⟩⟩

/-- The record of an application, over a blank page, cut after its first marker word. -/
theorem settings_cut_ok_app :
    CutOk (.update (.appComplete 0x1234 0x1000))
      { bank0 := bankValidApp, bank0Crc := 0x1234, bank1 := bankInvalidApp, bank0Size := 0x1000 }
      (fun _ => 0xFF) (replay ((bootloaderSettingsSave
        { bank0 := bankValidApp, bank0Crc := 0x1234, bank1 := bankInvalidApp
          bank0Size := 0x1000 }).take 8) fun _ => 0xFF) :=
  settings_cut_ok (w := .update (.appComplete 0x1234 0x1000)) (show 0x1000 < 2 ^ 32 by decide) rfl 8

end OtaFix

import OtaFix.Lib.Tally
import OtaFix.Mota.Run

/-!
# Capability markers

`boot_image_caps_valid` looks for three kinds of markers in one pass, which ends at the first
marker that is foreign or the second of its kind. Its answer is that each kind the build has
occurs at one aligned place and is the build's own there, wherever the three places are.
-/

namespace OtaFix.Mota

open Lib

/-! ## The markers -/

/-- A privileged update marker, of any storage profile. -/
def BootMarker (image : List Byte) (o : Nat) : Prop :=
  (image.drop o).take 8 = ascii "MOTABLDR" ∧ 3 ≤ (halfAt (image.drop o) 8).toNat ∧
    (halfAt (image.drop o) 8).toNat ≠ 0xFFFF ∧ (halfAt (image.drop o) 10).toNat &&& 5 = 5 ∧
    ((image.drop o).getD 12 0).toNat &&& storageBootUpdate ≠ 0 ∧
    ((image.drop o).getD 12 0).toNat ≤ storageKnown ∧ ((image.drop o).drop 13).take 3 = [0, 0, 0]

instance (image : List Byte) : DecidablePred (BootMarker image) := fun _ =>
  inferInstanceAs (Decidable (_ ∧ _))

/-- Its storage flags are those of this build. -/
def BootOwn (cfg : Profile) (image : List Byte) (o : Nat) : Prop :=
  ((image.drop o).getD 12 0).toNat = bootUpdateStorageFlags cfg

instance (cfg : Profile) (image : List Byte) : DecidablePred (BootOwn cfg image) := fun _ =>
  inferInstanceAs (Decidable (_ = _))

/-- An SD marker, of any version and stage. -/
def SdMarker (image : List Byte) (o : Nat) : Prop :=
  (image.drop o).take 8 = ascii "MOTASDRA" ∧ 1 ≤ (halfAt (image.drop o) 8).toNat ∧
    (halfAt (image.drop o) 8).toNat ≠ 0xFFFF ∧ halfAt (image.drop o) 10 = 72 ∧
    ((image.drop o).getD 12 0).toNat = storageSd ∧ (image.drop o).getD 14 0 = 0 ∧
    (image.drop o).getD 15 0 = 0

instance (image : List Byte) : DecidablePred (SdMarker image) := fun _ =>
  inferInstanceAs (Decidable (_ ∧ _))

def SdOwn (image : List Byte) (o : Nat) : Prop :=
  (halfAt (image.drop o) 8).toNat = 1 ∧ ((image.drop o).getD 13 0).toNat = stageSd

instance (image : List Byte) : DecidablePred (SdOwn image) := fun _ =>
  inferInstanceAs (Decidable (_ ∧ _))

/-- The marker of the RAM arena, which has only one form. -/
def RamMarker (image : List Byte) (o : Nat) : Prop := (image.drop o).take 16 = motaRamInfo

instance (image : List Byte) : DecidablePred (RamMarker image) := fun _ =>
  inferInstanceAs (Decidable (_ = _))

/-- The builds that record their application storage have that record behind the marker. -/
def RamOwn (cfg : Profile) (image : List Byte) (o : Nat) : Prop :=
  cfg.rakAutoStore = true ∨ cfg.sdDualStore = true →
    o + 32 ≤ image.length ∧ (image.drop (o + 16)).take 16 = motaAppStorage cfg

instance (cfg : Profile) (image : List Byte) : DecidablePred (RamOwn cfg image) := fun _ =>
  inferInstanceAs (Decidable (_ → _))

/-! ## Windows -/

/-- A property of the 32 bytes at a place. -/
def Windowed (P : List Byte → Nat → Prop) : Prop :=
  ∀ image o, P image o ↔ P ((image.drop o).take 32) 0

/-- A byte of the window. -/
theorem getD_window {c : List Byte} {i : Nat} (h : i < 32) : (c.take 32).getD i 0 = c.getD i 0 := by
  simp only [List.getD_eq_getElem?_getD]
  rw [List.getElem?_take_of_lt h]

theorem take_window {c : List Byte} {i n : Nat} (h : i + n ≤ 32) :
    ((c.take 32).drop i).take n = (c.drop i).take n := by
  rw [List.drop_take, List.take_take, Nat.min_eq_left (by omega)]

theorem windowed_bootMarker : Windowed BootMarker := by
  intro image o
  unfold BootMarker
  have htext := take_window (c := image.drop o) (i := 0) (n := 8) (by omega)
  rw [List.drop_zero, List.drop_zero] at htext
  rw [List.drop_zero, htext, halfAt_take (by omega), halfAt_take (by omega),
    getD_window (by omega), take_window (by omega)]

theorem windowed_bootOwn (cfg : Profile) : Windowed (BootOwn cfg) := by
  intro image o
  unfold BootOwn
  rw [List.drop_zero, getD_window (by omega)]

theorem windowed_sdMarker : Windowed SdMarker := by
  intro image o
  unfold SdMarker
  have htext := take_window (c := image.drop o) (i := 0) (n := 8) (by omega)
  rw [List.drop_zero, List.drop_zero] at htext
  rw [List.drop_zero, htext, halfAt_take (by omega), halfAt_take (by omega),
    getD_window (by omega), getD_window (by omega), getD_window (by omega)]

theorem windowed_sdOwn : Windowed SdOwn := by
  intro image o
  unfold SdOwn
  rw [List.drop_zero, halfAt_take (by omega), getD_window (by omega)]

theorem windowed_ramMarker : Windowed RamMarker := by
  intro image o
  unfold RamMarker
  rw [List.drop_zero, List.take_take, Nat.min_eq_left (by omega)]

theorem windowed_ramOwn (cfg : Profile) : Windowed (RamOwn cfg) := by
  intro image o
  unfold RamOwn
  have hroom : 0 + 32 ≤ ((image.drop o).take 32).length ↔ o + 32 ≤ image.length := by
    rw [List.length_take, List.length_drop]
    omega
  rw [hroom, Nat.zero_add, take_window (by omega), List.drop_drop]

/-- The text of a marker begins with its first letter. -/
theorem getD_of_take {image text : List Byte} {o n : Nat} (h : (image.drop o).take n = text)
    (hn : 0 < n) : image.getD o 0 = text.getD 0 0 := by
  have hhead := congrArg (fun l => l.getD 0 0) h
  simp only [List.getD_eq_getElem?_getD] at hhead ⊢
  rw [List.getElem?_take_of_lt hn, List.getElem?_drop] at hhead
  exact hhead

/-! ## One candidate -/

variable {cfg : Profile} {image : List Byte} {n n' : Caps} {k : Nat}

theorem take_four {c text : List Byte} {i : Nat} (hi : 4 ≤ i) (h : c.take i = text)
    (htext : text.take 4 = ascii "MOTA") : c.take 4 = ascii "MOTA" := by
  have htake : (c.take i).take 4 = c.take 4 := by
    rw [List.take_take, Nat.min_eq_left hi]
  rw [← htake, h, htext]

theorem take_eight {c text : List Byte} (h : c.take 4 = ascii "MOTA") :
    (c.drop 4).take 4 = text ↔ c.take 8 = ascii "MOTA" ++ text := by
  have hsplit : c.take 8 = c.take 4 ++ (c.drop 4).take 4 := by
    rw [show 8 = 4 + 4 from rfl, List.take_add]
  rw [hsplit, h]
  exact (List.append_right_inj _).symm

/-- The scan of one kind, over the aligned places of the image. -/
abbrev bootTally (cfg : Profile) (image : List Byte) : Nat → Nat → Option Nat :=
  tally (fun k => BootMarker image (4 * k)) (fun k => BootOwn cfg image (4 * k))

abbrev sdTally (cfg : Profile) (image : List Byte) : Nat → Nat → Option Nat :=
  tally (fun k => cfg.rakSdStore = true ∧ SdMarker image (4 * k)) (fun k => SdOwn image (4 * k))

abbrev ramTally (cfg : Profile) (image : List Byte) : Nat → Nat → Option Nat :=
  tally (fun k => cfg.ramArena = true ∧ RamMarker image (4 * k))
    (fun k => RamOwn cfg image (4 * k))

theorem capsBoot_eq : capsBoot cfg (image.drop (4 * k)) n =
    (bootTally cfg image n.boot k).map fun boot => { n with boot := boot } := by
  unfold capsBoot
  exact ite_eq_map_tally rfl rfl Iff.rfl Iff.rfl

theorem capsSd_eq (h : cfg.rakSdStore = true → (image.drop (4 * k)).take 4 = ascii "MOTA") :
    (if cfg.rakSdStore then capsSd (image.drop (4 * k)) n else some n) =
      (sdTally cfg image n.sd k).map fun sd => { n with sd := sd } := by
  by_cases hbuild : cfg.rakSdStore = true
  · rw [if_pos hbuild]
    unfold capsSd
    simp only
    refine ite_eq_map_tally ?_ ?_ ?_ ?_
    · rfl
    · rfl
    · rw [take_eight (h hbuild), and_iff_right hbuild]
      exact Iff.rfl
    · unfold SdOwn
      rw [not_and_or]
  · have hnone : sdTally cfg image n.sd k = some n.sd := tally_of_not fun hboth => hbuild hboth.1
    rw [if_neg hbuild, hnone]
    rfl

theorem not_ramOwn {o : Nat} : ((cfg.rakAutoStore ∨ cfg.sdDualStore) ∧
    ((image.drop o).drop 16).take 16 ≠ motaAppStorage cfg) ↔ ¬ RamOwn cfg image o := by
  unfold RamOwn
  rw [List.drop_drop, Classical.not_imp]
  refine and_congr_right fun _ => not_congr ?_
  refine ⟨fun hrecord => ⟨?_, hrecord⟩, And.right⟩
  have hlength := congrArg List.length hrecord
  rw [List.length_take, List.length_drop,
    show (motaAppStorage cfg).length = 16 from rfl] at hlength
  omega

theorem capsRam_eq :
    (if cfg.ramArena then capsRam cfg (image.drop (4 * k)) n else some n) =
      (ramTally cfg image n.ram k).map fun ram => { n with ram := ram } := by
  by_cases hbuild : cfg.ramArena = true
  · rw [if_pos hbuild]
    unfold capsRam
    apply ite_eq_map_tally rfl rfl
    · rw [and_iff_right hbuild]
      exact Iff.rfl
    · rw [not_ramOwn]
  · have hnone : ramTally cfg image n.ram k = some n.ram :=
      tally_of_not fun hboth => hbuild hboth.1
    rw [if_neg hbuild, hnone]
    rfl

theorem capsStep_of_not (h : ¬ (cfg.rakSdStore ∧ (image.drop (4 * k)).take 4 ≠ ascii "MOTA")) :
    capsStep cfg image n k =
      (if cfg.rakSdStore then capsSd (image.drop (4 * k)) n else some n).bind fun n =>
        (if cfg.ramArena then capsRam cfg (image.drop (4 * k)) n else some n).bind fun n =>
          capsBoot cfg (image.drop (4 * k)) n := by
  unfold capsStep
  simp only [Option.bind_eq_bind]
  rw [if_neg h]
  cases cfg.rakSdStore <;> cases cfg.ramArena <;> rfl

/-- The three scans do not depend on each other. -/
theorem capsStep_eq : capsStep cfg image n k =
    (sdTally cfg image n.sd k).bind fun sd => (ramTally cfg image n.ram k).bind fun ram =>
      (bootTally cfg image n.boot k).map fun boot => ⟨boot, sd, ram⟩ := by
  by_cases hskip : cfg.rakSdStore ∧ (image.drop (4 * k)).take 4 ≠ ascii "MOTA"
  · have hsd : sdTally cfg image n.sd k = some n.sd :=
      tally_of_not fun hboth => hskip.2 (take_four (by omega) hboth.2.1 rfl)
    have hram : ramTally cfg image n.ram k = some n.ram :=
      tally_of_not fun hboth => hskip.2 (take_four (by omega) hboth.2 rfl)
    have hboot : bootTally cfg image n.boot k = some n.boot :=
      tally_of_not fun hmark => hskip.2 (take_four (by omega) hmark.1 rfl)
    unfold capsStep
    simp only
    rw [if_pos hskip, hsd, hram, hboot]
    rfl
  · have hmagic : cfg.rakSdStore = true → (image.drop (4 * k)).take 4 = ascii "MOTA" := by
      intro hbuild
      by_contra hne
      exact hskip ⟨hbuild, hne⟩
    rw [capsStep_of_not hskip, capsSd_eq hmagic]
    cases sdTally cfg image n.sd k with
    | none => rfl
    | some sd =>
      simp only [Option.map_some, Option.bind_some]
      rw [capsRam_eq]
      cases ramTally cfg image n.ram k with
      | none => rfl
      | some ram =>
        simp only [Option.map_some, Option.bind_some]
        rw [capsBoot_eq]

/-! ## The whole scan -/

/-- Each kind is counted as if it were the only one. -/
theorem foldlM_capsStep {l : List Nat} : l.foldlM (capsStep cfg image) n = some n' ↔
    l.foldlM (bootTally cfg image) n.boot = some n'.boot ∧
      l.foldlM (sdTally cfg image) n.sd = some n'.sd ∧
      l.foldlM (ramTally cfg image) n.ram = some n'.ram := by
  induction l generalizing n with
  | nil =>
    cases n
    cases n'
    simp
  | cons k l ih =>
    simp only [List.foldlM_cons, Option.bind_eq_bind, Option.bind_eq_some_iff]
    constructor
    · rintro ⟨m, hstep, hrest⟩
      rw [capsStep_eq] at hstep
      simp only [Option.bind_eq_some_iff, Option.map_eq_some_iff] at hstep
      obtain ⟨sd, hsd, ram, hram, boot, hboot, rfl⟩ := hstep
      obtain ⟨hboots, hsds, hrams⟩ := ih.1 hrest
      exact ⟨⟨boot, hboot, hboots⟩, ⟨sd, hsd, hsds⟩, ⟨ram, hram, hrams⟩⟩
    · rintro ⟨⟨boot, hboot, hboots⟩, ⟨sd, hsd, hsds⟩, ⟨ram, hram, hrams⟩⟩
      refine ⟨⟨boot, sd, ram⟩, ?_, ih.2 ⟨hboots, hsds, hrams⟩⟩
      rw [capsStep_eq, hsd, hram, hboot]
      rfl

/-- A place that the scan visits. -/
def Place (image : List Byte) (o : Nat) : Prop := o % 4 = 0 ∧ o + 16 ≤ image.length

/-- One place has a mark of the kind, and it is the build's own. -/
def OneMarker (image : List Byte) (mark own : Nat → Prop) : Prop :=
  ∃ o, Place image o ∧ (∀ x, Place image x → (mark x ↔ x = o)) ∧ own o

theorem oneMarker_iff (hlen : image.length = motaBlSize) {mark own : Nat → Prop} :
    OneMarker image mark own ↔
      OneGood (fun k => mark (4 * k)) (fun k => own (4 * k)) (motaBlSize / 4 - 3) := by
  have hsize : motaBlSize = 40960 := rfl
  unfold OneMarker OneGood Place
  rw [hlen, hsize]
  constructor
  · rintro ⟨o, ⟨haligned, hroom⟩, hone, hown⟩
    obtain ⟨k, rfl⟩ : ∃ k, o = 4 * k := ⟨o / 4, by omega⟩
    refine ⟨k, by omega, ?_, hown⟩
    intro x hx
    exact (hone (4 * x) (by omega)).trans (by omega)
  · rintro ⟨k, hk, hone, hown⟩
    refine ⟨4 * k, by omega, ?_, hown⟩
    rintro x ⟨haligned, hroom⟩
    obtain ⟨j, rfl⟩ : ∃ j, x = 4 * j := ⟨x / 4, by omega⟩
    exact (hone j (by omega)).trans (by omega)

/-- A kind that the build does not have is not counted. -/
theorem foldlM_tally_build {build : Bool} {mark own : Nat → Prop} [DecidablePred mark]
    [DecidablePred own] {l : List Nat} (h : build = false) :
    l.foldlM (tally (fun k => build = true ∧ mark (4 * k)) fun k => own (4 * k)) 0 = some 0 := by
  induction l with
  | nil => rfl
  | cons k l ih =>
    rw [List.foldlM_cons, tally_of_not (by simp [h])]
    exact ih

theorem exists_count {build : Bool} {mark own : Nat → Prop} [DecidablePred mark]
    [DecidablePred own] {turns : Nat} :
    (∃ c, (List.range turns).foldlM
        (tally (fun k => build = true ∧ mark (4 * k)) fun k => own (4 * k)) 0 = some c ∧
      (build = true → c = 1)) ↔
    (build = true → OneGood (fun k => mark (4 * k)) (fun k => own (4 * k)) turns) := by
  cases build with
  | false =>
    refine iff_of_true ⟨0, foldlM_tally_build rfl, ?_⟩ ?_
    · exact fun h => absurd h Bool.false_ne_true
    · exact fun h => absurd h Bool.false_ne_true
  | true =>
    have hmark : (fun k => mark (4 * k)) = fun k => true = true ∧ mark (4 * k) := by simp
    rw [hmark, ← foldlM_tally_one]
    constructor
    · rintro ⟨c, hfold, hcount⟩ -
      rw [hfold, hcount rfl]
    · exact fun hfold => ⟨1, hfold rfl, fun _ => rfl⟩

/-- Each kind that the build has occurs once, and as the build has it. -/
structure CapsExact (cfg : Profile) (image : List Byte) : Prop where
  boot : OneMarker image (BootMarker image) (BootOwn cfg image)
  ram : cfg.ramArena = true → OneMarker image (RamMarker image) (RamOwn cfg image)
  sd : cfg.rakSdStore = true → OneMarker image (SdMarker image) (SdOwn image)

theorem bootImageCapsValid_iff (hlen : image.length = motaBlSize) :
    bootImageCapsValid cfg image = true ↔ CapsExact cfg image := by
  have hexact : CapsExact cfg image ↔ OneMarker image (BootMarker image) (BootOwn cfg image) ∧
      (cfg.ramArena = true → OneMarker image (RamMarker image) (RamOwn cfg image)) ∧
      (cfg.rakSdStore = true → OneMarker image (SdMarker image) (SdOwn image)) :=
    ⟨fun h => ⟨h.boot, h.ram, h.sd⟩, fun h => ⟨h.1, h.2.1, h.2.2⟩⟩
  rw [hexact, oneMarker_iff hlen, oneMarker_iff hlen, oneMarker_iff hlen]
  unfold bootImageCapsValid
  generalize motaBlSize / 4 - 3 = turns
  rw [← foldlM_tally_one, ← exists_count, ← exists_count]
  constructor
  · intro h
    cases hfold : (List.range turns).foldlM (capsStep cfg image) {} with
    | none =>
      rw [hfold] at h
      cases h
    | some n =>
      rw [hfold] at h
      simp only [Bool.and_eq_true, decide_eq_true_eq, Bool.or_eq_true, Bool.not_eq_true'] at h
      obtain ⟨⟨hboot, hsd⟩, hram⟩ := h
      obtain ⟨hboots, hsds, hrams⟩ := foldlM_capsStep.1 hfold
      rw [hboot] at hboots
      refine ⟨hboots, ⟨n.ram, hrams, ?_⟩, ⟨n.sd, hsds, ?_⟩⟩
      · intro hbuild
        exact hram.resolve_left (by simp [hbuild])
      · intro hbuild
        exact hsd.resolve_left (by simp [hbuild])
  · rintro ⟨hboots, ⟨ram, hrams, hram⟩, ⟨sd, hsds, hsd⟩⟩
    have hfold : (List.range turns).foldlM (capsStep cfg image) {} = some ⟨1, sd, ram⟩ :=
      foldlM_capsStep.2 ⟨hboots, hsds, hrams⟩
    rw [hfold]
    simp only [Bool.and_eq_true, decide_eq_true_eq, Bool.or_eq_true, Bool.not_eq_true']
    refine ⟨⟨trivial, ?_⟩, ?_⟩
    · exact (Bool.eq_false_or_eq_true _).symm.imp_right hsd
    · exact (Bool.eq_false_or_eq_true _).symm.imp_right hram

/-! ## Where the markers are -/

/-- Which markers of an image are the build's own, in the order of the image. -/
def bootMarks (cfg : Profile) (image : List Byte) : List Bool :=
  markList (fun k => BootMarker image (4 * k)) (fun k => BootOwn cfg image (4 * k))
    (motaBlSize / 4 - 3)

def ramMarks (cfg : Profile) (image : List Byte) : List Bool :=
  markList (fun k => RamMarker image (4 * k)) (fun k => RamOwn cfg image (4 * k))
    (motaBlSize / 4 - 3)

def sdMarks (image : List Byte) : List Bool :=
  markList (fun k => SdMarker image (4 * k)) (fun k => SdOwn image (4 * k)) (motaBlSize / 4 - 3)

/-- The same markers of each kind, in any order and at any places. -/
structure SameMarks (cfg : Profile) (image image' : List Byte) : Prop where
  boot : (bootMarks cfg image).Perm (bootMarks cfg image')
  ram : cfg.ramArena = true → (ramMarks cfg image).Perm (ramMarks cfg image')
  sd : cfg.rakSdStore = true → (sdMarks image).Perm (sdMarks image')

theorem perm_singleton_iff {l l' : List Bool} (h : l.Perm l') : l = [true] ↔ l' = [true] := by
  constructor
  · rintro rfl
    exact List.perm_singleton.1 h.symm
  · rintro rfl
    exact List.perm_singleton.1 h

theorem oneMarker_perm {image' : List Byte} (hlen : image.length = motaBlSize)
    (hlen' : image'.length = motaBlSize) {mark own mark' own' : Nat → Prop} [DecidablePred mark]
    [DecidablePred own] [DecidablePred mark'] [DecidablePred own']
    (h : (markList (fun k => mark (4 * k)) (fun k => own (4 * k)) (motaBlSize / 4 - 3)).Perm
      (markList (fun k => mark' (4 * k)) (fun k => own' (4 * k)) (motaBlSize / 4 - 3))) :
    OneMarker image mark own ↔ OneMarker image' mark' own' := by
  rw [oneMarker_iff hlen, oneMarker_iff hlen', oneGood_iff_markList, oneGood_iff_markList]
  exact perm_singleton_iff h

theorem SameMarks.exact_iff {image' : List Byte} (hlen : image.length = motaBlSize)
    (hlen' : image'.length = motaBlSize) (h : SameMarks cfg image image') :
    CapsExact cfg image ↔ CapsExact cfg image' := by
  have hboot : OneMarker image (BootMarker image) (BootOwn cfg image) ↔
      OneMarker image' (BootMarker image') (BootOwn cfg image') := oneMarker_perm hlen hlen' h.boot
  constructor
  · intro hexact
    refine ⟨hboot.1 hexact.boot, fun hbuild => ?_, fun hbuild => ?_⟩
    · exact (oneMarker_perm hlen hlen' (h.ram hbuild)).1 (hexact.ram hbuild)
    · exact (oneMarker_perm hlen hlen' (h.sd hbuild)).1 (hexact.sd hbuild)
  · intro hexact
    refine ⟨hboot.2 hexact.boot, fun hbuild => ?_, fun hbuild => ?_⟩
    · exact (oneMarker_perm hlen hlen' (h.ram hbuild)).2 (hexact.ram hbuild)
    · exact (oneMarker_perm hlen hlen' (h.sd hbuild)).2 (hexact.sd hbuild)

/-- The answer for the image at an address: each kind that the build has occurs once and as the
build has it. Another image with the same markers elsewhere has the same answer. -/
theorem boot_image_caps_exact (cfg : Profile) (flash : Mem) (a : Nat) :
    (bootImageCapsValid cfg (slice flash a motaBlSize) = true ↔
      CapsExact cfg (slice flash a motaBlSize)) ∧
    ∀ flash' a', SameMarks cfg (slice flash a motaBlSize) (slice flash' a' motaBlSize) →
      bootImageCapsValid cfg (slice flash a motaBlSize) =
        bootImageCapsValid cfg (slice flash' a' motaBlSize) := by
  refine ⟨bootImageCapsValid_iff (slice_length _ _ _), fun flash' a' h => ?_⟩
  rw [Bool.eq_iff_iff, bootImageCapsValid_iff (slice_length _ _ _),
    bootImageCapsValid_iff (slice_length _ _ _)]
  exact h.exact_iff (slice_length _ _ _) (slice_length _ _ _)

/-- Erased flash with some bytes at 0x1000. -/
def markedFlash (l : List Byte) : Mem := fun x => if x < 0x1000 then 0xFF else l.getD (x - 0x1000) 0xFF

/-- An image with 64 such bytes has a marker where the bytes have it. -/
theorem oneMarker_markedFlash {mark own : List Byte → Nat → Prop} (hmark : Windowed mark)
    (hown : Windowed own) (hletter : ∀ image o, mark image o → image.getD o 0 = 0x4D)
    {l : List Byte} {a i : Nat} (haligned : a % 4 = 0) (hlow : a ≤ 0x1000) (hlen : l.length = 64)
    (hi : i < 16) (hone : ∀ j < 16, mark (slice (markedFlash l) (0x1000 + 4 * j) 32) 0 ↔ j = i)
    (hgood : own (slice (markedFlash l) (0x1000 + 4 * i) 32) 0) :
    OneMarker (slice (markedFlash l) a motaBlSize) (mark (slice (markedFlash l) a motaBlSize))
      (own (slice (markedFlash l) a motaBlSize)) := by
  have hsize : motaBlSize = 40960 := rfl
  have hwindow : ∀ j, j < 16 → ((slice (markedFlash l) a motaBlSize).drop (0x1000 - a + 4 * j)).take 32 =
      slice (markedFlash l) (0x1000 + 4 * j) 32 := by
    intro j hj
    rw [slice_drop (by omega), slice_take (by omega)]
    congr 1
    omega
  refine ⟨0x1000 - a + 4 * i, ⟨by omega, by rw [slice_length]; omega⟩, fun x hx => ?_, ?_⟩
  · obtain ⟨hx4, hroom⟩ := hx
    rw [slice_length] at hroom
    constructor
    · intro h
      have hfirst := hletter _ x h
      rw [slice_getD_add (by omega)] at hfirst
      -- the letter is not in the erased part
      obtain ⟨j, hj, rfl⟩ : ∃ j < 16, x = 0x1000 - a + 4 * j := by
        by_contra hout
        have hhigh : a + x < 0x1000 ∨ 0x1040 ≤ a + x := by
          by_contra hin
          exact hout ⟨(a + x - 0x1000) / 4, by omega, by omega⟩
        unfold markedFlash at hfirst
        rcases hhigh with hbelow | habove
        · rw [if_pos hbelow] at hfirst
          exact absurd hfirst (by decide)
        · rw [if_neg (by omega), List.getD_eq_getElem?_getD,
            List.getElem?_eq_none (by omega)] at hfirst
          exact absurd hfirst (by decide)
      rw [hmark, hwindow j hj, hone j hj] at h
      rw [h]
    · rintro rfl
      rw [hmark, hwindow i hi, hone i hi]
  · rw [hown, hwindow i hi]
    exact hgood

/-- A build with every kind of marker. -/
def rakProfile : Profile :=
  { sampleProfile with
    sdCard := true, rakSdStore := true, rakAutoStore := true, rakAutoRak4631 := true
    qspiBootloaderUpdate := false, qspiXiaoIdentity := false, internalBootloaderUpdate := true
    ramArena := true }

def bootMark : List Byte := ascii "MOTABLDR" ++ put16 3 ++ put16 5 ++ [0x0A, 0, 0, 0]

def ramMark : List Byte := motaRamInfo ++ motaAppStorage rakProfile

def sdMark : List Byte := ascii "MOTASDRA" ++ put16 1 ++ put16 72 ++ [0x01, 0x53, 0, 0]

/-- The markers in one order. -/
theorem capsExact_bootFirst : CapsExact rakProfile
    (slice (markedFlash (bootMark ++ ramMark ++ sdMark)) 0x1000 motaBlSize) where
  boot := oneMarker_markedFlash (i := 0) windowed_bootMarker (windowed_bootOwn _)
    (fun _ _ h => getD_of_take h.1 (by decide)) (by decide) (by decide) (by decide) (by decide)
    (by decide) (by decide)
  ram _ := oneMarker_markedFlash (i := 4) windowed_ramMarker (windowed_ramOwn _)
    (fun _ _ h => getD_of_take h (by decide)) (by decide) (by decide) (by decide) (by decide)
    (by decide) (by decide)
  sd _ := oneMarker_markedFlash (i := 12) windowed_sdMarker windowed_sdOwn
    (fun _ _ h => getD_of_take h.1 (by decide)) (by decide) (by decide) (by decide) (by decide)
    (by decide) (by decide)

/-- The markers in another order, and elsewhere in the image. -/
theorem capsExact_sdFirst : CapsExact rakProfile
    (slice (markedFlash (sdMark ++ ramMark ++ bootMark)) 0xF00 motaBlSize) where
  boot := oneMarker_markedFlash (i := 12) windowed_bootMarker (windowed_bootOwn _)
    (fun _ _ h => getD_of_take h.1 (by decide)) (by decide) (by decide) (by decide) (by decide)
    (by decide) (by decide)
  ram _ := oneMarker_markedFlash (i := 4) windowed_ramMarker (windowed_ramOwn _)
    (fun _ _ h => getD_of_take h (by decide)) (by decide) (by decide) (by decide) (by decide)
    (by decide) (by decide)
  sd _ := oneMarker_markedFlash (i := 0) windowed_sdMarker windowed_sdOwn
    (fun _ _ h => getD_of_take h.1 (by decide)) (by decide) (by decide) (by decide) (by decide)
    (by decide) (by decide)

/-- Two images with one marker of each kind have the same ones. -/
theorem CapsExact.sameMarks {image' : List Byte} (hlen : image.length = motaBlSize)
    (hlen' : image'.length = motaBlSize) (h : CapsExact cfg image) (h' : CapsExact cfg image') :
    SameMarks cfg image image' := by
  have hone : ∀ {mark own mark' own' : Nat → Prop} [DecidablePred mark] [DecidablePred own]
      [DecidablePred mark'] [DecidablePred own'], OneMarker image mark own →
      OneMarker image' mark' own' →
      (markList (fun k => mark (4 * k)) (fun k => own (4 * k)) (motaBlSize / 4 - 3)).Perm
        (markList (fun k => mark' (4 * k)) (fun k => own' (4 * k)) (motaBlSize / 4 - 3)) := by
    intro mark own mark' own' _ _ _ _ h h'
    rw [oneMarker_iff hlen, oneGood_iff_markList] at h
    rw [oneMarker_iff hlen', oneGood_iff_markList] at h'
    rw [h, h']
  exact ⟨hone h.boot h'.boot, fun hb => hone (h.ram hb) (h'.ram hb),
    fun hb => hone (h.sd hb) (h'.sd hb)⟩

theorem boot_image_caps_exact_moved :
    bootImageCapsValid rakProfile
      (slice (markedFlash (bootMark ++ ramMark ++ sdMark)) 0x1000 motaBlSize) = true ∧
    bootImageCapsValid rakProfile
      (slice (markedFlash (bootMark ++ ramMark ++ sdMark)) 0x1000 motaBlSize) =
      bootImageCapsValid rakProfile
        (slice (markedFlash (sdMark ++ ramMark ++ bootMark)) 0xF00 motaBlSize) := by
  obtain ⟨hexact, hmoved⟩ := boot_image_caps_exact rakProfile
    (markedFlash (bootMark ++ ramMark ++ sdMark)) 0x1000
  refine ⟨hexact.2 capsExact_bootFirst, hmoved _ _ ?_⟩
  exact capsExact_bootFirst.sameMarks (slice_length _ _ _) (slice_length _ _ _) capsExact_sdFirst

end OtaFix.Mota

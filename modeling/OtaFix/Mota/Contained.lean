import OtaFix.Mota.Installs
import OtaFix.Mota.OneShot

/-!
# Where an update writes

The decoder of an application update writes pages of its workspace only
(`mota_decoder_contained`); a bootloader update writes pages of the raw area below the
bootloader only, and hands that area to the MBR only when it is in order
(`mota_bootloader_safe`).
-/

namespace OtaFix.Mota

open Lib Prog

variable {env : Env} {cfg : Profile} {s s' s0 s1 : Device} {o : Op} {lo hi a raw : Nat} {m : MotaMin}

/-! ## The decoder -/

theorem CommonOp.not_decode {P : Nat → Prop} :
    ¬ CommonOp env cfg P s1 (.mark (.decode lo hi)) s := by
  intro h
  cases h with
  | closes h ho => exact ho
  | clears h a m hP hc hp hd hmem ho =>
    rcases ho with ho | ⟨-, ho⟩ | ⟨-, -, ho⟩
    · exact ho
    · exact ho
    · cases ho

/-- The decoder starts under the invalid record, on the workspace of its container. -/
theorem MotaOp.decode (h : MotaOp env cfg s0 (.mark (.decode lo hi)) s) : s0.gpregret = otaApply ∧
    ∃ b s1 a m, Selected env cfg s0 b sdAuthPurposeApp 2 s1 ∧ Invalidated env cfg s1 a m s ∧
      Workspace cfg s1 a lo hi := by
  cases h with
  | prelude ho => exact ho.elim
  | app ht h =>
    cases h with
    | prelude ho => exact ho.elim
    | later s1 h1 ho =>
      cases ho with
      | common h => exact absurd h CommonOp.not_decode
      | invalidates a m h ho => rcases ho with ho | ho <;> cases ho
      | writes a m h lo' hi' hws hd ho =>
        rcases ho with ho | ho
        · exact ho.elim
        · cases ho
          exact ⟨ht, _, s1, a, m, h1, h, hws⟩
  | boot he ht h =>
    cases h with
    | prelude ho => exact ho.elim
    | later s1 h1 ho =>
      cases ho with
      | common h => exact absurd h CommonOp.not_decode
      | copies a m raw h hs hp ho => exact ho.elim
      | winds hg hr ho => exact ho.elim

theorem Closes.pageOp (h : Closes cfg o s) : PageOp lo hi o := by
  cases o with
  | erase | words | settingsCommit => exact h.elim
  | _ => trivial

theorem Preludes.pageOp (h : Preludes o) : PageOp lo hi o := by
  cases o with
  | erase | words | settingsCommit => exact h.elim
  | _ => trivial

/-- Behind the start of the decoder, pages outside its workspace are written no more. -/
theorem MotaOp.decoding (h : MotaOp env cfg s0 o s) (ht : s0.gpregret = otaApply)
    (hd : .decode lo hi ∈ s.marks) (hr : ∀ r, o ≠ .settingsCommit r) : PageOp lo hi o := by
  cases h with
  | prelude ho => exact ho.pageOp
  | app _ h =>
    cases h with
    | prelude ho => exact ho.pageOp
    | later s1 h1 ho =>
      cases ho with
      | common h =>
        cases h with
        | closes h ho => exact ho.pageOp
        | parsed => trivial
        | clears h a m hP hc hp hnone => exact absurd hd (hnone lo hi)
      | invalidates a m h ho =>
        rcases ho with rfl | rfl
        · trivial
        · exact absurd rfl (hr _)
      | writes a m h lo' hi' hws hd' ho =>
        obtain ⟨rfl, rfl⟩ := hd' lo hi hd
        rcases ho with ho | rfl
        · exact ho.pageOp
        · trivial
      | records => exact absurd rfl (hr _)
  | boot _ hb =>
    rw [ht] at hb
    cases hb

theorem PageOp.outside (h : PageOp lo hi o) {x : Nat} (hx : x < lo ∨ hi ≤ x) (env : Env) (s : Device) :
    (after env o s).mem x = s.mem x := by
  rw [after_mem]
  exact replay_outside (nvOps_inside h) hx s.mem

/-- From the start of the decoder on, whatever callbacks it makes and however pages fail:
pages are erased and written in `[APP_BASE, ws_hi)` only, so that up to the next record
every byte outside stays, in particular the container in flash from its first byte on; and
no address computed for the decoder wraps. -/
theorem mota_decoder_contained (h : Booted cfg s0) (env : Env) (decoder : Nat → Decoder)
    {pre post : List (Op × Device)} {sd : Device} {wsLo wsHi : Nat}
    (ht : (otaDeltaCheckAndApply cfg decoder).trace (handler env) s0 =
      pre ++ (.mark (.decode wsLo wsHi), sd) :: post) :
    wsLo = dfuBank0RegionStart s0.mem ∧
    (∀ x ∈ post, (∀ page, x.1 = .erase page → wsLo ≤ page ∧ page + codePageSize ≤ wsHi) ∧
      (∀ page d, x.1 = .words page d → wsLo ≤ page ∧ page + d.length ≤ wsHi)) ∧
    (∀ mid x rest, post = mid ++ x :: rest → (∀ y ∈ mid, ∀ r, y.1 ≠ .settingsCommit r) →
      ∀ y, y < wsLo ∨ wsHi ≤ y → x.2.mem y = sd.mem y) ∧
    ∃ motaAddr m, .parsed motaAddr m ∈ sd.marks ∧
      (FlashStaged cfg sd.statics → wsHi ≤ motaAddr) ∧
      (∀ off n addr, dtWsAddr ⟨m.payloadAddr, m.payloadSize, wsLo, wsHi⟩ off n = some addr →
        addr = wsLo + off ∧ addr + n ≤ wsHi) ∧
      (∀ pos, pos ≤ m.payloadSize → add32 m.payloadAddr pos = m.payloadAddr + pos) := by
  have hspec : Sat (handler env) _ _ _ s0 := otaDeltaCheckAndApply_spec h decoder
  obtain ⟨hop, q, rfl, hq, -⟩ := hspec.suffix ht
  obtain ⟨htrigger, b, s1, a, m, hsel, hinv, hws⟩ := hop.decode
  have hmark : Mark.decode wsLo wsHi ∈ (handler env (.mark (.decode wsLo wsHi)) sd).2.marks :=
    List.mem_append_right _ (List.mem_singleton_self _)
  have hq := hq.keep (I := fun s => Mark.decode wsLo wsHi ∈ s.marks) hmark fun _ _ _ h => mark_mem h
  refine ⟨?_, fun x hx => ?_, fun mid x rest hpost hmid y hy => ?_, a, m, hinv.parsed, ?_, ?_, ?_⟩
  · rw [hws.low, hsel.mem]
  · obtain ⟨hx, hd⟩ := hq.trace x hx
    refine ⟨fun page heq => ?_, fun page d heq => ?_⟩
    · have hp := hx.decoding htrigger hd (by rw [heq]; exact nofun)
      rw [heq] at hp
      exact ⟨hp.low, hp.high⟩
    · have hp := hx.decoding htrigger hd (by rw [heq]; exact nofun)
      rw [heq] at hp
      exact ⟨hp.1.low, hp.2 ▸ hp.1.high⟩
  · let stop : Op → Prop := fun o => ∃ r, o = .settingsCommit r
    have hstop : ∀ z ∈ mid, ¬ stop z.1 := fun z hz ⟨r, hr⟩ => hmid z hz r hr
    refine hq.keep_until (I := fun s => s.mem y = sd.mem y) rfl (fun o s ho hne hs => ?_) hpost hstop
    have hp := ho.1.decoding htrigger ho.2 fun r hr => hne ⟨r, hr⟩
    exact (hp.outside hy env s).trans hs
  · intro hst
    exact hws.below (hst.keeps hinv.session.source.symm)
  · intro off n addr
    exact dtWsAddr_eq hws.le hws.pages.lt
  · intro pos hpos
    have := hinv.chosen.payload
    exact add32_eq (by omega)

/-- A decoder that takes the patch, moves the old vectors up, erases the first page of its
workspace and writes new vectors. -/
def pageDecoder : Decoder :=
  .patchRead 9 fun _ => .memRead 0 8 fun old => .memWrite 16 (old.getD []) fun _ =>
    .memErase 0 codePageSize fun _ => .memWrite 0 (put32 0x20001000 ++ put32 0xDF009) fun _ => .done 16

/-- The operations of its run on the container for the sample application. -/
def norTrace : List (Op × Device) :=
  (otaDeltaCheckAndApply sampleProfile fun _ => pageDecoder).trace (handler (sampleNor sampleBaseHash))
    (sampleDevice sampleProfile otaApply stageQspi [])

def erasesPage (page : Nat) (o : Op) : Bool :=
  match o with
  | .erase p => p = page
  | _ => false

def writesPage (page : Nat) (o : Op) : Bool :=
  match o with
  | .words p _ => p = page
  | _ => false

theorem eq_of_erasesPage {page : Nat} (h : erasesPage page o = true) : o = .erase page := by
  cases o with
  | erase p => rw [of_decide_eq_true h]
  | _ => cases h

theorem eq_of_writesPage {page : Nat} (h : writesPage page o = true) : ∃ d, o = .words page d := by
  cases o with
  | words p d => exact ⟨d, by rw [of_decide_eq_true h]⟩
  | _ => cases h

/-- The trace begins with the decode mark, and goes on to an erase and a write of its page. -/
def decodesPage : List (Op × Device) → Bool
  | (.mark (.decode lo hi), _) :: post =>
    lo = 0xDF000 && hi = 0xE0000 && post.any (fun x => erasesPage 0xDF000 x.1) &&
      post.any fun x => writesPage 0xDF000 x.1
  | _ => false

/-- The decoder erases and writes the page of the application, and no other. -/
theorem mota_decoder_norRun : ∃ pre sd post,
    norTrace = pre ++ (.mark (.decode 0xDF000 0xE0000), sd) :: post ∧
    (∃ x ∈ post, x.1 = .erase 0xDF000) ∧ (∃ x ∈ post, ∃ d, x.1 = .words 0xDF000 d) ∧
    ∀ x ∈ post, (∀ page, x.1 = .erase page → 0xDF000 ≤ page ∧ page + codePageSize ≤ 0xE0000) ∧
      ∀ page d, x.1 = .words page d → 0xDF000 ≤ page ∧ page + d.length ≤ 0xE0000 := by
  have hpage : decodesPage (norTrace.drop 48) = true := by decide +kernel
  have hsplit := List.take_append_drop 48 norTrace
  generalize norTrace.take 48 = pre at hsplit
  generalize norTrace.drop 48 = rest at hpage hsplit
  unfold decodesPage at hpage
  split at hpage
  case h_2 => cases hpage
  case h_1 lo hi sd post =>
    simp only [Bool.and_eq_true, decide_eq_true_eq, List.any_eq_true] at hpage
    obtain ⟨⟨⟨rfl, rfl⟩, x, hx, herase⟩, y, hy, hwrite⟩ := hpage
    have h := mota_decoder_contained (sampleDevice_booted rfl _ _ _) _ _ hsplit.symm
    exact ⟨pre, sd, post, hsplit.symm, ⟨x, hx, eq_of_erasesPage herase⟩,
      ⟨y, hy, eq_of_writesPage hwrite⟩, h.2.1⟩

/-! ## Bootloader updates -/

/-- The raw area of a bootloader update from the backend `b`. -/
def rawStart (cfg : Profile) (b : Backend) : Nat :=
  if cfg.sdDualStore || (cfg.rakSdStore && cfg.sdBootloaderUpdate) then
    if b = .sd then motaBlScratchStart else internalBlSlotStart
  else if cfg.internalBootloaderUpdate then internalBlSlotStart
  else motaBlScratchStart

/-- `BOOT_UPDATE_RAW_START` is fixed by the selected source. -/
theorem Selected.rawStart {b : Backend} {purpose formatVer : Byte}
    (h : Selected env cfg s0 b purpose formatVer s1) (hb : cfg.builds = true) :
    bootUpdateRawStart cfg s1.statics = rawStart cfg b := by
  unfold bootUpdateRawStart Mota.rawStart
  by_cases hstore : (cfg.sdDualStore || (cfg.rakSdStore && cfg.sdBootloaderUpdate)) = true
  · rw [if_pos hstore, if_pos hstore]
    have hsd : cfg.sdBootloaderUpdate = true := by
      rcases Bool.or_eq_true_iff.mp hstore with hdual | hrak
      · exact builds_dualStore hb hdual
      · exact (Bool.and_eq_true_iff.mp hrak).2
    have hsel := h.sd
    rw [Profile.sdSelected, builds_sdBoot hb hsd, Bool.true_and] at hsel
    rw [hsel]
    simp
  · rw [if_neg hstore, if_neg hstore]

/-- Below the bootloader, whatever the source. -/
theorem rawStart_below (cfg : Profile) (b : Backend) : rawStart cfg b + motaBlSize ≤ motaBlStart := by
  unfold rawStart
  split_ifs <;> decide

theorem PageIn.mono {lo' hi' page : Nat} (h : PageIn lo hi page) (hlo : lo' ≤ lo) (hhi : hi ≤ hi') :
    PageIn lo' hi' page := ⟨Nat.le_trans hlo h.low, Nat.le_trans h.high hhi, h.aligned⟩

theorem PageOp.mono {lo' hi' : Nat} (h : PageOp lo hi o) (hlo : lo' ≤ lo) (hhi : hi ≤ hi') :
    PageOp lo' hi' o := by
  cases o with
  | erase p => exact PageIn.mono h hlo hhi
  | words a d => exact ⟨h.1.mono hlo hhi, h.2⟩
  | settingsCommit => exact h
  | _ => trivial

/-- Every operation of a bootloader update writes in the raw area, if it writes at all. -/
theorem BootOp.pageOp (h : BootOp env cfg s1 o s) :
    PageOp (bootUpdateRawStart cfg s1.statics) (bootUpdateRawStart cfg s1.statics + motaBlSize) o := by
  cases h with
  | common h =>
    cases h with
    | closes h ho => exact ho.pageOp
    | parsed => trivial
    | clears h a m hP hc hp hd hmem ho =>
      rcases ho with ho | ⟨hst, ho⟩ | ⟨-, -, rfl⟩
      · exact ho.writes.pageOp
      · obtain ⟨ha, hraw⟩ := hP (hst.keeps h.source.symm)
        rw [hraw, ← ha]
        exact ho.pageOp.mono (Nat.le_refl _) (Nat.add_le_add_left (by decide) a)
      · trivial
  | copies a m raw h hs hp ho =>
    rw [← h.start]
    exact ho.pageOp
  | winds hg hr ho =>
    cases o with
    | erase | words | settingsCommit => exact ho.elim
    | _ => trivial
  | hands => trivial

theorem MotaOp.bootPageOp (h : MotaOp env cfg s0 o s) (hb : cfg.builds = true)
    (ht : s0.gpregret = bootloaderApply) :
    PageOp (rawStart cfg (bootBackend cfg s0.gpregret2))
      (rawStart cfg (bootBackend cfg s0.gpregret2) + motaBlSize) o := by
  cases h with
  | prelude ho => exact ho.pageOp
  | app ha =>
    rw [ht] at ha
    cases ha
  | boot _ _ h =>
    cases h with
    | prelude ho => exact ho.pageOp
    | later s1 h1 ho =>
      rw [← h1.rawStart hb]
      exact ho.pageOp

/-- What holds of the package `m` and of the flash when the MBR is told to copy `source`. -/
structure Handed (cfg : Profile) (s0 : Device) (source : Nat) (m : MotaMin) (s : Device) : Prop where
  ready : Ready cfg m source s.mem
  fits : otaDeltaLiveAppFitsBelow s0.mem source = true
  approved : m.approved = true
  gpregret : s.gpregret = 0
  sd : bootBackend cfg s0.gpregret2 = .sd → s.retained = wipedRecord ∧
    motaSdAuthValid s0.retained sdAuthPurposeBootloader 3 = true ∧
    sdBootAuthorizationValid s0.mem m = true

theorem CommonOp.not_mbrCopy {P : Nat → Prop} {source : Nat} :
    ¬ CommonOp env cfg P s1 (.mbrCopy source) s := by
  intro h
  cases h with
  | closes h ho => exact ho
  | clears h a m hP hc hp hd hmem ho =>
    rcases ho with ho | ⟨-, ho⟩ | ⟨-, -, ho⟩
    · exact ho
    · exact ho
    · cases ho

theorem MotaOp.handed {source : Nat} (h : MotaOp env cfg s0 (.mbrCopy source) s)
    (hb : cfg.builds = true) : source = rawStart cfg (bootBackend cfg s0.gpregret2) ∧
      ∃ a m, .parsed a m ∈ s.marks ∧ Handed cfg s0 source m s := by
  cases h with
  | prelude ho => exact ho.elim
  | app ht h =>
    cases h with
    | prelude ho => exact ho.elim
    | later s1 h1 ho =>
      cases ho with
      | common h => exact absurd h CommonOp.not_mbrCopy
      | invalidates a m h ho => rcases ho with ho | ho <;> cases ho
      | writes a m h lo hi hws hd ho =>
        rcases ho with ho | ho
        · exact ho.elim
        · cases ho
  | boot he ht h =>
    cases h with
    | prelude ho => exact ho.elim
    | later s1 h1 ho =>
      cases ho with
      | common h => exact absurd h CommonOp.not_mbrCopy
      | copies a m raw h hs hp ho => exact ho.elim
      | winds hg hr ho => exact ho.elim
      | hands a m raw h hg hr hp ready =>
        refine ⟨h.start.trans (h1.rawStart hb), a, m, hp, ready, h1.mem ▸ h.fits, h.chosen.approved,
          hg.trans h1.gpregret, fun hsd => ⟨hr.trans (h1.wiped (.inl hsd)), (h1.sdRecord hsd).2, ?_⟩⟩
        rw [← h1.mem]
        exact h.token (by rw [h1.sd, hsd]; rfl)

/-- A bootloader update writes pages of the raw area only, on every path and at every cut of
its flash operations; it hands the raw area to the MBR only while that area holds the image
of an approved, authorized package below which the live application fits. -/
theorem mota_bootloader_safe (h : Booted cfg s0) (ht : s0.gpregret = bootloaderApply) (env : Env)
    (decoder : Nat → Decoder) :
    let raw := rawStart cfg (bootBackend cfg s0.gpregret2)
    raw + motaBlSize ≤ motaBlStart ∧
    (∀ x ∈ (otaDeltaCheckAndApply cfg decoder).trace (handler env) s0,
      (∀ page, x.1 = .erase page → raw ≤ page ∧ page + codePageSize ≤ raw + motaBlSize) ∧
      (∀ page d, x.1 = .words page d → raw ≤ page ∧ page + d.length ≤ raw + motaBlSize) ∧
      ∀ r, x.1 ≠ .settingsCommit r) ∧
    (∀ k y, y < raw ∨ raw + motaBlSize ≤ y →
      replay (((otaDeltaCheckAndApply cfg decoder).run (handler env) s0).2.ops.take k) s0.mem y =
        s0.mem y) ∧
    ∀ x ∈ (otaDeltaCheckAndApply cfg decoder).trace (handler env) s0, ∀ source,
      x.1 = .mbrCopy source → source = raw ∧
        ∃ a m, .parsed a m ∈ x.2.marks ∧ Handed cfg s0 source m x.2 := by
  intro raw
  have hspec : Sat (handler env) _ _ _ s0 := otaDeltaCheckAndApply_spec h decoder
  refine ⟨rawStart_below cfg _, fun x hx => ?_, fun k y hy => ?_, fun x hx source heq => ?_⟩
  · have hp : PageOp raw (raw + motaBlSize) x.1 := (hspec.trace x hx).bootPageOp h.builds ht
    refine ⟨fun page heq => ?_, fun page d heq => ?_, fun r heq => ?_⟩ <;> rw [heq] at hp
    · exact ⟨hp.low, hp.high⟩
    · exact ⟨hp.1.low, hp.2 ▸ hp.1.high⟩
    · exact hp
  · have hops := hspec.inv (I := fun s => ∀ op ∈ s.ops, raw ≤ op.start ∧ op.stop ≤ raw + motaBlSize)
      (by rw [h.ops]; exact nofun) fun o s ho hs op hop => ?_
    · exact replay_outside (fun op hop => hops op (List.mem_of_mem_take hop)) hy s0.mem
    · have hp : PageOp raw (raw + motaBlSize) o := ho.bootPageOp h.builds ht
      change op ∈ (after env o s).ops at hop
      rw [after_ops] at hop
      rcases List.mem_append.mp hop with hop | hop
      · exact hs op hop
      · exact nvOps_inside hp op hop
  · have hop := hspec.trace x hx
    rw [heq] at hop
    exact hop.handed h.builds

/-- The package in the slot is installed: a page of the raw area is programmed, and the MBR is
told to copy that area, which holds the image then. -/
theorem mota_bootloader_slotRun :
    (∃ x ∈ slotTrace, ∃ page d, x.1 = .words page d ∧ 0xE2000 ≤ page ∧
      page + d.length ≤ 0xEC000) ∧
    ∃ x ∈ slotTrace, x.1 = .mbrCopy 0xE2000 ∧ ∃ a m, .parsed a m ∈ x.2.marks ∧
      Handed slotProfile slotDevice 0xE2000 m x.2 := by
  have hraw : rawStart slotProfile (bootBackend slotProfile slotDevice.gpregret2) = 0xE2000 := rfl
  have hsafe := mota_bootloader_safe slotDevice_boots.toBooted rfl {} slotDecoder
  rw [hraw] at hsafe
  obtain ⟨-, hops, -, hhanded⟩ := hsafe
  obtain ⟨x, hx, hwrites⟩ := slotTrace_writes
  obtain ⟨y, hy, source, hcopies⟩ := slotTrace_copies
  obtain ⟨rfl, hmanifest⟩ := hhanded y hy source hcopies
  refine ⟨⟨x, hx, ?_⟩, y, hy, hcopies, hmanifest⟩
  rcases hwrites with ⟨page, d, heq⟩ | ⟨r, heq⟩
  · exact ⟨page, d, heq, (hops x hx).2.1 page d heq⟩
  · exact absurd heq ((hops x hx).2.2 r)

end OtaFix.Mota
